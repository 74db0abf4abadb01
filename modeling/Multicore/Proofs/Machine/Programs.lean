import Multicore.Proofs.Core.Lifecycle
import Multicore.Proofs.Instruction.RoundTrip
import Multicore.Proofs.Machine.CodeStores
import Multicore.Proofs.Machine.PageTurns
import Multicore.Proofs.Memory.Images
import Mathlib.Data.List.Forall2

/-!
# Programs in memory

A program of a dialect is written to memory as the bytes of its words (`Dialect.Assembles`). Each
word is found again four bytes after the one before (`PagedMemory.wordAt_setBytes_bytesOfWords`)
and decodes to its instruction. A core whose instruction cache has nothing but what memory holds
(`Node.Current`) fetches what memory holds and stays so (`Node.Current.fetch`). A core that starts
at the program therefore fetches its instructions, in whatever order
(`Node.fetches_of_placeImage`).
-/

namespace Multicore

/-- The words of a program in a dialect: the instructions belong to the dialect and name registers
by codes of their own, and the encoder accepts each. -/
structure Dialect.Assembles (d : Dialect) (program : List Instruction) (words : List Word) :
    Prop where
  has : ∀ i ∈ program, d.Has i
  named : ∀ i ∈ program, ∀ r ∈ i.registers, r.IsNamed
  encoded : List.Forall₂ (fun i w => i.encode? = some w) program words

namespace Dialect.Assembles

variable {d : Dialect} {program : List Instruction} {words : List Word}

/-- A program is assembled to one word for an instruction. -/
theorem length_eq (h : d.Assembles program words) : words.length = program.length :=
  h.encoded.length_eq.symm

/-- Each word decodes to the instruction at its place. -/
theorem decode (h : d.Assembles program words) {k : Nat} (hk : k < program.length)
    (hw : k < words.length) : d.decode words[k] = .ok program[k] := by
  have hmem : program[k] ∈ program := List.getElem_mem hk
  have hword : program[k].encode? = some words[k] := h.encoded.get hk hw
  exact Instruction.decode_of_encode? (h.has _ hmem) (h.named _ hmem) hword

end Dialect.Assembles

/-! ## Images -/

/-- Each word has four bytes. -/
theorem length_bytesOfWords (words : List UInt32) :
    (bytesOfWords words).length = 4 * words.length := by
  induction words with
  | nil => rfl
  | cons w rest ih =>
    rw [bytesOfWords, List.flatMap_cons, List.length_append, ← bytesOfWords, ih, List.length_cons]
    show 4 + 4 * rest.length = _
    omega

namespace PagedMemory

variable {m : PagedMemory}

/-- A word that was written is read back, also after a write that starts behind it. -/
theorem wordAt_setBytes_bytesOfWord (m : PagedMemory) (a : Nat) (w : Word) (bytes : List UInt8) :
    ((m.setBytes a (bytesOfWord w)).setBytes (a + 4) bytes).wordAt a = w := by
  have hbyte (k : Nat) (hk : k < (bytesOfWord w).length) :
      ((m.setBytes a (bytesOfWord w)).setBytes (a + 4) bytes).byteAt (a + k) =
        (bytesOfWord w)[k] := by
    have hlen : (bytesOfWord w).length = 4 := rfl
    rw [byteAt_setBytes_of_outside _ (by omega), byteAt_setBytes_add _ _ _ hk]
  calc ((m.setBytes a (bytesOfWord w)).setBytes (a + 4) bytes).wordAt a
    _ = wordOfBytes (lowByte (lowHalf w)) (highByte (lowHalf w)) (lowByte (highHalf w))
        (highByte (highHalf w)) := by
      rw [wordAt, hbyte 1 (show 1 < 4 by decide), hbyte 2 (show 2 < 4 by decide),
        hbyte 3 (show 3 < 4 by decide)]
      exact congrArg (wordOfBytes · _ _ _) (hbyte 0 (show 0 < 4 by decide))
    _ = w := by rw [wordOfBytes, halfOfBytes_bytes, halfOfBytes_bytes, wordOfHalves_halves]

/-- In the image of a list of words, each word is at four times its number. -/
theorem wordAt_setBytes_bytesOfWords (m : PagedMemory) (a : Nat) {words : List Word} {k : Nat}
    (hk : k < words.length) :
    (m.setBytes a (bytesOfWords words)).wordAt (a + 4 * k) = words[k] := by
  induction words generalizing m a k with
  | nil => exact absurd hk (Nat.not_lt_zero k)
  | cons w rest ih =>
    have himage : m.setBytes a (bytesOfWords (w :: rest)) =
        (m.setBytes a (bytesOfWord w)).setBytes (a + 4) (bytesOfWords rest) :=
      m.setBytes_append a (bytesOfWord w) (bytesOfWords rest)
    rw [himage]
    cases k with
    | zero => exact m.wordAt_setBytes_bytesOfWord a w _
    | succ k =>
      rw [show a + 4 * (k + 1) = a + 4 + 4 * k by omega, ih _ _ (Nat.lt_of_succ_lt_succ hk)]
      rfl

/-- Memory has a program at an address: the word of each instruction is found four bytes after
the one before, and the dialect decodes it to the instruction. -/
def HasProgram (m : PagedMemory) (d : Dialect) (a : Address) (program : List Instruction) : Prop :=
  ∀ k (hk : k < program.length), ∃ w,
    PhysicalMemory.readWord (a + 4 * k.toUInt32) m = .ok w m ∧ d.decode w = .ok program[k]

/-- The words of a program that lies within memory are at aligned addresses that do not wrap. -/
theorem toNat_add_four_mul {a : Address} (ha : a % 4 = 0) {k : Nat}
    (h : a.toNat + 4 * k < 4294967296) :
    (a + 4 * k.toUInt32) % 4 = 0 ∧ (a + 4 * k.toUInt32).toNat = a.toNat + 4 * k := by
  have hk : k.toUInt32.toNat = k := UInt32.toNat_ofNat_of_lt' (by show k < 4294967296; omega)
  have hoffset : (4 * k.toUInt32).toNat = 4 * k := by
    rw [UInt32.toNat_mul, hk]
    exact Nat.mod_eq_of_lt (by show 4 * k < 4294967296; omega)
  have hnat : (a + 4 * k.toUInt32).toNat = a.toNat + 4 * k := by
    rw [UInt32.toNat_add, hoffset]
    exact Nat.mod_eq_of_lt h
  rw [Address.dvd_four_iff] at ha ⊢
  exact ⟨by omega, hnat⟩

/-- The image of a program is placed at every aligned address at which it fits, and memory has the
program there. -/
theorem hasProgram_of_placeImage {d : Dialect} {program : List Instruction} {words : List Word}
    (h : d.Assembles program words) {a : Address} (ha : a % 4 = 0)
    (hfits : a.toNat + (bytesOfWords words).length ≤ m.size) :
    ∃ m', PhysicalMemory.placeImage a (bytesOfWords words) m = .ok () m' ∧
      m'.HasProgram d a program := by
  obtain ⟨m', hplaced, hmarked⟩ := placeImage_of_fits hfits
  refine ⟨m', hplaced, fun k hk => ?_⟩
  have hw : k < words.length := h.length_eq ▸ hk
  rw [length_bytesOfWords] at hfits
  have hsize : m'.size = m.size := by rw [hmarked.size_eq, size_setBytes]
  have hword : m'.wordAt (a.toNat + 4 * k) = words[k] := by
    rw [← m.wordAt_setBytes_bytesOfWords a.toNat hw]
    simp only [wordAt, hmarked.bytes]
  have hlt := m.size_lt
  obtain ⟨haligned, hnat⟩ := toNat_add_four_mul ha (k := k) (by omega)
  have hinside : (a + 4 * k.toUInt32).toNat + (4 : UInt32).toNat ≤ m'.size := by
    rw [hnat, hsize]
    show a.toNat + 4 * k + 4 ≤ m.size
    omega
  refine ⟨words[k], ?_, h.decode hk hw⟩
  show readWith 4 wordAt _ m' = _
  rw [readWith, refusal_eq_none_iff.2 ⟨haligned, hinside⟩, hnat, hword]

end PagedMemory

/-! ## Fetches -/

namespace Node

variable {n : Node PagedMemory} {set : InstructionSet} {a : Address}

/-- The instruction cache has nothing but what the set decodes from memory. -/
def Current (set : InstructionSet) (n : Node PagedMemory) : Prop :=
  ∀ b i, n.core.fetched.entries.peek? b = some i → instructionAt set n.bus.memory b = .ok i

/-- An empty instruction cache is current. -/
theorem current_of_size_eq_zero (h : n.core.fetched.size = 0) : n.Current set := by
  intro b i hi
  rw [InstructionCache.peek?_of_size_eq_zero h] at hi
  cases hi

/-- With a current cache a fetch answers the instruction that memory holds, and the cache stays
current. -/
theorem Current.fetch (h : n.Current set) {i : Instruction}
    (hi : instructionAt set n.bus.memory a = .ok i) :
    ∃ fetched, fetch set a n = .ok i (n.mapCore fun c => { c with fetched }) ∧
      (n.mapCore fun c => { c with fetched }).Current set := by
  obtain ⟨fetched, hentries, hrun⟩ := fetch_spec set a n
  refine ⟨fetched, ?_, ?_⟩
  · cases hcached : n.core.fetched.entries.peek? a with
    | none => rwa [hcached, Option.elim_none, hi] at hrun
    | some j =>
      obtain rfl : j = i := Except.ok.inj ((h a j hcached).symm.trans hi)
      rwa [hcached] at hrun
  · intro b j hj
    rcases hentries b j hj with hold | ⟨rfl, -, hnew⟩
    · exact h b j hold
    · exact hnew

/-- The core fetches the program: from its instruction pointer on, four bytes for each
instruction, as often and in whatever order it asks for them. -/
def Fetches (set : InstructionSet) (program : List Instruction) (n : Node PagedMemory) : Prop :=
  ∀ ks : List (Fin program.length), ∃ fetched,
    ks.mapM (fun k => Node.fetch set
      (n.core.codeAddress (n.core.regs.ip + 4 * k.val.toUInt32))) n =
      .ok (ks.map program.get) (n.mapCore fun c => { c with fetched })

/-- A core with a current cache fetches the program that memory holds. -/
theorem Current.fetches (h : n.Current set) {program : List Instruction}
    (hprogram : ∀ k : Fin program.length, instructionAt set n.bus.memory
      (n.core.codeAddress (n.core.regs.ip + 4 * k.val.toUInt32)) = .ok (program.get k)) :
    n.Fetches set program := by
  -- The addresses are those of the core at the start, the cache that of the core reached.
  suffices hrun : ∀ (ks : List (Fin program.length)) (cache : InstructionCache),
      (n.mapCore fun c => { c with fetched := cache }).Current set → ∃ fetched,
        ks.mapM (fun k => Node.fetch set
          (n.core.codeAddress (n.core.regs.ip + 4 * k.val.toUInt32)))
          (n.mapCore fun c => { c with fetched := cache }) =
          .ok (ks.map program.get) (n.mapCore fun c => { c with fetched }) from
    fun ks => hrun ks n.core.fetched h
  intro ks
  induction ks with
  | nil => exact fun cache _ => ⟨cache, rfl⟩
  | cons k ks ih =>
    intro cache hcache
    obtain ⟨fetched, hfetch, hcurrent⟩ := hcache.fetch (hprogram k)
    obtain ⟨final, hrest⟩ := ih fetched hcurrent
    refine ⟨final, ?_⟩
    rw [List.mapM_cons, bind_of_ok hfetch]
    exact (bind_of_ok hrest).trans rfl

/-- A core with nothing cached and its instruction pointer at a program that memory has fetches
the program. -/
theorem fetches_of_hasProgram {program : List Instruction}
    (h : n.bus.memory.HasProgram set.reads a program) (hempty : n.core.fetched.size = 0)
    (hip : n.core.codeAddress n.core.regs.ip = a) : n.Fetches set program := by
  refine (current_of_size_eq_zero hempty).fetches fun k => ?_
  have haddress : n.core.codeAddress (n.core.regs.ip + 4 * k.val.toUInt32) =
      a + 4 * k.val.toUInt32 := by
    rw [← hip, Core.codeAddress, Core.codeAddress, segmentAddress, segmentAddress,
      UInt32.add_assoc]
  obtain ⟨w, hread, hdecode⟩ := h k k.isLt
  rw [haddress, instructionAt, hread]
  exact hdecode

/-- A core that starts has nothing cached and its instruction pointer where it was asked to start.
Memory stays as it is. -/
theorem exists_boot (hreset : n.core.state = .reset) (init : BootState) :
    ∃ booted, boot init n = .ok () booted ∧ booted.core.fetched.size = 0 ∧
      booted.core.codeAddress booted.core.regs.ip = segmentAddress init.cs.toUInt32 init.ip ∧
      booted.bus.memory = n.bus.memory := by
  have hrun : ∃ booted, boot init n = .ok () booted := ⟨_, if_pos hreset⟩
  obtain ⟨booted, hrun⟩ := hrun
  have hcore := core_boot hreset init
  have hmemory := memory_boot init n
  rw [finalState_of_ok hrun] at hcore hmemory
  refine ⟨booted, hrun, ?_, ?_, hmemory⟩
  · rw [hcore]
    rfl
  · rw [hcore]
    rfl

/-- A program of a dialect is placed at every aligned address at which it fits. Memory then has
the word of each instruction four bytes after the one before, and the word decodes to the
instruction. So a core with nothing cached and its instruction pointer at the program fetches it,
with every set that reads the dialect, and a core that starts there is such a core. -/
theorem fetches_of_placeImage {d : Dialect} {program : List Instruction} {words : List Word}
    (h : d.Assembles program words) {a : Address} (ha : a % 4 = 0) {m : PagedMemory}
    (hfits : a.toNat + (bytesOfWords words).length ≤ m.size) :
    ∃ m', PhysicalMemory.placeImage a (bytesOfWords words) m = .ok () m' ∧
      m'.HasProgram d a program ∧
      ∀ (set : InstructionSet) (n : Node PagedMemory), set.reads = d → n.bus.memory = m' →
        (n.core.fetched.size = 0 → n.core.codeAddress n.core.regs.ip = a →
          n.Fetches set program) ∧
        ∀ init : BootState, n.core.state = .reset →
          segmentAddress init.cs.toUInt32 init.ip = a →
          ∃ booted, boot init n = .ok () booted ∧ booted.Fetches set program := by
  obtain ⟨m', hplaced, hprogram⟩ := PagedMemory.hasProgram_of_placeImage h ha hfits
  refine ⟨m', hplaced, hprogram, ?_⟩
  rintro set n rfl rfl
  refine ⟨fetches_of_hasProgram hprogram, fun init hreset hstart => ?_⟩
  obtain ⟨booted, hrun, hempty, hip, hmemory⟩ := exists_boot hreset init
  exact ⟨booted, hrun, fetches_of_hasProgram (hmemory ▸ hprogram) hempty (hip.trans hstart)⟩

/-- A program of the coprocessor at the end of a memory of one page, and a core that starts
there. -/
theorem fetches_of_placeImage_math :
    let program : List Instruction := [.math (.pushw (.general 5)), .math .add, .sis (.imm 0)]
    ∃ m', PhysicalMemory.placeImage 0xf4 (bytesOfWords [0x141, 5, 0x1000a])
        (PagedMemory.ofSize 256) = .ok () m' ∧
      m'.HasProgram .math 0xf4 program ∧
      ∃ booted, boot ⟨0, 0, 256, 0xf4, true⟩
          { bus := { memory := m', capacity := 4 }, core := .new 0 4 } = .ok () booted ∧
        booted.Fetches .math program := by
  intro program
  have hassembles : Dialect.math.Assembles program [0x141, 5, 0x1000a] := by
    refine ⟨?_, ?_, .cons (by decide +kernel) (.cons (by decide +kernel)
      (.cons (by decide +kernel) .nil))⟩
    · rintro i hi
      simp only [program, List.mem_cons, List.not_mem_nil, or_false] at hi
      rcases hi with rfl | rfl | rfl <;> trivial
    · decide
  obtain ⟨m', hplaced, hprogram, hstart⟩ := fetches_of_placeImage hassembles (a := 0xf4) rfl
    (m := .ofSize 256) (by decide +kernel)
  obtain ⟨-, hboot⟩ := hstart .math { bus := { memory := m', capacity := 4 }, core := .new 0 4 }
    rfl rfl
  exact ⟨m', hplaced, hprogram, hboot ⟨0, 0, 256, 0xf4, true⟩ rfl rfl⟩

end Node

end Multicore
