import Multicore.Core.Execute
import Multicore.Proofs.Coherence.Twin

/-!
# What a core touches

The bytes that a core fetches past its data cache, those that it writes through its data cache,
and whether it allocates or frees a page: for every instruction (`Node.stepTouches`) and for the
entry of a hardware interrupt (`Node.interruptTouches`). An access that is refused touches
nothing, and neither does what would have come after it.
-/

namespace Multicore

/-- What a core may do that the caches could make visible. -/
inductive Touch where
  /-- The byte at an address is read past the data caches, as a part of an instruction or of an
  interrupt vector. -/
  | fetched (a : Address)
  /-- The byte at an address is written through a data cache. -/
  | stored (a : Address)
  /-- A page is allocated or freed. -/
  | repaged
  deriving DecidableEq

/-- What is fetched is text, what is stored is not, and no page is allocated or freed. -/
structure Text.Permits (text : Text) (touches : List Touch) : Prop where
  fetched : ∀ a, a % 2 = 0 → .fetched a ∈ touches → .fetched (a + 1) ∈ touches → text.code a
  stored : ∀ a, .stored a ∈ touches → ¬ text.code a.halfword
  repaged : .repaged ∉ touches

/-- A text that permits some touches permits any of them. -/
theorem Text.Permits.mono {text : Text} {touches touches' : List Touch}
    (h : text.Permits touches) (ht : ∀ t ∈ touches', t ∈ touches) : text.Permits touches' where
  fetched a he ha ha' := h.fetched a he (ht _ ha) (ht _ ha')
  stored a ha := h.stored a (ht _ ha)
  repaged hr := h.repaged (ht _ hr)

namespace Node

/-- The fetches of some bytes, one access after the other. -/
def fetches (bus : Bus PagedMemory) (accesses : List (Address × Width)) : List Touch :=
  (bus.reach accesses).map .fetched

/-- The stores of some bytes, one access after the other. -/
def stores (bus : Bus PagedMemory) (accesses : List (Address × Width)) : List Touch :=
  (bus.reach accesses).map .stored

/-- A text that permits fetches covers their bytes. -/
theorem covers_of_permits {text : Text} {bus : Bus PagedMemory}
    {accesses : List (Address × Width)} {rest : List Touch}
    (h : text.Permits (fetches bus accesses ++ rest)) : text.Covers (bus.reach accesses) :=
  fun a he ha ha' => h.fetched a he (List.mem_append_left _ (List.mem_map_of_mem ha))
    (List.mem_append_left _ (List.mem_map_of_mem ha'))

/-- What the first store touches is touched, whatever comes after it. -/
theorem stores_head {bus : Bus PagedMemory} {access : Address × Width}
    {rest : List (Address × Width)} :
    ∀ t ∈ stores bus [access], t ∈ stores bus (access :: rest) := by
  intro t ht
  obtain ⟨a, ha, rfl⟩ := List.mem_map.1 ht
  refine List.mem_map_of_mem ?_
  rw [Bus.reach] at ha ⊢
  split at ha
  · exact List.mem_append_left _ (by simpa [Bus.reach] using ha)
  · cases ha

/-- The places of the next words that are pushed. -/
def pushPlaces (ds : UInt32) : UInt32 → Nat → List (Address × Width)
  | _, 0 => []
  | sp, count + 1 => (segmentAddress ds (sp - 4), .word) :: pushPlaces ds (sp - 4) count

/-- What pushing some words touches. -/
def pushTouches (n : Node PagedMemory) (count : Nat) : List Touch :=
  stores n.bus (pushPlaces n.core.regs.ds n.core.regs.sp count)

/-- A page is allocated, if one is free. -/
def allocationTouches (n : Node PagedMemory) (segment : Option UInt32) : List Touch :=
  if (n.bus.memory.nextFree? segment).isSome then [.repaged] else []

/-- What entering a handler touches: its vector, and its page or the 36 words of the context. -/
def enterTouches (table : Address) (index : UInt32) (n : Node PagedMemory) : List Touch :=
  fetches n.bus (Bus.vectorParts table index) ++
    match PhysicalMemory.loadVector table index n.bus.memory with
    | .error _ _ => []
    | .ok v _ =>
      if v.sp = 0 then n.allocationTouches (some v.ds.toUInt32)
      else (n.mapRegs fun regs => { regs with ds := v.ds.toUInt32, sp := v.sp }).pushTouches 36

/-- What a service touches. -/
def serviceTouches (n : Node PagedMemory) : Service → List Touch
  | .memory =>
    match MemoryRequest.ofNumber? (n.core.regs.read (.general 0)) with
    | some .alloc => n.allocationTouches none
    | some .free =>
      if (n.core.regs.read (.general 1)).toNat ∈ n.bus.memory.allocated then [.repaged] else []
    | _ => []
  | _ => []

/-- What an instruction of the base dialect touches. Leaving a handler frees its page. -/
def baseTouches (p : Platform) (n : Node PagedMemory) : Instruction → List Touch
  | .store width _ base offset =>
    let a := n.core.dataAddress (n.core.regs.read base + offset.toInt32.toUInt32)
    stores n.bus [(a, width)]
  | .push _ => n.pushTouches 1
  | .call _ => n.pushTouches 2
  | .int index =>
    let index := n.core.regs.operand index
    match p.services[index]? with
    | some s => n.serviceTouches s
    | none => enterTouches p.vectorTable index n
  | .retint =>
    match n.core.interruptStacks with
    | some _ :: _ => [.repaged]
    | _ => []
  | _ => []

/-- What an instruction touches. The coprocessor touches nothing. -/
def executeTouches (p : Platform) (n : Node PagedMemory) (i : Instruction) : Dialect → List Touch
  | .base => baseTouches p n i
  | .math => []

/-- What a step touches: the bytes of the instruction, and what the instruction touches. -/
def stepTouches (p : Platform) (n : Node PagedMemory) : List Touch :=
  if n.core.isRunnable then
    match p.sets[n.core.activeSet]? with
    | none => []
    | some set =>
      let ip := n.core.regs.ip
      let a := n.core.codeAddress ip
      fetches n.bus [(a, .word)] ++
        match fetch set a n with
        | .error _ _ => []
        | .ok i n =>
          let n := n.mapRegs fun regs => { regs with ip := ip + 4 }
          if set.isPrivileged i ∧ ¬ n.core.regs.flags.privileged then []
          else executeTouches p n i set.runs
  else []

/-- What delivering a hardware interrupt touches. -/
def interruptTouches (p : Platform) (index : UInt32) (n : Node PagedMemory) : List Touch :=
  if n.core.isAlive ∧ n.core.regs.flags.interruptsEnabled then
    enterTouches p.vectorTable index n
  else []

/-! ## What matters for the touches -/

variable {n n' : Node PagedMemory}

/-- What entering a handler touches depends on the bus and on the registers. -/
theorem enterTouches_congr (hbus : n'.bus = n.bus) (hregs : n'.core.regs = n.core.regs)
    (table : Address) (index : UInt32) :
    enterTouches table index n' = enterTouches table index n := by
  simp only [enterTouches, allocationTouches, pushTouches, mapRegs, mapCore, hbus, hregs]

/-- What an instruction touches depends on the bus and on the core. -/
theorem executeTouches_congr (hbus : n'.bus = n.bus) (hcore : n'.core = n.core) (p : Platform)
    (i : Instruction) (d : Dialect) : executeTouches p n' i d = executeTouches p n i d := by
  have henter := enterTouches_congr hbus (congrArg Core.regs hcore) p.vectorTable
  cases d with
  | base =>
    cases i <;> simp only [executeTouches, baseTouches, serviceTouches, allocationTouches,
      pushTouches, henter, hbus, hcore]
  | math => rfl

end Node

end Multicore
