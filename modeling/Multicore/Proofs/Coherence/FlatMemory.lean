import Multicore.Proofs.Coherence.Registry
import Multicore.Proofs.Coherence.Width

/-!
# Coherent caches are one flat memory

A memory behind any number of data caches of any capacities behaves like an array of bytes.
`FlatMemory` is the array, and a `Request` is what may be asked of a cache: a load, a store, a
flush, a release or discard of lines that writes them back, and the flush with which a cache
retires for good. `answers_eq_flat` says that a run of requests has the answers of the flat
memory, and that the memory behind the caches holds the bytes of the flat memory as soon as no
cache has stored since it was last flushed.
-/

namespace Multicore

/-! ## Flat memories -/

/-- An array of bytes. -/
structure FlatMemory where
  size : Nat
  byte : Nat → UInt8

namespace FlatMemory

/-- The bytes of a memory. -/
def ofMemory (m : PagedMemory) : FlatMemory := ⟨m.size, m.byteAt⟩

/-- Whether an access is aligned and within memory. -/
def accepts (flat : FlatMemory) (width : Width) (a : Address) : Bool :=
  a % width.bytes = 0 ∧ a.toNat + width.bytes.toNat ≤ flat.size

/-- The little-endian halfword from a byte on. -/
def half (flat : FlatMemory) (a : Nat) : UInt16 := halfOfBytes (flat.byte a) (flat.byte (a + 1))

/-- The little-endian value from a byte on, filled up with zeros. -/
def read (flat : FlatMemory) (a : Nat) : Width → UInt32
  | .byte => (flat.byte a).toUInt32
  | .half => (flat.half a).toUInt32
  | .word => wordOfBytes (flat.byte a) (flat.byte (a + 1)) (flat.byte (a + 2)) (flat.byte (a + 3))

/-- The array with the low bytes of a value from a byte on. -/
def write (flat : FlatMemory) (a : Nat) (v : UInt32) (width : Width) : FlatMemory where
  size := flat.size
  byte c :=
    if a ≤ c ∧ c < a + width.bytes.toNat then (bytesOfWord v).getD (c - a) 0 else flat.byte c

/-- Bytes outside the range of a write stay. -/
theorem byte_write_of_outside (flat : FlatMemory) {a c : Nat} {width : Width} (v : UInt32)
    (h : c < a ∨ a + width.bytes.toNat ≤ c) : (flat.write a v width).byte c = flat.byte c :=
  if_neg (by omega)

/-- Bytes within the range of a write are the written ones. -/
theorem byte_write_add (flat : FlatMemory) (a : Nat) {k : Nat} {width : Width} (v : UInt32)
    (h : k < width.bytes.toNat) :
    (flat.write a v width).byte (a + k) = (bytesOfWord v).getD k 0 := by
  have hk : a + k - a = k := by omega
  have hrange : a ≤ a + k ∧ a + k < a + width.bytes.toNat := by omega
  show (if _ then (bytesOfWord v).getD (a + k - a) 0 else _) = _
  rw [if_pos hrange, hk]

/-- A halfword outside the range of a write stays. -/
theorem half_write_of_outside (flat : FlatMemory) {a b : Nat} {width : Width} (v : UInt32)
    (h : b + 2 ≤ a ∨ a + width.bytes.toNat ≤ b) :
    (flat.write a v width).half b = flat.half b := by
  rw [half, half, flat.byte_write_of_outside v (by omega), flat.byte_write_of_outside v (by omega)]

/-- A halfword within the range of a write is made of the written bytes. -/
theorem half_write_add (flat : FlatMemory) (a : Nat) {k : Nat} {width : Width} (v : UInt32)
    (h : k + 1 < width.bytes.toNat) :
    (flat.write a v width).half (a + k) =
      halfOfBytes ((bytesOfWord v).getD k 0) ((bytesOfWord v).getD (k + 1) 0) := by
  rw [half, Nat.add_assoc, flat.byte_write_add a v (Nat.lt_of_succ_lt h), flat.byte_write_add a v h]

/-- A byte is written into one half of its halfword. -/
theorem half_write_byte (flat : FlatMemory) (a : Nat) (v : UInt32) :
    (flat.write a v .byte).half (a - a % 2) =
      if a % 2 = 0 then halfOfBytes v.toUInt8 (highByte (flat.half (a - a % 2)))
      else halfOfBytes (lowByte (flat.half (a - a % 2))) v.toUInt8 := by
  have hsize : Width.byte.bytes.toNat = 1 := rfl
  have hbyte : (flat.write a v .byte).byte a = v.toUInt8 :=
    (flat.byte_write_add a v (k := 0) (by decide)).trans (by simp [bytesOfWord, bytesOfHalf,
      lowByte, lowHalf])
  split
  · next he =>
    rw [he, Nat.sub_zero, half, half, hbyte, highByte_halfOfBytes,
      flat.byte_write_of_outside v (by omega)]
  · next ho =>
    have hodd : a - a % 2 + 1 = a := by omega
    rw [half, half, hodd, hbyte, lowByte_halfOfBytes, flat.byte_write_of_outside v (by omega)]

end FlatMemory

/-! ## Requests -/

/-- What may be asked of the caches. -/
inductive Request where
  | load (i : Nat) (width : Width) (a : Address)
  | store (i : Nat) (width : Width) (a : Address) (v : UInt32)
  /-- Write every dirty line of a cache back. -/
  | flush (i : Nat)
  /-- Write the lines of a cache back that a selector covers, and drop them if told. -/
  | release (i : Nat) (selector : Selector) (remove : Bool)
  /-- Write the lines of all caches back that a selector covers, and drop them. -/
  | discard (selector : Selector)
  /-- Write every dirty line of a cache back and let it take no more part. -/
  | retire (i : Nat)
  deriving DecidableEq

/-- What comes back. -/
inductive Answer where
  | value (v : UInt32)
  | done
  | refused
  deriving DecidableEq

namespace Request

/-- Whether a request may be made while the caches of a list take part. -/
def Allowed (live : List Nat) : Request → Prop
  | .load i .. | .store i .. | .flush i | .release i .. | .retire i => i ∈ live
  | .discard _ => True

/-- The caches that take part after a request. -/
def remaining (live : List Nat) : Request → List Nat
  | .retire i => live.filter (· ≠ i)
  | _ => live

/-- The requests are made of caches that take part. -/
def AllAllowed : List Nat → List Request → Prop
  | _, [] => True
  | live, r :: rest => r.Allowed live ∧ AllAllowed (r.remaining live) rest

/-- Whether a cache has stored since it was last flushed, after one more request. -/
def pendingAfter (pending : Nat → Bool) (r : Request) (i : Nat) : Bool :=
  match r with
  | .store j .. => pending i || i = j
  | .flush j | .retire j => pending i && i ≠ j
  | _ => pending i

/-- Whether a cache has stored since it was last flushed. -/
def pending (requests : List Request) : Nat → Bool := requests.foldl pendingAfter fun _ => false

/-- The answers to a list of requests, and the state after them. -/
def answerAll {σ : Type} (perform : σ → Request → Answer × σ) (s : σ) :
    List Request → List Answer × σ
  | [] => ([], s)
  | r :: rest =>
    let (answer, s) := perform s r
    let (answers, s) := answerAll perform s rest
    (answer :: answers, s)

end Request

/-- A flat memory answers loads and stores, and has nothing to do for the others. -/
def FlatMemory.perform (flat : FlatMemory) (r : Request) : Answer × FlatMemory :=
  match r with
  | .load _ width a =>
    if flat.accepts width a then (.value (flat.read a.toNat width), flat) else (.refused, flat)
  | .store _ width a v =>
    if flat.accepts width a then (.done, flat.write a.toNat v width) else (.refused, flat)
  | _ => (.done, flat)

namespace Bus

/-- The answer to a request, from the outcome of a computation. -/
def answer {α : Type} (f : α → Answer) :
    EStateM.Result Fault (Bus PagedMemory) α → Answer × Bus PagedMemory
  | .ok v bus => (f v, bus)
  | .error _ bus => (.refused, bus)

/-- What the caches do at a request. -/
def perform (bus : Bus PagedMemory) (r : Request) : Answer × Bus PagedMemory :=
  match r with
  | .load i width a => answer .value (load width i a bus)
  | .store i width a v => answer (fun _ => .done) (storeAt width i a v bus)
  | .flush i => answer (fun _ => .done) (flush i bus)
  | .release i selector remove => answer (fun _ => .done) (release i selector true remove bus)
  | .discard selector => (.done, bus.discard selector true)
  | .retire i =>
    let (answer, bus) := answer (fun _ => .done) (flush i bus)
    (answer, bus.unregister i)

/-- A memory behind empty caches that all take part, given by their numbers and capacities. -/
def assemble (memory : PagedMemory) (caches : List (Nat × Nat)) : Bus PagedMemory :=
  caches.foldl (fun bus cache => (bus.setStore cache.1 (.empty cache.2)).register cache.1 cache.1)
    { memory, capacity := 1 }

end Bus

/-! ## One step -/

namespace Request

/-- A flat memory that the caches and memory refine: they are coherent, agree on every halfword
with the flat memory, and only a cache that stored since it was last flushed has dirty lines. -/
structure Refines (live : List Nat) (pending : Nat → Bool) (bus : Bus PagedMemory)
    (flat : FlatMemory) : Prop where
  coherent : bus.Coherent
  registered : ∀ {i}, i ∈ live → bus.isRegistered i = true
  size : flat.size = bus.memory.size
  half : ∀ {a}, bus.memory.HasHalf a → bus.halfAt a = flat.half a.toNat
  settled : ∀ {i}, pending i = false →
    ∀ ⦃a l⦄, (bus.copies a).cached i = some l → l.dirty = false

variable {live : List Nat} {pending : Nat → Bool} {bus bus' : Bus PagedMemory}
  {flat flat' : FlatMemory}

/-- The flat memory accepts the accesses that the caches do not refuse. -/
theorem Refines.accepts_iff (h : Refines live pending bus flat) {width : Width} {a : Address} :
    flat.accepts width a = true ↔ bus.refusal a width = none := by
  have hmod := bus.memory.size_mod
  have hhalf := Address.toNat_halfword a
  rw [Bus.refusal_eq_none_iff, FlatMemory.accepts, decide_eq_true_eq, h.size]
  refine and_congr_right fun ha => ?_
  have hdvd : a.toNat % width.bytes.toNat = 0 := by rw [← UInt32.toNat_mod, ha]; rfl
  have hinside : bus.memory.HasHalf a.halfword ↔ a.halfword.toNat + 2 ≤ bus.memory.size :=
    ⟨fun hin => hin.inside, fun hin => ⟨Address.halfword_even a, hin⟩⟩
  rw [hinside, hhalf]
  cases width with
  | byte =>
    show a.toNat + 1 ≤ _ ↔ _
    omega
  | half =>
    have : a.toNat % 2 = 0 := hdvd
    show a.toNat + 2 ≤ _ ↔ _
    omega
  | word =>
    have : a.toNat % 4 = 0 := hdvd
    show a.toNat + 4 ≤ _ ↔ _
    omega

/-- An access that is not refused has the values of the flat memory. -/
theorem Refines.read (h : Refines live pending bus flat) {width : Width} {a : Address}
    (hr : bus.refusal a width = none) : bus.valueAt a width = flat.read a.toNat width := by
  obtain ⟨ha, hin⟩ := Bus.refusal_eq_none_iff.1 hr
  cases width with
  | byte =>
    have hhalf := Address.toNat_halfword a
    have heven : a % 2 = 0 ↔ a.toNat % 2 = 0 := Address.even_iff
    show (bus.byteAt a).toUInt32 = (flat.byte a.toNat).toUInt32
    rw [Bus.byteAt, h.half hin, FlatMemory.half, lowByte_halfOfBytes, highByte_halfOfBytes]
    split
    · next he => rw [hhalf, heven.1 he, Nat.sub_zero]
    · next ho =>
      have hodd : a.halfword.toNat + 1 = a.toNat := by
        rw [heven] at ho
        omega
      rw [hodd]
  | half =>
    rw [Address.halfword_of_even ha] at hin
    show (bus.halfAt a).toUInt32 = _
    rw [h.half hin]
    rfl
  | word =>
    have he : a % 2 = 0 := Bus.even_of_aligned ha (by decide)
    rw [Address.halfword_of_even he] at hin
    show wordOfHalves (bus.halfAt a) (bus.halfAt (a + 2)) = _
    rw [h.half hin, h.half (hin.add_two ha), Address.toNat_add_two ha]
    rfl

/-- A store that is not refused writes the halfwords of its patch. -/
theorem Refines.half_write (h : Refines live pending bus flat) {width : Width} {a : Address}
    (hr : bus.refusal a width = none) (v : UInt32) {b : Address} (hb : bus.memory.HasHalf b) :
    (flat.write a.toNat v width).half b.toNat =
      (bus.patch a v width b).getD (flat.half b.toNat) := by
  obtain ⟨ha, hin⟩ := Bus.refusal_eq_none_iff.1 hr
  have hbeven := Address.even_iff.1 hb.even
  have hne_nat : ∀ {c : Address}, b ≠ c → b.toNat ≠ c.toNat := fun hne e =>
    hne (UInt32.toNat_inj.1 e)
  -- which halfwords change: one in part, one as a whole, or two
  cases width with
  | byte =>
    have hsize : Width.byte.bytes.toNat = 1 := rfl
    have hhalf := Address.toNat_halfword a
    rcases Decidable.em (b = a.halfword) with rfl | hne
    · have hwrite := flat.half_write_byte a.toNat v
      rw [← hhalf] at hwrite
      rw [Bus.patch, h.half hin, hwrite, Bus.Patch.single, if_pos rfl, Option.getD_some]
      simp only [Address.even_iff]
    · have hpatch : bus.patch a v .byte b = none := if_neg hne
      have hne' := hne_nat hne
      rw [hpatch, flat.half_write_of_outside v (by omega)]
      rfl
  | half =>
    have hsize : Width.half.bytes.toNat = 2 := rfl
    have haeven : a.toNat % 2 = 0 := Address.even_iff.1 ha
    rcases Decidable.em (b = a) with rfl | hne
    · have hpatch : bus.patch b v .half b = some (lowHalf v) := if_pos rfl
      rw [hpatch]
      exact (flat.half_write_add b.toNat v (k := 0) (by decide)).trans
        (halfOfBytes_bytes (lowHalf v))
    · have hpatch : bus.patch a v .half b = none := if_neg hne
      have hne' := hne_nat hne
      rw [hpatch, flat.half_write_of_outside v (by omega)]
      rfl
  | word =>
    have hsize : Width.word.bytes.toNat = 4 := rfl
    have hafour : a.toNat % 4 = 0 := Address.dvd_four_iff.1 ha
    have hupper := Address.toNat_add_two ha
    rw [Bus.patch_word]
    rcases Decidable.em (b = a + 2) with rfl | hne₂
    · rw [if_pos rfl, hupper, flat.half_write_add a.toNat v (by decide)]
      exact halfOfBytes_bytes (highHalf v)
    · rw [if_neg hne₂]
      rcases Decidable.em (b = a) with rfl | hne
      · rw [if_pos rfl]
        exact (flat.half_write_add b.toNat v (k := 0) (by decide)).trans
          (halfOfBytes_bytes (lowHalf v))
      · have hne' := hne_nat hne
        have hne₂' := hne_nat hne₂
        rw [if_neg hne, flat.half_write_of_outside v (by omega)]
        rfl

/-- Writing a patch on both sides keeps the refinement. -/
theorem Refines.written (h : Refines live pending bus flat) {i : Nat} {patch : Bus.Patch}
    (hw : bus.Written i patch bus') (flat' : FlatMemory) (hsize : flat'.size = flat.size)
    (hhalf : ∀ {b}, bus.memory.HasHalf b →
      flat'.half b.toNat = (patch b).getD (flat.half b.toNat))
    {pending' : Nat → Bool}
    (hpending : ∀ {j}, pending' j = false → pending j = false ∧ (j = i → patch = .none)) :
    Refines live pending' bus' flat' where
  coherent := hw.coherent
  registered hj := by
    rw [hw.isRegistered]
    exact h.registered hj
  size := by rw [hsize, h.size, PagedMemory.size, PagedMemory.size, hw.steady.pageCount]
  half {a} ha := by
    have ha' := hw.hasHalf_iff.1 ha
    rw [hw.halfAt ha.even, h.half ha', hhalf ha']
  settled {j} hj a l hl := by
    obtain ⟨hold, hnew⟩ := hpending hj
    rcases hd : l.dirty with _ | _
    · rfl
    · rcases (hw.each (hw.fitted.hasHalf hl).even).dirty hl hd with ⟨l₀, hl₀, hd₀⟩ | ⟨hp, hji⟩
      · rw [h.settled hold hl₀] at hd₀
        cases hd₀
      · rw [hnew hji] at hp
        exact absurd rfl hp

/-- Reading and writing back keeps the refinement. -/
theorem Refines.kept (h : Refines live pending bus flat) {i : Nat}
    (hw : bus.Written i .none bus') : Refines live pending bus' flat :=
  h.written hw flat rfl (fun _ => rfl) fun hj => ⟨hj, fun _ => rfl⟩

/-- A flush settles its cache. -/
theorem Refines.flush (h : Refines live pending bus flat) {i : Nat} (hi : i ∈ live) :
    ∃ k bus', Bus.flush i bus = .ok k bus' ∧
      Refines live (fun j => pending j && j ≠ i) bus' flat := by
  obtain ⟨bus', hrun, hw, hclean⟩ := Bus.flush_spec h.coherent (h.registered hi)
  refine ⟨_, bus', hrun, ⟨hw.coherent, (h.kept hw).registered, (h.kept hw).size,
    (h.kept hw).half, fun {j} hj a l hl => ?_⟩⟩
  by_cases hji : j = i
  · exact hclean (hji ▸ hl)
  · refine (h.kept hw).settled (i := j) ?_ hl
    simpa [hji] using hj

/-- A cache without dirty lines may retire. -/
theorem Refines.unregister (h : Refines live pending bus flat) {i : Nat}
    (hi : pending i = false) :
    Refines (live.filter (· ≠ i)) pending (bus.unregister i) flat where
  coherent := h.coherent.unregister i
  registered {j} hj := by
    obtain ⟨hj, hne⟩ := List.mem_filter.1 hj
    exact (Bus.isRegistered_unregister_iff ..).2 ⟨of_decide_eq_true hne, h.registered hj⟩
  size := h.size
  half ha := by
    rw [Bus.halfAt_unregister h.coherent (h.settled hi)]
    exact h.half ha
  settled {j} hj a l hl := by
    rw [Bus.copies_unregister] at hl
    simp only [Copies.drop] at hl
    split at hl
    · cases hl
    · exact h.settled hj hl

/-- What the caches refuse, the flat memory does not accept. -/
theorem Refines.not_accepts (h : Refines live pending bus flat) {width : Width} {a : Address}
    {fault : Fault} (hr : bus.refusal a width = some fault) : ¬ flat.accepts width a = true := by
  intro ha
  rw [h.accepts_iff.1 ha] at hr
  cases hr

/-- A load is answered as by the flat memory. If it is refused, it moves the clock of a cache at
most. -/
theorem Refines.load (h : Refines live pending bus flat) {i : Nat} (hi : i ∈ live) (width : Width)
    (a : Address) :
    (bus.perform (.load i width a)).1 = (flat.perform (.load i width a)).1 ∧
      Refines live pending (bus.perform (.load i width a)).2
        (flat.perform (.load i width a)).2 := by
  have hspec := Bus.load_spec h.coherent (h.registered hi) width a
  rcases hrefusal : bus.refusal a width with _ | fault
  · obtain ⟨bus', hrun, hw⟩ := hspec.accepted hrefusal
    simp only [Bus.perform, hrun, Bus.answer, FlatMemory.perform,
      if_pos (h.accepts_iff.2 hrefusal)]
    exact ⟨congrArg Answer.value (h.read hrefusal), h.kept hw⟩
  · obtain ⟨bus', hrun, hs⟩ := hspec.refused hrefusal
    simp only [Bus.perform, hrun, Bus.answer, FlatMemory.perform, if_neg (h.not_accepts hrefusal)]
    exact ⟨trivial, h.kept (hs.written h.coherent (h.registered hi))⟩

/-- A store is answered as by the flat memory, and its cache may have a dirty line from then on. -/
theorem Refines.store (h : Refines live pending bus flat) {i : Nat} (hi : i ∈ live) (width : Width)
    (a : Address) (v : UInt32) :
    (bus.perform (.store i width a v)).1 = (flat.perform (.store i width a v)).1 ∧
      Refines live (pendingAfter pending (.store i width a v)) (bus.perform (.store i width a v)).2
        (flat.perform (.store i width a v)).2 := by
  have hspec := Bus.storeAt_spec h.coherent (h.registered hi) width a v
  have hpending : ∀ {j}, pendingAfter pending (.store i width a v) j = false →
      pending j = false ∧ j ≠ i := by
    intro j hj
    simpa [pendingAfter] using hj
  rcases hrefusal : bus.refusal a width with _ | fault
  · obtain ⟨bus', hrun, hw⟩ := hspec.accepted hrefusal
    simp only [Bus.perform, hrun, Bus.answer, FlatMemory.perform,
      if_pos (h.accepts_iff.2 hrefusal)]
    refine ⟨trivial, h.written hw (flat.write a.toNat v width) rfl
      (fun hb => h.half_write hrefusal v hb) fun hj => ?_⟩
    exact ⟨(hpending hj).1, fun e => absurd e (hpending hj).2⟩
  · obtain ⟨bus', hrun, hs⟩ := hspec.refused hrefusal
    simp only [Bus.perform, hrun, Bus.answer, FlatMemory.perform, if_neg (h.not_accepts hrefusal)]
    have hw := hs.written h.coherent (h.registered hi)
    refine ⟨trivial, h.written hw flat rfl (fun _ => rfl) fun hj => ?_⟩
    exact ⟨(hpending hj).1, fun _ => rfl⟩

/-- The answer to a request is that of the flat memory, and the refinement stays. -/
theorem Refines.perform (h : Refines live pending bus flat) {r : Request} (hr : r.Allowed live) :
    (bus.perform r).1 = (flat.perform r).1 ∧
      Refines (r.remaining live) (pendingAfter pending r) (bus.perform r).2
        (flat.perform r).2 := by
  cases r with
  | load i width a => exact h.load hr width a
  | store i width a v => exact h.store hr width a v
  | flush i =>
    obtain ⟨k, bus', hrun, hflush⟩ := h.flush hr
    simp only [Bus.perform, hrun, Bus.answer]
    exact ⟨rfl, hflush⟩
  | release i selector remove =>
    obtain ⟨bus', hrun, hw⟩ := h.coherent.release_spec (h.registered hr) selector remove
    simp only [Bus.perform, hrun, Bus.answer]
    exact ⟨rfl, h.kept hw⟩
  | discard selector =>
    exact ⟨rfl, h.kept (h.coherent.written_broadcast none selector true 0)⟩
  | retire i =>
    obtain ⟨k, bus', hrun, hflush⟩ := h.flush hr
    simp only [Bus.perform, hrun, Bus.answer]
    exact ⟨rfl, hflush.unregister (by simp)⟩

/-! ## A run -/

/-- Empty caches refine the bytes of the memory behind them. -/
theorem refines_of_empty (hown : ∀ {number j : Nat}, bus.registry[number]? = some j → j = number)
    (hempty : ∀ j a, (bus.store j).line? a = none)
    (hlive : ∀ {i}, i ∈ live → bus.isRegistered i = true) :
    Refines live (fun _ => false) bus (.ofMemory bus.memory) := by
  have hnone : ∀ {a j l}, (bus.copies a).cached j ≠ some l := Bus.cached_of_empty hempty
  refine ⟨Bus.coherent_of_empty hown hempty, hlive, rfl, fun {a} _ => ?_, fun _ a l hl => ?_⟩
  · rw [Bus.halfAt_of_noDirty fun j l hl => absurd hl hnone]
    rfl
  · exact absurd hl hnone

/-- Each cache that is added is empty and takes part. -/
theorem assemble_spec (caches : List (Nat × Nat)) (live : List Nat) (bus : Bus PagedMemory)
    (hown : ∀ {number j : Nat}, bus.registry[number]? = some j → j = number)
    (hempty : ∀ j a, (bus.store j).line? a = none)
    (hlive : ∀ {i}, i ∈ live → bus.isRegistered i = true) :
    Refines (live ++ caches.map Prod.fst) (fun _ => false)
      (caches.foldl (fun bus cache =>
        (bus.setStore cache.1 (.empty cache.2)).register cache.1 cache.1) bus)
      (.ofMemory bus.memory) := by
  induction caches generalizing live bus with
  | nil => exact refines_of_empty hown hempty fun hi => hlive (by simpa using hi)
  | cons cache rest ih =>
    rw [List.map_cons, List.append_cons]
    refine ih (live ++ [cache.1]) _ (fun {number j} hr => ?_) (fun j a => ?_) fun {i} hi => ?_
    · have hr' : (bus.registry.insert cache.1 cache.1)[number]? = some j := hr
      rw [Std.TreeMap.getElem?_insert] at hr'
      split at hr'
      · next e =>
        cases hr'
        exact Nat.compare_eq_eq.1 e
      · exact hown hr'
    · show ((bus.setStore cache.1 (.empty cache.2)).store j).line? a = none
      rw [Bus.store_setStore]
      split
      · exact Bus.line?_empty ..
      · exact hempty j a
    · refine (Bus.isRegistered_register_iff ..).2 ?_
      rcases List.mem_append.1 hi with hold | hnew
      · exact .inr (hlive hold)
      · exact .inl (List.mem_singleton.1 hnew)

/-- The answers to a list of requests are those of the flat memory, and the refinement stays. -/
theorem Refines.answerAll {requests : List Request} (h : Refines live pending bus flat)
    (hr : AllAllowed live requests) :
    (answerAll Bus.perform bus requests).1 = (answerAll FlatMemory.perform flat requests).1 ∧
      ∃ live', Refines live' (requests.foldl pendingAfter pending)
        (answerAll Bus.perform bus requests).2 (answerAll FlatMemory.perform flat requests).2 := by
  induction requests generalizing live pending bus flat with
  | nil => exact ⟨rfl, live, h⟩
  | cons r rest ih =>
    obtain ⟨hallowed, hrest⟩ := hr
    obtain ⟨hanswer, hstep⟩ := h.perform hallowed
    obtain ⟨hanswers, hrun⟩ := ih hstep hrest
    exact ⟨congr (congrArg List.cons hanswer) hanswers, hrun⟩

/-- If no line is dirty, the memory behind the caches has the bytes of the flat memory. -/
theorem Refines.byteAt (h : Refines live pending bus flat) (hp : ∀ i, pending i = false)
    {a : Nat} (ha : a < flat.size) : bus.memory.byteAt a = flat.byte a := by
  have hsize : flat.size < 4294967296 := h.size ▸ bus.memory.size_lt
  have hmod : flat.size % 256 = 0 := h.size ▸ bus.memory.size_mod
  obtain ⟨b, hb⟩ : ∃ b : Address, b.toNat = a - a % 2 :=
    ⟨UInt32.ofNat (a - a % 2), UInt32.toNat_ofNat_of_lt' (by show _ < 4294967296; omega)⟩
  have hhalf : bus.memory.HasHalf b :=
    ⟨Address.even_iff.2 (by omega), by rw [← h.size]; omega⟩
  have hvalue : bus.memory.halfAt b.toNat = flat.half b.toNat := by
    rw [← h.half hhalf, Bus.halfAt_of_noDirty fun i l hl => h.settled (hp i) hl]
  rw [PagedMemory.halfAt, FlatMemory.half, hb] at hvalue
  by_cases ha' : a % 2 = 0
  · have hlow := congrArg lowByte hvalue
    rwa [lowByte_halfOfBytes, lowByte_halfOfBytes, ha', Nat.sub_zero] at hlow
  · have hodd : a - a % 2 + 1 = a := by omega
    have hhigh := congrArg highByte hvalue
    rwa [highByte_halfOfBytes, highByte_halfOfBytes, hodd] at hhigh

/-- Requests leave the size of a flat memory. -/
theorem size_answerAll (flat : FlatMemory) (requests : List Request) :
    (answerAll FlatMemory.perform flat requests).2.size = flat.size := by
  induction requests generalizing flat with
  | nil => rfl
  | cons r rest ih =>
    have hstep : (flat.perform r).2.size = flat.size := by
      unfold FlatMemory.perform
      split
      · split <;> rfl
      · split <;> rfl
      · rfl
    exact (ih (flat.perform r).2).trans hstep

/-- A memory behind any number of coherent caches answers every request as a flat memory does,
whatever the capacities of the caches and the order of the requests, and whichever caches retire
on the way. Its bytes are those of the flat memory as soon as no cache has stored since it was
last flushed. -/
theorem answers_eq_flat (memory : PagedMemory) (caches : List (Nat × Nat))
    (requests : List Request) (hr : AllAllowed (caches.map Prod.fst) requests) :
    (answerAll Bus.perform (.assemble memory caches) requests).1 =
        (answerAll FlatMemory.perform (.ofMemory memory) requests).1 ∧
      ((∀ i, Request.pending requests i = false) → ∀ a, a < memory.size →
        (answerAll Bus.perform (.assemble memory caches) requests).2.memory.byteAt a =
          (answerAll FlatMemory.perform (.ofMemory memory) requests).2.byte a) := by
  have hinit := assemble_spec caches [] { memory, capacity := 1 } (by simp)
    (fun _ a => Bus.line?_empty 1 a) (by simp)
  obtain ⟨hanswers, live', hrefines⟩ := hinit.answerAll hr
  refine ⟨hanswers, fun hp a ha => hrefines.byteAt hp ?_⟩
  rw [size_answerAll]
  exact ha

/-- Two caches of one line each pass a word to and fro; the first one retires in between. -/
theorem answers_eq_flat_of_two_caches :
    let requests : List Request := [.store 0 .word 4 0x11223344, .load 1 .half 6,
      .store 1 .byte 5 0xaa, .load 0 .word 4, .store 0 .half 3 1, .retire 0, .load 1 .word 4,
      .flush 1]
    let memory := PagedMemory.ofSize 256
    AllAllowed [0, 1] requests ∧
      (answerAll Bus.perform (.assemble memory [(0, 0), (1, 1)]) requests).1 =
        [.done, .value 0x1122, .done, .value 0x1122aa44, .refused, .done, .value 0x1122aa44,
          .done] ∧
      (answerAll Bus.perform (.assemble memory [(0, 0), (1, 1)]) requests).2.memory.byteAt 5 =
        0xaa := by
  intro requests memory
  have hr : AllAllowed [0, 1] requests := by
    simp [requests, AllAllowed, Allowed, remaining]
  obtain ⟨hanswers, hbytes⟩ := answers_eq_flat memory [(0, 0), (1, 1)] requests hr
  refine ⟨hr, hanswers.trans (by decide +kernel), (hbytes (fun i => ?_) 5 ?_).trans ?_⟩
  · simp only [Request.pending, requests, List.foldl, pendingAfter]
    by_cases h₀ : i = 0 <;> by_cases h₁ : i = 1 <;> simp [h₀, h₁]
  · decide
  · decide +kernel

end Request

end Multicore
