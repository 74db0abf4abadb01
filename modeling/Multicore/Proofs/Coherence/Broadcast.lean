import Multicore.Proofs.Coherence.Copies

/-!
# Coherent buses

A bus is `Coherent` if each cache takes part under its own number, holds only halfwords of
memory, and the copies of every halfword are coherent (`Copies.Coherent`). The operations of
the bus are followed through `Bus.copies`, one halfword at a time: a release of lines
(`release_spec`) and a broadcast (`broadcast_spec`) do to every covered halfword what `Copies`
says, and leave the others alone. What none of them changes is collected in `Keeps` and
`Steady`.
-/

namespace Multicore.Bus

open Std

section
variable {β : Type}

/-- Lines that are replaced are those of one data cache. -/
theorem store_setStore (bus : Bus β) (i j : Nat) (s : HalfwordCache) :
    (bus.setStore i s).store j = if j = i then s else bus.store j := by
  simp only [store, setStore, TreeMap.getD_insert, Nat.compare_eq_eq, eq_comm (a := i)]

/-- The bus with the lines of a data cache and the memory replaced. -/
def put (bus : Bus β) (i : Nat) (s : HalfwordCache) (memory : β) : Bus β :=
  { bus.setStore i s with memory }

/-- Who takes part does not depend on lines and memory. -/
@[simp] theorem isRegistered_put (bus : Bus β) (i : Nat) (s : HalfwordCache) (m : β) (j : Nat) :
    (bus.put i s m).isRegistered j = bus.isRegistered j := rfl

/-- Lines that are put with a memory are those of one data cache. -/
theorem store_put (bus : Bus β) (i : Nat) (s : HalfwordCache) (m : β) (j : Nat) :
    (bus.put i s m).store j = if j = i then s else bus.store j :=
  store_setStore ..

/-- What succeeds on a data cache replaces its lines and the memory. -/
theorem onStore_of_ok {α : Type} {bus : Bus β} {i : Nat} {x : HalfwordCache.Run β α} {a : α}
    {s : HalfwordCache} {m : β} (h : x (bus.store i, bus.memory) = .ok a (s, m)) :
    onStore i x bus = .ok a (bus.put i s m) := by
  rw [onStore, h]
  rfl

/-- What is done with a data cache and memory on a bus is done with these two. -/
theorem finalState_onStore {α : Type} (i : Nat) (x : HalfwordCache.Run β α) (bus : Bus β) :
    finalState (onStore i x) bus =
      let t := finalState x (bus.store i, bus.memory)
      bus.put i t.1 t.2 := by
  unfold finalState onStore
  rcases x (bus.store i, bus.memory) with ⟨a, s, m⟩ | ⟨e, s, m⟩
  · rfl
  · rfl

/-- What is done with memory on a bus is done with its memory. -/
theorem finalState_onMemory {α : Type} (x : EStateM MemoryError β α) (bus : Bus β) :
    finalState (onMemory x) bus = { bus with memory := finalState x bus.memory } := by
  unfold finalState onMemory
  rcases x bus.memory with ⟨a, m⟩ | ⟨e, m⟩
  · rfl
  · rfl

/-- A number takes part if the registry has a cache for it. -/
theorem isRegistered_iff {bus : Bus β} {j : Nat} :
    bus.isRegistered j = true ↔ ∃ i, bus.registry[j]? = some i := by
  rw [isRegistered, TreeMap.contains_eq_isSome_getElem?, Option.isSome_iff_exists]

end

/-! ## Coherence -/

/-- The copies of the halfword at an address, in the caches that take part and in memory. -/
def copies (bus : Bus PagedMemory) (a : Address) : Copies where
  cached i := if bus.isRegistered i then (bus.store i).line? a else none
  stored := bus.memory.halfAt a.toNat

/-- Each cache takes part under its own number, and its lines are halfwords of memory. -/
structure Fitted (bus : Bus PagedMemory) : Prop where
  own : ∀ {number i : Nat}, bus.registry[number]? = some i → i = number
  fits : ∀ {i}, bus.isRegistered i = true → (bus.store i).Fits bus.memory

/-- The caches that take part and memory agree: a clean line has the value of memory, and a
dirty line is the only line of its halfword. -/
structure Coherent (bus : Bus PagedMemory) : Prop extends Fitted bus where
  each : ∀ a, (bus.copies a).Coherent

/-- A data cache that takes part has the copy that is its line. -/
theorem cached_copies {bus : Bus PagedMemory} {i : Nat} (hi : bus.isRegistered i = true)
    (a : Address) : (bus.copies a).cached i = (bus.store i).line? a :=
  if_pos hi

/-- A copy is a line of a data cache that takes part. -/
theorem cached_eq_some_iff {bus : Bus PagedMemory} {a : Address} {i : Nat} {l : CacheLine} :
    (bus.copies a).cached i = some l ↔
      bus.isRegistered i = true ∧ (bus.store i).line? a = some l := by
  simp only [copies]
  split
  · next h => simp [h]
  · next h => simp [h]

/-- A line lies at a halfword of memory. -/
theorem Fitted.hasHalf {bus : Bus PagedMemory} (h : bus.Fitted) {a : Address} {i : Nat}
    {l : CacheLine} (hl : (bus.copies a).cached i = some l) : bus.memory.HasHalf a := by
  obtain ⟨hi, hl⟩ := cached_eq_some_iff.1 hl
  exact h.fits hi hl

/-- There are lines at even addresses only, so coherence matters there only. -/
theorem Fitted.coherent {bus : Bus PagedMemory} (h : bus.Fitted)
    (heven : ∀ a : Address, a % 2 = 0 → (bus.copies a).Coherent) : bus.Coherent where
  toFitted := h
  each a :=
    ⟨fun hl => (heven a (h.hasHalf hl).even).clean hl,
      fun hl => (heven a (h.hasHalf hl).even).alone hl⟩

/-! ## What stays -/

/-- The registry, the capacities, the size of memory and the caches that take no part are as
before. -/
structure Keeps (bus bus' : Bus PagedMemory) : Prop where
  registry : bus'.registry = bus.registry
  capacity : bus'.capacity = bus.capacity
  capacities : ∀ j, (bus'.store j).lines.capacity = (bus.store j).lines.capacity
  absent : ∀ {j}, bus.isRegistered j = false → bus'.store j = bus.store j
  pageCount : bus'.memory.pageCount = bus.memory.pageCount

/-- Who takes part is kept. -/
theorem Keeps.isRegistered {bus bus' : Bus PagedMemory} (h : bus.Keeps bus') (j : Nat) :
    bus'.isRegistered j = bus.isRegistered j := by
  rw [Bus.isRegistered, h.registry]
  rfl

/-- What is kept twice is kept. -/
theorem Keeps.trans {bus bus' bus'' : Bus PagedMemory} (h : bus.Keeps bus')
    (h' : bus'.Keeps bus'') : bus.Keeps bus'' where
  registry := h'.registry.trans h.registry
  capacity := h'.capacity.trans h.capacity
  capacities j := (h'.capacities j).trans (h.capacities j)
  absent {j} hj := (h'.absent ((h.isRegistered j).trans hj)).trans (h.absent hj)
  pageCount := h'.pageCount.trans h.pageCount

/-- In addition the same pages are allocated. -/
structure Steady (bus bus' : Bus PagedMemory) : Prop extends Keeps bus bus' where
  allocated : bus'.memory.allocated = bus.memory.allocated

theorem Steady.refl (bus : Bus PagedMemory) : bus.Steady bus :=
  ⟨⟨rfl, rfl, fun _ => rfl, fun _ => rfl, rfl⟩, rfl⟩

/-- What is steady may be followed by what is steady. -/
theorem Steady.trans {bus bus' bus'' : Bus PagedMemory} (h : bus.Steady bus')
    (h' : bus'.Steady bus'') : bus.Steady bus'' :=
  ⟨h.toKeeps.trans h'.toKeeps, h'.allocated.trans h.allocated⟩

/-- A cache that takes part may change its lines and the contents of memory. -/
theorem Steady.put {bus : Bus PagedMemory} {i : Nat} {s : HalfwordCache} {m : PagedMemory}
    (hi : bus.isRegistered i = true)
    (h : HalfwordCache.SameShape (bus.store i) bus.memory s m) : bus.Steady (bus.put i s m) where
  registry := rfl
  capacity := rfl
  capacities j := by
    rw [store_put]
    split
    · next e => rw [e]; exact h.capacity
    · rfl
  absent {j} hj := by
    rw [store_put, if_neg]
    rintro rfl
    rw [hi] at hj
    cases hj
  pageCount := h.pageCount
  allocated := h.allocated

/-- Lines at halfwords of memory may replace the lines of a data cache. -/
theorem Fitted.put {bus : Bus PagedMemory} {i : Nat} {s : HalfwordCache} {m : PagedMemory}
    (hb : bus.Fitted) (h : HalfwordCache.SameShape (bus.store i) bus.memory s m)
    (hs : s.Fits bus.memory) : (bus.put i s m).Fitted where
  own h := hb.own h
  fits {j} hj a l hl := by
    refine (PagedMemory.HasHalf.congr h.pageCount).2 ?_
    rw [store_put] at hl
    split at hl
    · exact hs hl
    · exact hb.fits hj hl

/-- The copies of a halfword after the lines of one data cache and the memory were replaced. -/
theorem copies_put (bus : Bus PagedMemory) {i : Nat} (hi : bus.isRegistered i = true)
    (s : HalfwordCache) (m : PagedMemory) (b : Address) :
    (bus.put i s m).copies b =
      ⟨fun j => if j = i then s.line? b else (bus.copies b).cached j, m.halfAt b.toNat⟩ := by
  refine Copies.ext (funext fun j => ?_) rfl
  by_cases hj : j = i
  · simp [copies, store_put, hj, hi]
  · simp [copies, store_put, hj]

/-! ## Releases -/

/-- A release does to the lines that its selector covers what it is told, and leaves the other
halfwords alone. -/
theorem release_spec {bus : Bus PagedMemory} (h : bus.Fitted) {i : Nat}
    (hi : bus.isRegistered i = true) (selector : Selector) (writeback remove : Bool) :
    ∃ bus', release i selector writeback remove bus =
        .ok ((bus.store i).covered selector).length bus' ∧ bus.Steady bus' ∧ bus'.Fitted ∧
      ∀ b, b % 2 = 0 → bus'.copies b =
        if selector.covers b then (bus.copies b).release writeback remove i
        else bus.copies b := by
  obtain ⟨s, m, hrun, hshape, hline, hmem⟩ :=
    HalfwordCache.release_spec (h.fits hi) selector writeback remove
  have hfits : s.Fits bus.memory := HalfwordCache.Fits.of_released (h.fits hi) hline
  refine ⟨bus.put i s m, onStore_of_ok hrun, .put hi hshape, h.put hshape hfits, fun b hb => ?_⟩
  rw [copies_put bus hi, hline, hmem b hb, ← cached_copies hi]
  by_cases hc : selector.covers b = true
  · simp only [hc, if_true, true_and]
    refine Copies.ext (funext fun j => ?_) ?_
    · by_cases hj : j = i <;> cases writeback <;> cases remove <;>
        simp [hj, Copies.release, Copies.settle, Copies.drop]
    · cases writeback <;> cases remove <;> rfl
  · simp only [hc]
    refine Copies.ext (funext fun j => ?_) rfl
    by_cases hj : j = i
    · simp [hj]
    · simp [hj]

/-! ## Broadcasts -/

/-- The caches that hear a broadcast. -/
def audience (bus : Bus β) (except : Option Nat) : List Nat :=
  (bus.registry.toList.filter fun (number, _) => some number ≠ except).map Prod.snd

/-- A broadcast is heard by the caches that take part, except the one it is from. -/
theorem Fitted.mem_audience_iff {bus : Bus PagedMemory} (h : bus.Fitted) {except : Option Nat}
    {i : Nat} : i ∈ bus.audience except ↔ bus.isRegistered i = true ∧ some i ≠ except := by
  simp only [audience, List.mem_map, List.mem_filter, Prod.exists, exists_eq_right,
    TreeMap.mem_toList_iff_getElem?_eq_some, decide_eq_true_eq]
  constructor
  · rintro ⟨number, hr, hne⟩
    cases h.own hr
    exact ⟨isRegistered_iff.2 ⟨_, hr⟩, hne⟩
  · rintro ⟨hi, hne⟩
    obtain ⟨j, hr⟩ := isRegistered_iff.1 hi
    cases h.own hr
    exact ⟨i, hr, hne⟩

/-- A broadcast makes every cache that hears it release the lines that its selector covers. -/
theorem broadcast_spec {bus : Bus PagedMemory} (h : bus.Fitted) (except : Option Nat)
    (selector : Selector) (writeback remove : Bool) :
    bus.Steady (bus.broadcast except selector writeback remove) ∧
      (bus.broadcast except selector writeback remove).Fitted ∧
      ∀ b, b % 2 = 0 → (bus.broadcast except selector writeback remove).copies b =
        if selector.covers b then
          (bus.copies b).releaseAll writeback remove (bus.audience except)
        else bus.copies b := by
  have hheard : ∀ i ∈ bus.audience except, bus.isRegistered i = true :=
    fun i hi => (h.mem_audience_iff.1 hi).1
  unfold broadcast
  unfold audience at hheard ⊢
  generalize bus.registry.toList.filter _ = l at *
  -- the caches of the list release their lines one after the other
  induction l generalizing bus with
  | nil => exact ⟨.refl bus, h, fun b _ => by simp [Copies.releaseAll]⟩
  | cons entry rest ih =>
    obtain ⟨number, i⟩ := entry
    obtain ⟨bus₁, hrun, hsteady₁, hfitted₁, hcopies₁⟩ :=
      release_spec h (hheard i (by simp)) selector writeback remove
    have hstep : finalState (onStore i (HalfwordCache.release selector writeback remove)) bus =
        bus₁ := finalState_of_ok hrun
    simp only [List.foldl_cons, hstep]
    obtain ⟨hsteady₂, hfitted₂, hcopies₂⟩ := ih hfitted₁ fun i hi => by
      rw [hsteady₁.isRegistered]
      exact hheard i (List.mem_cons_of_mem _ hi)
    refine ⟨hsteady₁.trans hsteady₂, hfitted₂, fun b hb => ?_⟩
    rw [hcopies₂ b hb, hcopies₁ b hb]
    split
    · rfl
    · rfl

end Multicore.Bus
