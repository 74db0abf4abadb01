import Multicore.Proofs.Coherence.Broadcast

/-!
# The values on a bus

`Bus.halfAt` is the value of a halfword on a bus: that of a dirty line, or of memory if no line
is dirty. It is what coherent copies agree on. `Written` says that one bus comes from another
by writing the values of a patch, among any number of reads and write-backs: the new bus is
coherent, and its values are those of the patch over the old ones. `Same` says that nothing
happened at all, but that the clock of one cache may have advanced.
-/

namespace Multicore

open Std

/-- The value of a dirty line. -/
def HalfwordCache.dirty? (s : HalfwordCache) (a : Address) : Option UInt16 :=
  match s.line? a with
  | some { dirty := true, value } => some value
  | _ => none

/-- The value of a dirty line is that of a line that is marked. -/
theorem HalfwordCache.dirty?_eq_some_iff {s : HalfwordCache} {a : Address} {v : UInt16} :
    s.dirty? a = some v ↔ s.line? a = some ⟨true, v⟩ := by
  unfold dirty?
  split
  · next h => simp [h]
  · next h =>
    constructor
    · intro e
      cases e
    · intro e
      exact absurd e (h v)

namespace Bus

/-! ## Values -/

/-- The value of the halfword at an address: that of a dirty line, or of memory if no line is
dirty. -/
def halfAt (bus : Bus PagedMemory) (a : Address) : UInt16 :=
  (bus.registered.findSome? fun i => (bus.store i).dirty? a).getD (bus.memory.halfAt a.toNat)

/-- The numbers that are listed are those that take part. -/
theorem mem_registered_iff {β : Type} {bus : Bus β} {i : Nat} :
    i ∈ bus.registered ↔ bus.isRegistered i = true := by
  rw [registered, TreeMap.mem_keys, isRegistered, TreeMap.mem_iff_contains]

/-- The copies of a halfword hold its coherent value. -/
theorem holds_halfAt (bus : Bus PagedMemory) (a : Address) :
    (bus.copies a).Holds (bus.halfAt a) := by
  unfold halfAt
  rcases h : bus.registered.findSome? fun i => (bus.store i).dirty? a with _ | v
  · refine .clean (fun i l hl => ?_) rfl
    obtain ⟨hi, hl⟩ := cached_eq_some_iff.1 hl
    have hn := List.findSome?_eq_none_iff.1 h i (mem_registered_iff.2 hi)
    obtain ⟨_ | _, v⟩ := l
    · rfl
    · rw [HalfwordCache.dirty?_eq_some_iff.2 hl] at hn
      cases hn
  · obtain ⟨i, hi, hv⟩ := List.exists_of_findSome?_eq_some h
    exact .dirty i (cached_eq_some_iff.2
      ⟨mem_registered_iff.1 hi, HalfwordCache.dirty?_eq_some_iff.1 hv⟩)

/-- The copies of a halfword determine its value. -/
theorem halfAt_of_copies_eq {bus bus' : Bus PagedMemory} (h : bus'.Coherent) {a : Address}
    (hcopies : bus'.copies a = bus.copies a) : bus'.halfAt a = bus.halfAt a := by
  refine (bus'.holds_halfAt a).unique (h.each a) ?_
  rw [hcopies]
  exact bus.holds_halfAt a

/-- If no line is dirty, memory has the value. -/
theorem halfAt_of_noDirty {bus : Bus PagedMemory} {a : Address} (h : (bus.copies a).NoDirty) :
    bus.halfAt a = bus.memory.halfAt a.toNat := by
  cases bus.holds_halfAt a with
  | dirty i hi => exact absurd (h hi) (by simp)
  | clean _ hs => exact hs.symm

/-! ## Writes -/

/-- The values written to some halfwords. -/
abbrev Patch := Address → Option UInt16

/-- No value is written. -/
def Patch.none : Patch := fun _ => Option.none

/-- One value is written. -/
def Patch.single (a : Address) (v : UInt16) : Patch := fun b =>
  if b = a then some v else Option.none

/-- One patch after another. -/
def Patch.andThen (p q : Patch) : Patch := fun b => (q b).or (p b)

/-- The bus after the cache `i` wrote the values of a patch, among reads and write-backs. -/
structure Written (bus : Bus PagedMemory) (i : Nat) (patch : Patch) (bus' : Bus PagedMemory) :
    Prop where
  steady : bus.Steady bus'
  fitted : bus'.Fitted
  each : ∀ {b}, b % 2 = 0 → (bus.copies b).Became i (patch b) (bus'.copies b)

variable {bus bus' bus'' : Bus PagedMemory} {i : Nat} {p q : Patch}

/-- A bus stays coherent when values are written. -/
theorem Written.coherent (h : bus.Written i p bus') : bus'.Coherent :=
  h.fitted.coherent fun _ ha => (h.each ha).coherent

/-- A halfword has the value that was written to it, or the old one. -/
theorem Written.halfAt (h : bus.Written i p bus') {b : Address} (hb : b % 2 = 0) :
    bus'.halfAt b = (p b).getD (bus.halfAt b) :=
  (bus'.holds_halfAt b).unique (h.coherent.each b) ((h.each hb).holds (bus.holds_halfAt b))

/-- Who takes part stays when values are written. -/
theorem Written.isRegistered (h : bus.Written i p bus') (j : Nat) :
    bus'.isRegistered j = bus.isRegistered j :=
  h.steady.isRegistered j

/-- Memory has the same halfwords when values are written. -/
theorem Written.hasHalf_iff (h : bus.Written i p bus') {a : Address} :
    bus'.memory.HasHalf a ↔ bus.memory.HasHalf a :=
  PagedMemory.HasHalf.congr h.steady.pageCount

/-- Values may be written after values. The later ones count. -/
theorem Written.trans (h : bus.Written i p bus') (h' : bus'.Written i q bus'') :
    bus.Written i (p.andThen q) bus'' :=
  ⟨h.steady.trans h'.steady, h'.fitted, fun hb => (h.each hb).trans (h'.each hb)⟩

/-- Reads and write-backs before a write do not count. -/
theorem Written.none_trans (h : bus.Written i .none bus') (h' : bus'.Written i p bus'') :
    bus.Written i p bus'' := by
  have hp : Patch.none.andThen p = p := funext fun b => by simp [Patch.andThen, Patch.none]
  exact hp ▸ h.trans h'

/-- A broadcast that writes lines back changes no value. -/
theorem Coherent.written_broadcast (h : bus.Coherent) (except : Option Nat)
    (selector : Selector) (remove : Bool) (i : Nat) :
    bus.Written i .none (bus.broadcast except selector true remove) := by
  obtain ⟨hsteady, hfitted, hcopies⟩ := broadcast_spec h.toFitted except selector true remove
  refine ⟨hsteady, hfitted, fun {b} hb => ?_⟩
  rw [hcopies b hb]
  split
  · exact .releaseAll (h.each b) i remove _
  · exact .refl (h.each b) i

/-- A release that writes lines back changes no value. -/
theorem Coherent.release_spec (h : bus.Coherent) (hi : bus.isRegistered i = true)
    (selector : Selector) (remove : Bool) :
    ∃ bus', release i selector true remove bus =
      .ok ((bus.store i).covered selector).length bus' ∧ bus.Written i .none bus' := by
  obtain ⟨bus', hrun, hsteady, hfitted, hcopies⟩ :=
    Bus.release_spec h.toFitted hi selector true remove
  refine ⟨bus', hrun, hsteady, hfitted, fun {b} hb => ?_⟩
  rw [hcopies b hb]
  split
  · exact .release (h.each b) i remove i
  · exact .refl (h.each b) i

/-! ## Nothing written -/

/-- Nothing was written: the memory, the registry and the caches are as before, but that the clock
by which the cache `i` stamps its lines may have advanced. -/
structure Same (bus : Bus PagedMemory) (i : Nat) (bus' : Bus PagedMemory) : Prop where
  memory : bus'.memory = bus.memory
  registry : bus'.registry = bus.registry
  capacity : bus'.capacity = bus.capacity
  store : ∃ ticks,
    bus'.store i = { bus.store i with lines := (bus.store i).lines.advance ticks }
  others : ∀ j, j ≠ i → bus'.store j = bus.store j

/-- On a bus, nothing is different from itself. -/
theorem Same.refl (bus : Bus PagedMemory) (i : Nat) : bus.Same i bus :=
  ⟨rfl, rfl, rfl, ⟨0, rfl⟩, fun _ _ => rfl⟩

/-- Nothing was written if nothing was written in two steps. -/
theorem Same.trans (h : bus.Same i bus') (h' : bus'.Same i bus'') : bus.Same i bus'' where
  memory := h'.memory.trans h.memory
  registry := h'.registry.trans h.registry
  capacity := h'.capacity.trans h.capacity
  store := by
    obtain ⟨k, hk⟩ := h.store
    obtain ⟨l, hl⟩ := h'.store
    refine ⟨k + l, ?_⟩
    rw [hl, hk, ← RecencyMap.advance_advance]
  others j hj := (h'.others j hj).trans (h.others j hj)

/-- The same caches take part. -/
theorem Same.isRegistered (h : bus.Same i bus') (j : Nat) :
    bus'.isRegistered j = bus.isRegistered j := by
  rw [Bus.isRegistered, h.registry]
  rfl

/-- Every cache has the lines that it had. -/
theorem Same.line? (h : bus.Same i bus') (j : Nat) (a : Address) :
    (bus'.store j).line? a = (bus.store j).line? a := by
  by_cases hj : j = i
  · obtain ⟨ticks, hstore⟩ := h.store
    rw [hj, hstore]
    rfl
  · rw [h.others j hj]

/-- Every cache has the capacity that it had. -/
theorem Same.capacities (h : bus.Same i bus') (j : Nat) :
    (bus'.store j).lines.capacity = (bus.store j).lines.capacity := by
  by_cases hj : j = i
  · obtain ⟨ticks, hstore⟩ := h.store
    rw [hj, hstore]
    rfl
  · rw [h.others j hj]

/-- The copies of a halfword are as before. -/
theorem Same.copies (h : bus.Same i bus') (a : Address) : bus'.copies a = bus.copies a := by
  simp only [Bus.copies, h.isRegistered, h.line?, h.memory]

/-- The lines are still at halfwords of memory. -/
theorem Same.fitted (h : bus.Same i bus') (hb : bus.Fitted) : bus'.Fitted where
  own hr := hb.own (h.registry ▸ hr)
  fits {j} hj {a l} hl := by
    rw [h.line?] at hl
    rw [h.memory]
    exact hb.fits ((h.isRegistered j).symm.trans hj) hl

/-- If nothing was written to a coherent bus, no value was, as long as no clock advanced of a cache
that takes no part. -/
theorem Same.written_of_absent (h : bus.Same i bus') (hb : bus.Coherent)
    (habsent : ∀ j, bus.isRegistered j = false → bus'.store j = bus.store j) (j : Nat) :
    bus.Written j .none bus' where
  steady := ⟨⟨h.registry, h.capacity, h.capacities, fun {k} hk => habsent k hk, by rw [h.memory]⟩,
    by rw [h.memory]⟩
  fitted := h.fitted hb.toFitted
  each {b} _ := by
    rw [h.copies]
    exact .refl (hb.each b) j

/-- If nothing was written to a coherent bus through a cache that takes part, no value was. -/
theorem Same.written (h : bus.Same i bus') (hb : bus.Coherent)
    (hi : bus.isRegistered i = true) : bus.Written i .none bus' := by
  refine h.written_of_absent hb (fun j hj => h.others j ?_) i
  rintro rfl
  rw [hi] at hj
  cases hj

/-- On a coherent bus, doing nothing writes nothing. -/
theorem Coherent.written_refl (h : bus.Coherent) (i : Nat) : bus.Written i .none bus :=
  ⟨.refl bus, h.toFitted, fun {b} _ => .refl (h.each b) i⟩

/-- The clock of a cache may advance: nothing was written. -/
theorem same_advance (bus : Bus PagedMemory) (i ticks : Nat) :
    bus.Same i (bus.put i { bus.store i with lines := (bus.store i).lines.advance ticks }
      bus.memory) where
  memory := rfl
  registry := rfl
  capacity := rfl
  store := ⟨ticks, by rw [store_put, if_pos rfl]⟩
  others j hj := by rw [store_put, if_neg hj]

/-- Replacing the lines of any cache by themselves changes nothing. -/
theorem same_put (bus : Bus PagedMemory) (i j : Nat) :
    bus.Same i (bus.put j (bus.store j) bus.memory) := by
  have hstore : ∀ k, (bus.put j (bus.store j) bus.memory).store k = bus.store k := by
    intro k
    rw [store_put]
    split
    · next e => rw [e]
    · rfl
  exact ⟨rfl, rfl, rfl, ⟨0, hstore i⟩, fun k _ => hstore k⟩

end Bus

end Multicore
