import Multicore.Proofs.Coherence.Values

/-!
# Caches that come and go

A cache without lines may start to take part at any time, and a cache that was flushed may stop:
neither changes a value (`flush_spec`, `halfAt_unregister`). `discard_spec` is about lines that
are dropped without being written back, which changes the values of the discarded halfwords to
those of memory and no others.
-/

namespace Multicore.Bus

open Std

section
variable {β : Type} (bus : Bus β) (i j : Nat)

/-- One data cache more takes part. -/
theorem isRegistered_register_iff :
    (bus.register i i).isRegistered j = true ↔ j = i ∨ bus.isRegistered j = true := by
  simp only [isRegistered, register, TreeMap.contains_insert, Bool.or_eq_true, beq_iff_eq,
    Nat.compare_eq_eq, eq_comm (a := i)]

/-- One data cache less takes part. -/
theorem isRegistered_unregister_iff :
    (bus.unregister i).isRegistered j = true ↔ j ≠ i ∧ bus.isRegistered j = true := by
  simp only [isRegistered, unregister, TreeMap.contains_erase, Bool.and_eq_true,
    bne_iff_ne, ne_eq, Nat.compare_eq_eq, eq_comm (a := i)]

end

variable {bus : Bus PagedMemory} {i : Nat}

/-! ## Starting -/

/-- A data cache starts without lines. -/
@[simp] theorem line?_empty (capacity : Nat) (a : Address) :
    (HalfwordCache.empty capacity).line? a = none :=
  RecencyMap.peek?_empty ..

/-- Caches without lines have no copies. -/
theorem cached_of_empty (hempty : ∀ j a, (bus.store j).line? a = none) {a : Address} {j : Nat}
    {l : CacheLine} : (bus.copies a).cached j ≠ some l := by
  intro hl
  cases (hempty j a).symm.trans (cached_eq_some_iff.1 hl).2

/-- Caches without lines are coherent. -/
theorem coherent_of_empty
    (hown : ∀ {number j : Nat}, bus.registry[number]? = some j → j = number)
    (hempty : ∀ j a, (bus.store j).line? a = none) : bus.Coherent where
  own := hown
  fits {j} _ a l hl := by
    rw [hempty] at hl
    cases hl
  each a := by
    have hnone : ∀ {j l}, (bus.copies a).cached j ≠ some l := cached_of_empty hempty
    exact ⟨fun {j l} hl => absurd hl hnone, fun {j k l l'} hl => absurd hl hnone⟩

/-- A cache without lines that starts to take part changes no copies. -/
theorem copies_register (hempty : ∀ a, (bus.store i).line? a = none) (a : Address) :
    (bus.register i i).copies a = bus.copies a := by
  refine Copies.ext (funext fun j => Option.ext fun l => ?_) rfl
  have hstore : (bus.register i i).store j = bus.store j := rfl
  rw [cached_eq_some_iff, cached_eq_some_iff, isRegistered_register_iff, hstore]
  constructor
  · rintro ⟨rfl | hj, hl⟩
    · rw [hempty] at hl
      cases hl
    · exact ⟨hj, hl⟩
  · rintro ⟨hj, hl⟩
    exact ⟨.inr hj, hl⟩

/-- A data cache without lines may take part. -/
theorem Coherent.register (h : bus.Coherent) (hempty : ∀ a, (bus.store i).line? a = none) :
    (bus.register i i).Coherent where
  own {number j} hr := by
    simp only [Bus.register, TreeMap.getElem?_insert, Nat.compare_eq_eq] at hr
    split at hr
    · next e => cases hr; exact e
    · exact h.own hr
  fits {j} hj a l hl := by
    have hstore : (bus.register i i).store j = bus.store j := rfl
    rw [hstore] at hl
    rcases (isRegistered_register_iff ..).1 hj with rfl | hj
    · rw [hempty] at hl
      cases hl
    · exact h.fits hj hl
  each a := by
    rw [copies_register hempty]
    exact h.each a

/-- A bus with nothing but one cache on it is coherent. -/
theorem coherent_of_one (memory : PagedMemory) (capacity i : Nat) :
    (({ memory, capacity } : Bus PagedMemory).register i i).Coherent := by
  have hempty : ∀ j a, (({ memory, capacity } : Bus PagedMemory).store j).line? a = none :=
    fun _ a => line?_empty capacity a
  exact (coherent_of_empty (fun {_ _} hr => by simp at hr) hempty).register (hempty i)

/-! ## Stopping -/

/-- A cache that stops to take part takes its lines with it. -/
theorem copies_unregister (bus : Bus PagedMemory) (i : Nat) (a : Address) :
    (bus.unregister i).copies a = (bus.copies a).drop i := by
  refine Copies.ext (funext fun j => Option.ext fun l => ?_) rfl
  have hstore : (bus.unregister i).store j = bus.store j := rfl
  rw [cached_eq_some_iff, isRegistered_unregister_iff, hstore]
  simp only [Copies.drop]
  split
  · next hj => simp [hj]
  · next hj => rw [cached_eq_some_iff, and_iff_right hj]

/-- A data cache may leave. If it has a dirty line, its value is lost and memory's counts again. -/
theorem Coherent.unregister (h : bus.Coherent) (i : Nat) : (bus.unregister i).Coherent where
  own {number j} hr := by
    simp only [Bus.unregister, TreeMap.getElem?_erase] at hr
    split at hr
    · cases hr
    · exact h.own hr
  fits {j} hj := h.fits ((isRegistered_unregister_iff ..).1 hj).2
  each a := by
    rw [copies_unregister]
    exact (h.each a).drop i

/-- A flush changes no value and leaves the cache without dirty lines. -/
theorem flush_spec (h : bus.Coherent) (hi : bus.isRegistered i = true) :
    ∃ bus', flush i bus = .ok ((bus.store i).covered .all).length bus' ∧
      bus.Written i .none bus' ∧
      ∀ ⦃a l⦄, (bus'.copies a).cached i = some l → l.dirty = false := by
  obtain ⟨bus', hrun, hsteady, hfitted, hcopies⟩ := release_spec h.toFitted hi .all true false
  have hall : ∀ b, b % 2 = 0 → bus'.copies b = (bus.copies b).release true false i := by
    intro b hb
    rw [hcopies b hb]
    rfl
  refine ⟨bus', hrun, ⟨hsteady, hfitted, fun {b} hb => ?_⟩, fun a l hl => ?_⟩
  · rw [hall b hb]
    exact .release (h.each b) i false i
  · rw [hall a (hfitted.hasHalf hl).even] at hl
    have hline := Copies.cached_releaseAll true false (bus.copies a) [i] i
    rw [if_pos (List.mem_singleton_self i)] at hline
    obtain ⟨l₀, -, rfl⟩ := Option.map_eq_some_iff.1 (hline.symm.trans hl)
    rfl

/-- A cache that has no dirty line may stop to take part without changing a value. -/
theorem halfAt_unregister (h : bus.Coherent)
    (hi : ∀ ⦃a l⦄, (bus.copies a).cached i = some l → l.dirty = false) (a : Address) :
    (bus.unregister i).halfAt a = bus.halfAt a := by
  refine ((bus.unregister i).holds_halfAt a).unique ((h.unregister i).each a) ?_
  rw [copies_unregister]
  exact (bus.holds_halfAt a).drop fun hl => hi hl

/-! ## Discarding -/

/-- Lines that one cache drops without writing them back leave the bus coherent. -/
theorem drop_spec (h : bus.Coherent) (hi : bus.isRegistered i = true) (selector : Selector) :
    ∃ bus', release i selector false true bus = .ok ((bus.store i).covered selector).length bus' ∧
      bus.Steady bus' ∧ bus'.Coherent := by
  obtain ⟨bus', hrun, hsteady, hfitted, hcopies⟩ := release_spec h.toFitted hi selector false true
  refine ⟨bus', hrun, hsteady, hfitted.coherent fun a heven => ?_⟩
  rw [hcopies a heven]
  split
  · exact (h.each a).release false true i
  · exact h.each a

/-- Lines that are discarded without being written back leave the values of memory behind. -/
theorem discard_spec (h : bus.Fitted) (selector : Selector)
    (hother : ∀ a, a % 2 = 0 → selector.covers a = false → (bus.copies a).Coherent) :
    bus.Steady (bus.discard selector false) ∧ (bus.discard selector false).Coherent ∧
      ∀ a, a % 2 = 0 → if selector.covers a
        then (∀ j, ((bus.discard selector false).copies a).cached j = none) ∧
          (bus.discard selector false).halfAt a = bus.memory.halfAt a.toNat
        else (bus.discard selector false).copies a = bus.copies a := by
  obtain ⟨hsteady, hfitted, hcopies⟩ := broadcast_spec h none selector false true
  have hnone : ∀ a, a % 2 = 0 → selector.covers a = true →
      ∀ j, ((bus.discard selector false).copies a).cached j = none := by
    intro a ha hc j
    rw [discard, hcopies a ha, if_pos hc, Copies.cached_releaseAll]
    split
    · rfl
    · next hn =>
      refine Option.eq_none_iff_forall_ne_some.2 fun l hl => hn ?_
      exact h.mem_audience_iff.2 ⟨(cached_eq_some_iff.1 hl).1, nofun⟩
  refine ⟨hsteady, hfitted.coherent fun a ha => ?_, fun a ha => ?_⟩
  · rcases hc : selector.covers a with _ | _
    · rw [hcopies a ha, hc]
      exact hother a ha hc
    · refine ⟨fun {j l} hl => ?_, fun {j k l l'} hl => ?_⟩
      · cases (hnone a ha hc j).symm.trans hl
      · cases (hnone a ha hc j).symm.trans hl
  · split
    · next hc =>
      refine ⟨hnone a ha hc, ?_⟩
      have hstored : ((bus.discard selector false).copies a).stored = (bus.copies a).stored := by
        rw [discard, hcopies a ha, if_pos hc, Copies.stored_releaseAll]
      rw [halfAt_of_noDirty fun j l hl => by cases (hnone a ha hc j).symm.trans hl]
      exact hstored
    · next hc => rw [discard, hcopies a ha, if_neg hc]

end Multicore.Bus
