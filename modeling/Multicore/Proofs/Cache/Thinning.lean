import Multicore.Proofs.Cache.Release

/-!
# Caches that get thinner

A cache is `Thinned` if lines of it are gone or have lost their dirty mark, and nothing else has
changed but the count of write-backs. A release thins a cache, also one that fails, on whatever
memory (`thins_release`).
-/

namespace Multicore.HalfwordCache

/-- No line is new, the lines that are left were used in the same order, and each is as it was or
has become clean. -/
structure Thinned (s s' : HalfwordCache) : Prop where
  keys : s'.lines.keys.Sublist s.lines.keys
  line : ∀ {a l'}, s'.line? a = some l' → ∃ l, s.line? a = some l ∧ (l' = l ∨ l' = l.clean)
  capacity : s'.lines.capacity = s.lines.capacity
  counts : (s'.hits, s'.misses, s'.evictions) = (s.hits, s.misses, s.evictions)
  writebacks : s.writebacks ≤ s'.writebacks

/-- A key that is left still has a line. -/
theorem exists_line_of_keys_eq {s s' : HalfwordCache} (h : s'.lines.keys = s.lines.keys)
    {a : Address} {l : CacheLine} (hl : s.line? a = some l) : ∃ l', s'.line? a = some l' :=
  RecencyMap.mem_keys_iff.1 (h ▸ RecencyMap.mem_keys_iff.2 ⟨l, hl⟩)

namespace Thinned

variable {s s' s'' : HalfwordCache}

theorem refl (s : HalfwordCache) : s.Thinned s :=
  ⟨.refl _, fun {_ l'} h => ⟨l', h, .inl rfl⟩, rfl, rfl, Nat.le_refl _⟩

/-- What is thinned twice is thinned. -/
theorem trans (h : s.Thinned s') (h' : s'.Thinned s'') : s.Thinned s'' where
  keys := h'.keys.trans h.keys
  line hl := by
    obtain ⟨l₁, hl₁, hlast⟩ := h'.line hl
    obtain ⟨l, hl, hfirst⟩ := h.line hl₁
    refine ⟨l, hl, ?_⟩
    rcases hlast with rfl | rfl
    · exact hfirst
    · rcases hfirst with rfl | rfl
      · exact .inr rfl
      · exact .inr rfl
  capacity := h'.capacity.trans h.capacity
  counts := h'.counts.trans h.counts
  writebacks := Nat.le_trans h.writebacks h'.writebacks

/-- A line that is left has its value. -/
theorem value_eq (h : s.Thinned s') {a : Address} {l l' : CacheLine} (hl : s.line? a = some l)
    (hl' : s'.line? a = some l') : l'.value = l.value := by
  obtain ⟨l₀, hl₀, rfl | rfl⟩ := h.line hl'
  · cases hl.symm.trans hl₀
    rfl
  · cases hl.symm.trans hl₀
    rfl

/-- If all keys are left, so are all values. -/
theorem map_value_eq (h : s.Thinned s') (hkeys : s'.lines.keys = s.lines.keys) (a : Address) :
    (s'.line? a).map CacheLine.value = (s.line? a).map CacheLine.value := by
  rcases hl : s.line? a with _ | l
  · rcases hl' : s'.line? a with _ | l'
    · rfl
    · obtain ⟨l, hl₀, -⟩ := h.line hl'
      cases hl.symm.trans hl₀
  · obtain ⟨l', hl'⟩ := exists_line_of_keys_eq hkeys hl
    rw [hl']
    exact congrArg some (h.value_eq hl hl')

/-- If all keys are left, a clean line is as it was. -/
theorem clean_of_keys_eq (h : s.Thinned s') (hkeys : s'.lines.keys = s.lines.keys) {a : Address}
    {v : UInt16} (hl : s.line? a = some ⟨false, v⟩) : s'.line? a = some ⟨false, v⟩ := by
  obtain ⟨l', hl'⟩ := exists_line_of_keys_eq hkeys hl
  obtain ⟨l, hl₀, hsame⟩ := h.line hl'
  cases hl.symm.trans hl₀
  exact hl'.trans (congrArg some (hsame.elim id id))

end Thinned

/-- A line that became clean thins the cache. -/
theorem thinned_cleaned (s : HalfwordCache) (a : Address) : s.Thinned (s.cleaned a) where
  keys := .refl _
  line {b l'} hl := by
    by_cases hb : b = a
    · subst hb
      rw [line?_cleaned_self, Option.map_eq_some_iff] at hl
      obtain ⟨l, hl, rfl⟩ := hl
      exact ⟨l, hl, .inr rfl⟩
    · rw [line?_cleaned_of_ne s hb] at hl
      exact ⟨l', hl, .inl rfl⟩
  capacity := rfl
  counts := rfl
  writebacks := Nat.le_succ _

/-- Lines that are dropped thin the cache, and the others keep their order. -/
theorem thinned_drop (s : HalfwordCache) (keys : List Address) : s.Thinned (s.drop keys) where
  keys := by
    rw [← RecencyMap.map_fst_toList, ← RecencyMap.map_fst_toList, entries_drop]
    exact List.filter_sublist.map _
  line {a l'} hl := by
    rw [line?_drop] at hl
    split at hl
    · cases hl
    · exact ⟨l', hl, .inl rfl⟩
  capacity := capacity_drop ..
  counts := rfl
  writebacks := Nat.le_refl _

/-! ## Releases -/

variable {β : Type}

/-- The cache before a memory has been thinned. -/
abbrev Thins (t t' : HalfwordCache × β) : Prop := t.1.Thinned t'.1

/-- To be thinned is a relation that chains. -/
theorem chains_thins : Chains (Thins (β := β)) := ⟨fun t => .refl t.1, Thinned.trans⟩

variable [PhysicalMemory β]

/-- A write-back thins the cache, also when memory refuses it. -/
theorem thins_writeBack (a : Address) : Within Thins (writeBack a : Run β Unit) := by
  rintro ⟨s, memory⟩
  rcases writeBack_cases s memory a with ⟨hrun, -⟩ | ⟨v, -, hrun⟩
  · rw [finalState_of_ok hrun]
    exact .refl s
  · rcases hw : PhysicalMemory.writeHalf a v memory with ⟨_, memory'⟩ | ⟨e, memory'⟩
    · rw [hw] at hrun
      rw [finalState_of_ok hrun]
      exact thinned_cleaned s a
    · rw [hw] at hrun
      rw [finalState_of_error hrun]
      exact .refl s

/-- A release thins the cache, wherever it ends. -/
theorem thins_releaseInOrder (order keys : List Address) (writeback remove : Bool) :
    Within Thins (releaseInOrder order keys writeback remove : Run β Nat) := by
  have hwrite := chains_thins.forM order fun a => thins_writeBack (β := β) a
  have hdrop : Within Thins (modify fun t => (t.1.drop keys, t.2) : Run β PUnit) :=
    fun t => thinned_drop t.1 keys
  cases writeback with
  | false =>
    cases remove with
    | false => exact chains_thins.pure _
    | true => exact chains_thins.bind hdrop fun _ => chains_thins.pure _
  | true =>
    refine chains_thins.bind hwrite fun _ => ?_
    cases remove with
    | false => exact chains_thins.pure _
    | true => exact chains_thins.bind hdrop fun _ => chains_thins.pure _

/-- Whatever a release comes to, it thins the cache. -/
theorem thins_release (selector : Selector) (writeback remove : Bool) :
    Within Thins (release selector writeback remove : Run β Nat) := by
  intro t
  exact thins_releaseInOrder (t.1.covered selector) (t.1.covered selector) writeback remove t

end Multicore.HalfwordCache
