import Multicore.Proofs.Cache.Recency
import Multicore.Proofs.Computation
import Multicore.Proofs.Memory.Contents

/-!
# Lines of a data cache in front of a paged memory

What the operations of a `HalfwordCache` do to the line at an address and to the halfword in
memory behind it. As long as every line is at a halfword of memory (`Fits`), none of them
fails. An insertion leaves the other addresses alone, or evicts a line and writes it back
(`Spared`); a release changes the addresses that its selector covers, each on its own
(`release_spec`).
-/

namespace Multicore

/-- The line after memory was told its value. -/
def CacheLine.clean (l : CacheLine) : CacheLine := { l with dirty := false }

/-- What memory holds behind a line once the line is written back. -/
def CacheLine.writtenOver (line : Option CacheLine) (stored : UInt16) : UInt16 :=
  match line with
  | some { dirty := true, value } => value
  | _ => stored

/-- A clean line stays as it is when it is cleaned. -/
@[simp] theorem CacheLine.clean_comp_clean : CacheLine.clean ∘ CacheLine.clean = CacheLine.clean :=
  rfl

/-- A clean line has nothing to tell memory. -/
@[simp] theorem CacheLine.writtenOver_map_clean (l : Option CacheLine) (v : UInt16) :
    CacheLine.writtenOver (l.map CacheLine.clean) v = v := by
  rcases l with _ | ⟨_ | _, value⟩ <;> rfl

/-- A line that is not dirty is as when it is cleaned, and has nothing to tell memory. -/
theorem CacheLine.of_not_dirty {line : Option CacheLine} (h : ∀ v, line ≠ some ⟨true, v⟩) :
    line.map CacheLine.clean = line ∧ ∀ stored, CacheLine.writtenOver line stored = stored := by
  rcases line with _ | ⟨_ | _, v⟩
  · exact ⟨rfl, fun _ => rfl⟩
  · exact ⟨rfl, fun _ => rfl⟩
  · exact absurd rfl (h v)

namespace HalfwordCache

/-- Every line of the cache is at a halfword of memory. -/
def Fits (s : HalfwordCache) (m : PagedMemory) : Prop :=
  ∀ {a : Address} {l : CacheLine}, s.line? a = some l → m.HasHalf a

/-! ## Looking up -/

/-- A look-up answers the value of the line. -/
@[simp] theorem lookup_fst (s : HalfwordCache) (a : Address) :
    (s.lookup a).1 = (s.line? a).map CacheLine.value := by
  have h := s.lines.get_fst a
  unfold lookup line?
  split
  · next hg => rw [hg] at h; rw [← h]; rfl
  · next hg => rw [hg] at h; rw [← h]; rfl

/-- A look-up leaves all lines. -/
@[simp] theorem line?_lookup (s : HalfwordCache) (a b : Address) :
    (s.lookup a).2.line? b = s.line? b := by
  have h := s.lines.peek?_get a b
  unfold lookup line?
  split
  · next hg => rw [hg] at h; exact h
  · next hg => rw [hg] at h; exact h

/-- A look-up leaves the capacity. -/
@[simp] theorem capacity_lookup (s : HalfwordCache) (a : Address) :
    (s.lookup a).2.lines.capacity = s.lines.capacity := by
  have h := s.lines.capacity_get a
  unfold lookup
  split
  · next hg => rw [hg] at h; exact h
  · next hg => rw [hg] at h; exact h

/-- A look-up that finds nothing only lets the clock of the lines advance. -/
theorem lookup_of_line?_eq_none {s : HalfwordCache} {a : Address} (h : s.line? a = none) :
    s.lookup a = (none, { s with lines := s.lines.advance 1 }) := by
  unfold lookup
  rw [RecencyMap.get_of_peek?_eq_none _ h]

/-- An address is contained if there is a line for it. -/
theorem contains_iff {s : HalfwordCache} {a : Address} :
    s.contains a = true ↔ ∃ l, s.line? a = some l := by
  rw [contains, RecencyMap.contains_eq_isSome_peek?, Option.isSome_iff_exists]
  rfl

/-! ## Insertion -/

/-- What an insertion elsewhere does to the address `b`: nothing, or the line at `b` is evicted
and memory takes its value. -/
inductive Spared (s : HalfwordCache) (m : PagedMemory) (s' : HalfwordCache) (m' : PagedMemory)
    (b : Address) : Prop
  | kept (hl : s'.line? b = s.line? b) (hm : m'.halfAt b.toNat = m.halfAt b.toNat)
  | evicted (hl : s'.line? b = none)
      (hm : m'.halfAt b.toNat = CacheLine.writtenOver (s.line? b) (m.halfAt b.toNat))

/-- The memory keeps its pages, its allocations and its size of pages. -/
structure SameShape (s : HalfwordCache) (m : PagedMemory) (s' : HalfwordCache)
    (m' : PagedMemory) : Prop where
  pageCount : m'.pageCount = m.pageCount
  allocated : m'.allocated = m.allocated
  capacity : s'.lines.capacity = s.lines.capacity

/-- The same shape twice is the same shape. -/
theorem SameShape.trans {s s' s'' : HalfwordCache} {m m' m'' : PagedMemory}
    (h : SameShape s m s' m') (h' : SameShape s' m' s'' m'') : SameShape s m s'' m'' :=
  ⟨h'.pageCount.trans h.pageCount, h'.allocated.trans h.allocated, h'.capacity.trans h.capacity⟩

/-- An insertion puts its line in and spares every other address. -/
theorem insert_spec {s : HalfwordCache} {m : PagedMemory} (h : s.Fits m) {a : Address}
    (ha : m.HasHalf a) (line : CacheLine) :
    ∃ s' m', insert a line (s, m) = .ok () (s', m') ∧ SameShape s m s' m' ∧ s'.Fits m ∧
      s'.line? a = some line ∧ m'.halfAt a.toNat = m.halfAt a.toNat ∧
      ∀ b, b % 2 = 0 → b ≠ a → Spared s m s' m' b := by
  have hself := s.lines.peek?_insert_self a line
  have hcap := s.lines.capacity_insert a line
  have hother : ∀ b, b ≠ a → _ := fun b => s.lines.peek?_insert_of_ne line
  have hout : ∀ k w, (s.lines.insert a line).1 = some (k, w) → _ := fun k w =>
    RecencyMap.of_insert_fst
  have hfits : ∀ {b l}, (s.lines.insert a line).2.peek? b = some l → m.HasHalf b := by
    intro b l hl
    rcases RecencyMap.of_peek?_insert hl with hold | ⟨rfl, -⟩
    · exact h hold
    · exact ha
  dsimp only [insert]
  -- of the map only the facts above matter now: nothing, a clean or a dirty line is evicted
  generalize s.lines.insert a line = r at *
  obtain ⟨_ | ⟨victim, old⟩, lines⟩ := r
  · refine ⟨{ s with lines }, m, rfl, ⟨rfl, rfl, hcap⟩, hfits, hself, rfl, fun b _ hne => ?_⟩
    rcases hother b hne with hb | ⟨w, -, hw⟩
    · exact .kept hb rfl
    · cases hw
  · obtain ⟨hne, -, hold, hgone⟩ := hout victim old rfl
    have hhalf : m.HasHalf victim := h hold
    obtain ⟨_ | _, value⟩ := old
    · refine ⟨{ s with lines, evictions := s.evictions + 1 }, m, rfl, ⟨rfl, rfl, hcap⟩, hfits,
        hself, rfl, fun b _ hb => ?_⟩
      by_cases hv : b = victim
      · subst hv
        exact .evicted hgone (by rw [line?, hold]; rfl)
      · rcases hother b hb with hk | ⟨w, -, hw⟩
        · exact .kept hk rfl
        · cases hw; exact absurd rfl hv
    · refine ⟨{ s with lines, evictions := s.evictions + 1, writebacks := s.writebacks + 1 },
        m.setHalf victim.toNat value, ?_, ⟨by simp, by simp, hcap⟩, hfits, hself, ?_,
        fun b hev hb => ?_⟩
      · simp only [if_true, PagedMemory.writeHalf_of_hasHalf value hhalf]
      · exact m.halfAt_setHalf_of_ne value hhalf.even ha.even (Ne.symm hne)
      · by_cases hv : b = victim
        · subst hv
          exact .evicted hgone (by rw [line?, hold]; simp [CacheLine.writtenOver])
        · rcases hother b hb with hk | ⟨w, -, hw⟩
          · exact .kept hk (m.halfAt_setHalf_of_ne value hhalf.even hev hv)
          · cases hw; exact absurd rfl hv

/-- A line that takes the place of another one at its address evicts nothing. -/
theorem insert_of_line? {s : HalfwordCache} {a : Address} {l : CacheLine}
    (h : s.line? a = some l) (m : PagedMemory) (line : CacheLine) :
    ∃ s', insert a line (s, m) = .ok () (s', m) ∧ s'.lines.capacity = s.lines.capacity ∧
      s'.line? a = some line ∧ ∀ b, b ≠ a → s'.line? b = s.line? b := by
  have hself := s.lines.peek?_insert_self a line
  have hcap := s.lines.capacity_insert a line
  have hother : ∀ b, b ≠ a → _ := fun b => s.lines.peek?_insert_of_ne line
  have hnone := s.lines.insert_fst_of_peek? (v := line) h
  dsimp only [insert]
  generalize s.lines.insert a line = r at *
  obtain ⟨r, lines⟩ := r
  cases hnone
  refine ⟨{ s with lines }, rfl, hcap, hself, fun b hb => ?_⟩
  rcases hother b hb with hk | ⟨w, -, hw⟩
  · exact hk
  · cases hw

/-! ## Writing back and dropping -/

/-- The line at an address, with its dirty mark gone and the write-back counted. -/
def cleaned (s : HalfwordCache) (a : Address) : HalfwordCache :=
  { s with lines := s.lines.adjust a .clean, writebacks := s.writebacks + 1 }

/-- The line that is cleaned is clean. -/
@[simp] theorem line?_cleaned_self (s : HalfwordCache) (a : Address) :
    (s.cleaned a).line? a = (s.line? a).map CacheLine.clean :=
  s.lines.peek?_adjust_self a _

/-- The other lines stay. -/
theorem line?_cleaned_of_ne (s : HalfwordCache) {a b : Address} (h : b ≠ a) :
    (s.cleaned a).line? b = s.line? b :=
  s.lines.peek?_adjust_of_ne _ h

/-- Writing a line back comes to nothing if it is not dirty, and else to what memory makes of the
write. -/
theorem writeBack_cases {β : Type} [PhysicalMemory β] (s : HalfwordCache) (memory : β)
    (a : Address) :
    (writeBack a (s, memory) = .ok () (s, memory) ∧ ∀ v, s.line? a ≠ some ⟨true, v⟩) ∨
    ∃ v, s.line? a = some ⟨true, v⟩ ∧ writeBack a (s, memory) =
      match PhysicalMemory.writeHalf a v memory with
      | .ok _ memory => .ok () (s.cleaned a, memory)
      | .error e memory => .error e (s, memory) := by
  rcases hline : s.line? a with _ | ⟨_ | _, v⟩
  · exact .inl ⟨by simp only [writeBack, hline], nofun⟩
  · exact .inl ⟨by simp only [writeBack, hline], nofun⟩
  · exact .inr ⟨v, rfl, by simp only [writeBack, hline]; rfl⟩

/-- Writing one line back cleans it and tells memory its value, and leaves the other addresses
alone. -/
theorem writeBack_spec {s : HalfwordCache} {m : PagedMemory} (h : s.Fits m) (a : Address) :
    ∃ s' m', writeBack a (s, m) = .ok () (s', m') ∧ SameShape s m s' m' ∧
      (∀ b, s'.line? b = if b = a then (s.line? b).map CacheLine.clean else s.line? b) ∧
      ∀ b, b % 2 = 0 → m'.halfAt b.toNat =
        if b = a then CacheLine.writtenOver (s.line? b) (m.halfAt b.toNat)
        else m.halfAt b.toNat := by
  rcases writeBack_cases s m a with ⟨hrun, hclean⟩ | ⟨value, hl, hrun⟩
  · obtain ⟨hmap, hwritten⟩ := CacheLine.of_not_dirty hclean
    refine ⟨s, m, hrun, ⟨rfl, rfl, rfl⟩, fun b => ?_, fun b _ => ?_⟩
    · split
      · next hb => rw [hb, hmap]
      · rfl
    · split
      · next hb => rw [hb, hwritten]
      · rfl
  · have hhalf : m.HasHalf a := h hl
    rw [PagedMemory.writeHalf_of_hasHalf value hhalf] at hrun
    refine ⟨s.cleaned a, m.setHalf a.toNat value, hrun, ⟨by simp, by simp, rfl⟩, fun b => ?_,
      fun b hev => ?_⟩
    · split
      · next hb => subst hb; exact s.line?_cleaned_self b
      · next hb => exact s.line?_cleaned_of_ne hb
    · split
      · next hb => subst hb; rw [hl, PagedMemory.halfAt_setHalf_self]; rfl
      · next hb => exact m.halfAt_setHalf_of_ne value hhalf.even hev hb

/-- Writing back the lines of a list changes the listed addresses, each as `writeBack` does. -/
theorem forM_writeBack_spec (order : List Address) {s : HalfwordCache} {m : PagedMemory}
    (h : s.Fits m) :
    ∃ s' m', order.forM writeBack (s, m) = .ok () (s', m') ∧ SameShape s m s' m' ∧
      (∀ b, s'.line? b = if b ∈ order then (s.line? b).map CacheLine.clean else s.line? b) ∧
      ∀ b, b % 2 = 0 → m'.halfAt b.toNat =
        if b ∈ order then CacheLine.writtenOver (s.line? b) (m.halfAt b.toNat)
        else m.halfAt b.toNat := by
  induction order generalizing s m with
  | nil => exact ⟨s, m, rfl, ⟨rfl, rfl, rfl⟩, fun b => by simp, fun b _ => by simp⟩
  | cons a rest ih =>
    obtain ⟨s₁, m₁, hrun₁, hshape₁, hline₁, hmem₁⟩ := writeBack_spec h a
    have hfits₁ : s₁.Fits m₁ := by
      intro b l hb
      rw [hline₁] at hb
      refine (PagedMemory.HasHalf.congr hshape₁.pageCount).2 ?_
      split at hb
      · obtain ⟨l', hl', -⟩ := Option.map_eq_some_iff.1 hb
        exact h hl'
      · exact h hb
    obtain ⟨s₂, m₂, hrun₂, hshape₂, hline₂, hmem₂⟩ := ih hfits₁
    refine ⟨s₂, m₂, ?_, hshape₁.trans hshape₂, fun b => ?_, fun b hev => ?_⟩
    · exact (bind_of_ok hrun₁).trans hrun₂
    · simp only [hline₂, hline₁, List.mem_cons]
      by_cases hb : b = a
      · subst hb; by_cases hr : b ∈ rest <;> simp [hr]
      · simp [hb]
    · simp only [hmem₂ b hev, hmem₁ b hev, hline₁, List.mem_cons]
      by_cases hb : b = a
      · subst hb; by_cases hr : b ∈ rest <;> simp [hr]
      · simp [hb]

/-- Dropping lines takes the lines at the listed addresses out. -/
theorem line?_drop (keys : List Address) (s : HalfwordCache) (b : Address) :
    (s.drop keys).line? b = if b ∈ keys then none else s.line? b := by
  induction keys generalizing s with
  | nil => simp [drop, line?]
  | cons a rest ih =>
    have hstep : s.drop (a :: rest) = (s.drop [a]).drop rest := rfl
    simp only [hstep, ih, List.mem_cons]
    by_cases hb : b = a
    · subst hb
      have hself : (s.drop [b]).line? b = none := s.lines.peek?_erase_self b
      simp [hself]
    · have hother : (s.drop [a]).line? b = s.line? b := s.lines.peek?_erase_of_ne hb
      simp [hb, hother]

/-- To drop lines leaves the capacity. -/
@[simp] theorem capacity_drop (keys : List Address) (s : HalfwordCache) :
    (s.drop keys).lines.capacity = s.lines.capacity := by
  induction keys generalizing s with
  | nil => rfl
  | cons a rest ih =>
    have hstep : s.drop (a :: rest) = (s.drop [a]).drop rest := rfl
    rw [hstep, ih]
    exact RecencyMap.capacity_erase ..

/-- The keys that a selector covers are those of the lines that it covers. -/
theorem mem_covered_iff {s : HalfwordCache} {selector : Selector} {b : Address} :
    b ∈ s.covered selector ↔ selector.covers b = true ∧ ∃ l, s.line? b = some l := by
  have hkeys : b ∈ s.lines.keys.filter selector.covers ↔
      selector.covers b = true ∧ ∃ l, s.line? b = some l := by
    rw [List.mem_filter, RecencyMap.mem_keys_iff, and_comm]
    rfl
  cases selector with
  | address a =>
    simp only [covered, Selector.covers, decide_eq_true_eq, ← contains_iff]
    split
    · next h =>
      rw [List.mem_singleton]
      exact ⟨fun e => ⟨e.symm, e ▸ h⟩, fun e => e.1.symm⟩
    · next h =>
      refine ⟨fun e => absurd e List.not_mem_nil, ?_⟩
      rintro ⟨rfl, e⟩
      exact absurd e h
  | page p => exact hkeys
  | range start length => exact hkeys
  | all => exact hkeys

/-- A release changes every address that its selector covers: a write-back tells memory the
value of a dirty line and cleans it, and a removal takes the line out. -/
theorem release_spec {s : HalfwordCache} {m : PagedMemory} (h : s.Fits m) (selector : Selector)
    (writeback remove : Bool) :
    ∃ s' m', release selector writeback remove (s, m) =
        .ok (s.covered selector).length (s', m') ∧ SameShape s m s' m' ∧
      (∀ b, s'.line? b =
        if selector.covers b then
          if remove then none
          else if writeback then (s.line? b).map CacheLine.clean else s.line? b
        else s.line? b) ∧
      ∀ b, b % 2 = 0 → m'.halfAt b.toNat =
        if selector.covers b ∧ writeback then CacheLine.writtenOver (s.line? b) (m.halfAt b.toNat)
        else m.halfAt b.toNat := by
  -- the keys that are covered are those of lines, and elsewhere a release does nothing
  have hcov : ∀ b, s.line? b ≠ none → (b ∈ s.covered selector ↔ selector.covers b = true) := by
    intro b hb
    rw [mem_covered_iff, and_iff_left (Option.ne_none_iff_exists'.1 hb)]
  cases writeback with
  | false =>
    cases remove with
    | false => exact ⟨s, m, rfl, ⟨rfl, rfl, rfl⟩, fun b => by simp, fun b _ => by simp⟩
    | true =>
      refine ⟨s.drop (s.covered selector), m, rfl, ⟨rfl, rfl, capacity_drop ..⟩, fun b => ?_,
        fun b _ => by simp⟩
      rw [line?_drop]
      by_cases hb : s.line? b = none
      · simp [hb]
      · simp [hcov b hb]
  | true =>
    obtain ⟨s₁, m₁, hrun, hshape, hline, hmem⟩ := forM_writeBack_spec (s.covered selector) h
    have hmem' : ∀ b, b % 2 = 0 → m₁.halfAt b.toNat =
        if selector.covers b then CacheLine.writtenOver (s.line? b) (m.halfAt b.toNat)
        else m.halfAt b.toNat := by
      intro b hev
      rw [hmem b hev]
      by_cases hb : s.line? b = none
      · simp [hb, CacheLine.writtenOver]
      · simp [hcov b hb]
    cases remove with
    | false =>
      refine ⟨s₁, m₁, ?_, hshape, fun b => ?_, fun b hev => by simpa using hmem' b hev⟩
      · exact (bind_of_ok hrun).trans rfl
      · rw [hline]
        by_cases hb : s.line? b = none
        · simp [hb]
        · simp [hcov b hb]
    | true =>
      refine ⟨s₁.drop (s.covered selector), m₁, ?_,
        hshape.trans ⟨rfl, rfl, capacity_drop ..⟩, fun b => ?_,
        fun b hev => by simpa using hmem' b hev⟩
      · exact (bind_of_ok hrun).trans rfl
      · rw [line?_drop, hline]
        by_cases hb : s.line? b = none
        · simp [hb]
        · by_cases hc : selector.covers b = true <;> simp [hcov b hb, hc]

/-- A release leaves lines only where there were lines. -/
theorem Fits.of_released {s s' : HalfwordCache} {m : PagedMemory} (h : s.Fits m)
    {selector : Selector} {writeback remove : Bool}
    (hline : ∀ b, s'.line? b =
      if selector.covers b then
        if remove then none
        else if writeback then (s.line? b).map CacheLine.clean else s.line? b
      else s.line? b) : s'.Fits m := by
  intro a l hl
  rw [hline] at hl
  split at hl
  · split at hl
    · cases hl
    · split at hl
      · obtain ⟨l', hl', -⟩ := Option.map_eq_some_iff.1 hl
        exact h hl'
      · exact h hl
  · exact h hl

end HalfwordCache

end Multicore
