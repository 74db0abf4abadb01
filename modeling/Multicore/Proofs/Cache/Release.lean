import Multicore.Proofs.Cache.Lines
import Multicore.Proofs.Cache.UseOrder

/-!
# Releases

A release writes back the dirty lines that its selector covers, in the order in which it comes
across them, and then drops the covered ones. On a paged memory it does just that, and in whatever
order it comes across the lines, it ends with the same cache and the same memory
(`HalfwordCache.release_is_exact`).
-/

namespace Multicore.HalfwordCache

open Std

/-! ## Lines in the order of their use -/

/-- The keys that a selector covers are listed in the order of their use, also where the selector
is a single address. -/
theorem covered_eq_filter (s : HalfwordCache) (selector : Selector) :
    s.covered selector = s.lines.keys.filter selector.covers := by
  cases selector with
  | address a =>
    show (if s.contains a.halfword then [a.halfword] else []) =
      s.lines.keys.filter fun key => decide (a.halfword = key)
    have hmem : a.halfword ∈ s.lines.keys ↔ s.contains a.halfword = true := by
      rw [RecencyMap.mem_keys_iff, contains_iff]
      rfl
    have hcomm : (fun key => decide (a.halfword = key)) = fun key => decide (key = a.halfword) :=
      funext fun key => decide_eq_decide.2 eq_comm
    rw [hcomm, List.filter_eq]
    split
    · next h =>
      rw [List.count_eq_one_of_mem s.lines.nodup_keys (hmem.2 h)]
      rfl
    · next h =>
      rw [List.count_eq_zero_of_not_mem fun e => h (hmem.1 e)]
      rfl
  | page p => rfl
  | range start length => rfl
  | all => rfl

/-- The entries of the map are the lines of the cache. -/
theorem mem_entries_iff {s : HalfwordCache} {a : Address} {l : CacheLine} :
    (a, l) ∈ s.lines.toList ↔ s.line? a = some l :=
  RecencyMap.mem_toList_iff

/-- The lines that are not dropped keep their order. -/
theorem entries_drop (keys : List Address) (s : HalfwordCache) :
    (s.drop keys).lines.toList = s.lines.toList.filter fun e => e.1 ∉ keys := by
  induction keys generalizing s with
  | nil => simp [drop]
  | cons a rest ih =>
    have hstep : s.drop (a :: rest) = (s.drop [a]).drop rest := rfl
    have hone : (s.drop [a]).lines.toList = s.lines.toList.filter fun e => e.1 ≠ a :=
      s.lines.toList_erase a
    rw [hstep, ih, hone, List.filter_filter]
    refine List.filter_congr fun e _ => ?_
    simp [Bool.and_comm]

section
variable {β : Type} [PhysicalMemory β]

/-- A release that comes across the lines of the cache in the given order. -/
def releaseThrough (order : List Address) (selector : Selector) (writeback remove : Bool) :
    Run β Nat := do
  let keys := (← get).1.covered selector
  releaseInOrder (order.filter selector.covers) keys writeback remove

/-- A release may come across the lines in the order of their use. -/
theorem release_eq_releaseThrough (selector : Selector) (writeback remove : Bool)
    (s : HalfwordCache) (memory : β) : release selector writeback remove (s, memory) =
      releaseThrough s.lines.keys selector writeback remove (s, memory) := by
  show releaseInOrder (s.covered selector) (s.covered selector) writeback remove (s, memory) =
    releaseInOrder (s.lines.keys.filter selector.covers) (s.covered selector) writeback remove
      (s, memory)
  rw [covered_eq_filter]

/-! ## Releases that succeed -/

/-- The lines at the listed addresses are clean, and all else is as before but for the count of
write-backs. -/
structure Settled (s : HalfwordCache) (order : List Address) (s' : HalfwordCache) : Prop where
  entries : s'.lines.toList =
    s.lines.toList.map fun e => (e.1, if e.1 ∈ order then e.2.clean else e.2)
  capacity : s'.lines.capacity = s.lines.capacity
  counts : (s'.hits, s'.misses, s'.evictions) = (s.hits, s.misses, s.evictions)
  writebacks : s'.writebacks = s.writebacks + order.countP fun a => (s.line? a).any CacheLine.dirty

omit [PhysicalMemory β] in
theorem Settled.refl (s : HalfwordCache) : s.Settled [] s where
  entries := by simp
  capacity := rfl
  counts := rfl
  writebacks := by simp

/-- Writing a line back settles its address and leaves the others alone. -/
theorem settled_writeBack {s s' : HalfwordCache} {memory memory' : β} {a : Address}
    (h : writeBack a (s, memory) = .ok () (s', memory')) :
    s.Settled [a] s' ∧ ∀ b, b ≠ a → s'.line? b = s.line? b := by
  rcases writeBack_cases s memory a with ⟨hrun, hclean⟩ | ⟨v, hline, hrun⟩
  · cases hrun.symm.trans h
    refine ⟨⟨?_, rfl, rfl, ?_⟩, fun b _ => rfl⟩
    · -- a line that is not dirty is clean already
      have hself : ∀ e ∈ s.lines.toList, (e.1, if e.1 ∈ [a] then e.2.clean else e.2) = e := by
        rintro ⟨b, ⟨_ | _, v⟩⟩ he
        · exact Prod.ext rfl (ite_self _)
        · have hb : b ∉ [a] := fun hb =>
            hclean v (List.mem_singleton.1 hb ▸ mem_entries_iff.1 he)
          rw [if_neg hb]
      exact ((List.map_congr_left hself).trans (List.map_id' _)).symm
    · rcases hline : s.line? a with _ | ⟨_ | _, v⟩
      · simp [hline]
      · simp [hline]
      · exact absurd hline (hclean v)
  · rw [hrun] at h
    have hs : s' = s.cleaned a := by
      split at h <;> cases h
      rfl
    rw [hs]
    refine ⟨⟨?_, rfl, rfl, by simp [cleaned, hline]⟩, fun b hb => s.line?_cleaned_of_ne hb⟩
    show (s.lines.adjust a CacheLine.clean).toList = _
    rw [RecencyMap.toList_adjust]
    simp only [List.mem_singleton]

/-- A pass over distinct addresses settles them all. -/
theorem settled_forM {order : List Address} (hnodup : order.Nodup) {s s' : HalfwordCache}
    {memory memory' : β} (h : order.forM writeBack (s, memory) = .ok () (s', memory')) :
    s.Settled order s' := by
  induction order generalizing s memory with
  | nil =>
    cases h
    exact .refl _
  | cons a rest ih =>
    obtain ⟨hfresh, hnodup⟩ := List.nodup_cons.1 hnodup
    obtain ⟨_, ⟨s₁, memory₁⟩, hfirst, hrest⟩ := of_bind_eq_ok h
    obtain ⟨h₁, hother⟩ := settled_writeBack hfirst
    have h₂ := ih hnodup hrest
    refine ⟨?_, h₂.capacity.trans h₁.capacity, h₂.counts.trans h₁.counts, ?_⟩
    · rw [h₂.entries, h₁.entries, List.map_map]
      refine List.map_congr_left fun e _ => ?_
      by_cases ha : e.1 = a <;> by_cases hr : e.1 ∈ rest <;> simp [ha, hr, CacheLine.clean]
    · have hcount : (rest.countP fun b => (s₁.line? b).any CacheLine.dirty) =
          rest.countP fun b => (s.line? b).any CacheLine.dirty := by
        refine List.countP_congr fun b hb => ?_
        rw [hother b fun e => hfresh (e ▸ hb)]
      rw [h₂.writebacks, h₁.writebacks, hcount]
      simp only [List.countP_cons, List.countP_nil]
      omega

/-- What a release comes to on a paged memory. The dirty lines that are covered are clean, and
memory has their values and is otherwise as before; then the covered lines are gone. The others keep
their values, their marks and their order. -/
structure Released (s : HalfwordCache) (m : PagedMemory) (selector : Selector)
    (writeback remove : Bool) (s' : HalfwordCache) (m' : PagedMemory) : Prop where
  entries : s'.lines.toList =
    (s.lines.toList.map fun e =>
      (e.1, if writeback && selector.covers e.1 then e.2.clean else e.2)).filter fun e =>
        !(remove && selector.covers e.1)
  capacity : s'.lines.capacity = s.lines.capacity
  counts : (s'.hits, s'.misses, s'.evictions) = (s.hits, s.misses, s.evictions)
  writebacks : s'.writebacks = s.writebacks +
    if writeback then s.lines.toList.countP fun e => selector.covers e.1 && e.2.dirty else 0
  written : ∀ a v, writeback = true → selector.covers a = true → s.line? a = some ⟨true, v⟩ →
    m'.halfAt a.toNat = v
  untouched : ∀ b : Address, (∀ v, writeback = true → selector.covers b.halfword = true →
    s.line? b.halfword ≠ some ⟨true, v⟩) → m'.byteAt b.toNat = m.byteAt b.toNat
  pages : (m'.pageCount, m'.allocated) = (m.pageCount, m.allocated)

end

section
variable {s s₁ s₂ : HalfwordCache} {m m₁ m₂ : PagedMemory} {selector : Selector}
  {writeback remove : Bool}

/-- Where its address lies decides whether a line is covered. -/
theorem mem_covered_of_mem {e : Address × CacheLine} (he : e ∈ s.lines.toList) :
    e.1 ∈ s.covered selector ↔ selector.covers e.1 = true := by
  rw [mem_covered_iff, and_iff_left ⟨e.2, mem_entries_iff.1 he⟩]

/-- A release that drops as well does so in the end. -/
theorem Released.drop (h : s.Released m selector writeback false s₁ m₁) :
    s.Released m selector writeback true (s₁.drop (s.covered selector)) m₁ where
  entries := by
    rw [entries_drop, h.entries, List.filter_filter]
    refine List.filter_congr fun e he => ?_
    obtain ⟨e₀, he₀, rfl⟩ := List.mem_map.1 he
    simp [mem_covered_of_mem he₀]
  capacity := (capacity_drop ..).trans h.capacity
  counts := h.counts
  writebacks := h.writebacks
  written := h.written
  untouched := h.untouched
  pages := h.pages

/-- In whatever order a pass comes across the lines, it writes the covered dirty ones back. -/
theorem exists_writtenBack (h : s.Fits m) {order : List Address}
    (horder : order.Perm s.lines.keys) (selector : Selector) (writeback : Bool) :
    ∃ s₁ m₁, (∀ keys remove, releaseInOrder (order.filter selector.covers) keys writeback remove
        (s, m) = .ok keys.length (if remove then s₁.drop keys else s₁, m₁)) ∧
      s.Released m selector writeback false s₁ m₁ := by
  cases writeback with
  | false =>
    refine ⟨s, m, fun keys remove => by cases remove <;> rfl, ?_⟩
    exact ⟨by simp, rfl, rfl, rfl, nofun, fun _ _ => rfl, rfl⟩
  | true =>
    obtain ⟨s₁, m₁, hrun, hshape, -, hmem⟩ :=
      forM_writeBack_spec (order.filter selector.covers) h
    have hnodup : (order.filter selector.covers).Nodup :=
      (horder.nodup_iff.2 s.lines.nodup_keys).filter _
    have hsettled := settled_forM hnodup hrun
    have hcovered : ∀ {a l}, s.line? a = some l →
        (a ∈ order.filter selector.covers ↔ selector.covers a = true) := by
      intro a l hl
      rw [List.mem_filter, horder.mem_iff]
      exact and_iff_right (RecencyMap.mem_keys_iff.2 ⟨l, hl⟩)
    refine ⟨s₁, m₁, fun keys remove => ?_, ⟨?_, hsettled.capacity, hsettled.counts, ?_, ?_, ?_, ?_⟩⟩
    · refine (bind_of_ok (x := (order.filter selector.covers).forM writeBack) hrun).trans ?_
      cases remove <;> rfl
    · have hall : ∀ l : List (Address × CacheLine),
          l.filter (fun e => !(false && selector.covers e.1)) = l := fun l => by simp
      rw [hall, hsettled.entries]
      refine List.map_congr_left fun e he => ?_
      by_cases hc : selector.covers e.1 = true
      · rw [if_pos ((hcovered (mem_entries_iff.1 he)).2 hc), if_pos (by simp [hc])]
      · rw [if_neg fun hm => hc ((hcovered (mem_entries_iff.1 he)).1 hm), if_neg (by simp [hc])]
    · -- the pass meets each line once
      rw [hsettled.writebacks, if_pos rfl, List.countP_filter, horder.countP_eq,
        ← RecencyMap.map_fst_toList, List.countP_map]
      refine congrArg _ (List.countP_congr fun e he => ?_)
      rw [Function.comp_apply, mem_entries_iff.1 he, Option.any_some, Bool.and_comm]
    · intro a v _ hc hl
      rw [hmem a (h hl).even, if_pos ((hcovered hl).2 hc), hl]
      rfl
    · intro b hb
      have hhalf : m₁.halfAt b.halfword.toNat = m.halfAt b.halfword.toNat := by
        rw [hmem _ (Address.halfword_even b)]
        rcases hl : s.line? b.halfword with _ | ⟨_ | _, v⟩
        · exact ite_self _
        · exact ite_self _
        · refine if_neg fun hm => ?_
          exact hb v rfl ((hcovered hl).1 hm) hl
      exact PagedMemory.byteAt_of_halfAt_eq hhalf
    · rw [hshape.pageCount, hshape.allocated]

/-- In whatever order a release comes across the lines, it does the same. -/
theorem exists_released (h : s.Fits m) {order : List Address} (horder : order.Perm s.lines.keys)
    (selector : Selector) (writeback remove : Bool) :
    ∃ s' m', releaseThrough order selector writeback remove (s, m) =
        .ok (s.lines.keys.countP selector.covers) (s', m') ∧
      s.Released m selector writeback remove s' m' := by
  obtain ⟨s₁, m₁, hrun, hreleased⟩ := exists_writtenBack h horder selector writeback
  have hcount : (s.covered selector).length = s.lines.keys.countP selector.covers := by
    rw [covered_eq_filter, List.countP_eq_length_filter]
  have hgo := hrun (s.covered selector) remove
  rw [hcount] at hgo
  cases remove with
  | false => exact ⟨s₁, m₁, hgo, hreleased⟩
  | true => exact ⟨_, m₁, hgo, hreleased.drop⟩

/-- Two caches have the same lines, used in the same order, the same capacity and the same counts.
-/
structure Same (s s' : HalfwordCache) : Prop where
  entries : s'.lines.toList = s.lines.toList
  capacity : s'.lines.capacity = s.lines.capacity
  counts : (s'.hits, s'.misses, s'.evictions, s'.writebacks) =
    (s.hits, s.misses, s.evictions, s.writebacks)

/-- What a release comes to is no matter of how it goes about it. -/
theorem Released.unique (h₁ : s.Released m selector writeback remove s₁ m₁)
    (h₂ : s.Released m selector writeback remove s₂ m₂) : s₁.Same s₂ ∧ m₁.SameContents m₂ := by
  have hcounts := h₂.counts.trans h₁.counts.symm
  simp only [Prod.mk.injEq] at hcounts
  refine ⟨⟨h₂.entries.trans h₁.entries.symm, h₂.capacity.trans h₁.capacity.symm, ?_⟩,
    fun b => ?_, h₂.pages.trans h₁.pages.symm⟩
  · simp only [Prod.mk.injEq]
    exact ⟨hcounts.1, hcounts.2.1, hcounts.2.2, h₂.writebacks.trans h₁.writebacks.symm⟩
  · by_cases hb : ∃ v, writeback = true ∧ selector.covers b.halfword = true ∧
        s.line? b.halfword = some ⟨true, v⟩
    · obtain ⟨v, hw, hc, hl⟩ := hb
      refine PagedMemory.byteAt_of_halfAt_eq ?_
      rw [h₁.written _ v hw hc hl, h₂.written _ v hw hc hl]
    · have hnone : ∀ v, writeback = true → selector.covers b.halfword = true →
          s.line? b.halfword ≠ some ⟨true, v⟩ := fun v hw hc hl => hb ⟨v, hw, hc, hl⟩
      rw [h₁.untouched b hnone, h₂.untouched b hnone]

/-- A release of a cache whose lines are halfwords of memory succeeds, and its answer is the number
of the keys that its selector covers. It does what it is told with the covered lines and nothing
else, and in whatever order it comes across the lines, it ends with the same cache and memory. -/
theorem release_is_exact (h : s.Fits m) (selector : Selector) (writeback remove : Bool) :
    ∃ s' m', release selector writeback remove (s, m) =
        .ok (s.lines.keys.countP selector.covers) (s', m') ∧
      s.Released m selector writeback remove s' m' ∧
      ∀ order : List Address, order.Perm s.lines.keys → ∃ s'' m'',
        releaseThrough order selector writeback remove (s, m) =
            .ok (s.lines.keys.countP selector.covers) (s'', m'') ∧
          s'.Same s'' ∧ m'.SameContents m'' := by
  obtain ⟨s', m', hrun, hreleased⟩ :=
    exists_released h (List.Perm.refl s.lines.keys) selector writeback remove
  rw [← release_eq_releaseThrough] at hrun
  refine ⟨s', m', hrun, hreleased, fun order horder => ?_⟩
  obtain ⟨s'', m'', hrun', hreleased'⟩ := exists_released h horder selector writeback remove
  exact ⟨s'', m'', hrun', hreleased.unique hreleased'⟩

/-- The address of the second byte of a halfword selects the halfword. The other line, which is
dirty as well, stays in the cache and out of memory. -/
theorem release_is_exact_of_odd_address :
    let m := PagedMemory.ofSize 256
    let s := (finalState (do store 0 7; store 6 9 : Run PagedMemory Unit) (empty 4, m)).1
    s.Fits m ∧ ∃ s' m', release (.address 1) true true (s, m) = .ok 1 (s', m') ∧
      s'.lines.toList = [(6, ⟨true, 9⟩)] ∧ s'.writebacks = 1 ∧ m'.halfAt 0 = 7 ∧
      m'.byteAt 6 = 0 := by
  intro m s
  have hentries : s.lines.toList = [(0, ⟨true, 7⟩), (6, ⟨true, 9⟩)] := by decide +kernel
  have hfits : s.Fits m := by
    intro a l hl
    have hmem := mem_entries_iff.2 hl
    simp only [hentries, List.mem_cons, Prod.mk.injEq, List.not_mem_nil, or_false] at hmem
    rcases hmem with ⟨rfl, -⟩ | ⟨rfl, -⟩
    · exact ⟨by decide, by decide⟩
    · exact ⟨by decide, by decide⟩
  have hcount : s.lines.keys.countP (Selector.address 1).covers = 1 := by decide +kernel
  obtain ⟨s', m', hrun, hreleased, -⟩ := release_is_exact hfits (.address 1) true true
  refine ⟨hfits, s', m', hcount ▸ hrun, ?_, ?_, ?_, ?_⟩
  · rw [hreleased.entries, hentries]
    rfl
  · rw [hreleased.writebacks, hentries]
    rfl
  · exact hreleased.written 0 7 rfl rfl (mem_entries_iff.1 (hentries ▸ List.mem_cons_self))
  · exact hreleased.untouched 6 fun _ _ hc => absurd hc (by decide)

end

end Multicore.HalfwordCache
