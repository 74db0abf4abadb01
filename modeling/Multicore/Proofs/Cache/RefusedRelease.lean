import Multicore.Memory.Scripted
import Multicore.Proofs.Cache.Thinning

/-!
# Releases that memory refuses

A release drops lines only when memory has taken all that it had to write back. If memory refuses a
line, the release stops there, with every line still in the cache, and a line that is no longer
dirty is in memory (`HalfwordCache.failed_release_keeps_lines`). So a cache whose release fails may
be left as it is. Nothing here depends on the order in which a release comes across the lines, and
of memory only that it writes halfwords, or refuses to (`PhysicalMemory.WritesHalves`).
-/

namespace Multicore

/-- What is seen of memory is its halfwords: a write changes that of its address and no other, and
one that is refused changes none. -/
structure PhysicalMemory.WritesHalves {β : Type} [PhysicalMemory β] (half : β → Address → UInt16) :
    Prop where
  taken : ∀ {a v memory memory'}, writeHalf a v memory = .ok () memory' →
    ∀ b, half memory' b = if b = a then v else half memory b
  refused : ∀ {a v memory memory' e}, writeHalf a v memory = .error e memory' →
    ∀ b, half memory' b = half memory b

/-- The halfword at an even address. -/
def PagedMemory.evenHalf (m : PagedMemory) (a : Address) : UInt16 :=
  if a % 2 = 0 then m.halfAt a.toNat else 0

/-- A paged memory has halfwords at even addresses, which are written one at a time. -/
theorem PagedMemory.writesHalves : PhysicalMemory.WritesHalves evenHalf where
  taken {a v m m'} h b := by
    change writeWith 2 a (bytesOfHalf v) m = _ at h
    unfold writeWith at h
    split at h
    · cases h
    · next hr =>
      cases h
      have ha := (refusal_eq_none_iff.1 hr).1
      by_cases hb : b = a
      · subst hb
        rw [if_pos rfl, evenHalf, if_pos ha]
        exact m.halfAt_setHalf_self b.toNat v
      · rw [if_neg hb, evenHalf, evenHalf]
        split
        · next heven => exact m.halfAt_setHalf_of_ne v ha heven hb
        · rfl
  refused {a v m m' e} h b := by
    change writeWith 2 a (bytesOfHalf v) m = _ at h
    unfold writeWith at h
    split at h
    · cases h
      rfl
    · cases h

/-- A memory that refuses what its rules say writes what it does not refuse. -/
theorem ScriptedMemory.writesHalves :
    PhysicalMemory.WritesHalves fun (m : ScriptedMemory) a => m.memory.evenHalf a where
  taken {a v m m'} h b := by
    change guarded .writeHalf a _ (PhysicalMemory.writeHalf a v) m = _ at h
    unfold guarded at h
    dsimp only at h
    split at h
    · cases h
    · split at h
      · next hw =>
        cases h
        exact PagedMemory.writesHalves.taken hw b
      · cases h
  refused {a v m m' e} h b := by
    change guarded .writeHalf a _ (PhysicalMemory.writeHalf a v) m = _ at h
    unfold guarded at h
    dsimp only at h
    split at h
    · cases h
      rfl
    · split at h
      · cases h
      · next hw =>
        cases h
        exact PagedMemory.writesHalves.refused hw b

namespace HalfwordCache

variable {β : Type} {half : β → Address → UInt16}

/-- Every line is still there, and one that is no longer dirty is in memory. What was in memory
already still is. -/
structure Saves (half : β → Address → UInt16) (t t' : HalfwordCache × β) : Prop where
  thinned : t.1.Thinned t'.1
  keys : t'.1.lines.keys = t.1.lines.keys
  dirty : ∀ {a v}, t.1.line? a = some ⟨true, v⟩ →
    t'.1.line? a = some ⟨true, v⟩ ∨ t'.1.line? a = some ⟨false, v⟩ ∧ half t'.2 a = v
  clean : ∀ {a v}, t.1.line? a = some ⟨false, v⟩ → half t'.2 a = half t.2 a

/-- What is saved twice is saved. -/
theorem chains_saves : Chains (Saves half) where
  refl t := ⟨.refl t.1, rfl, .inl, fun _ => rfl⟩
  trans h h' := by
    refine ⟨h.thinned.trans h'.thinned, h'.keys.trans h.keys, fun hl => ?_, fun hl => ?_⟩
    · rcases h.dirty hl with hdirty | ⟨hclean, hv⟩
      · exact h'.dirty hdirty
      · exact .inr ⟨h'.thinned.clean_of_keys_eq h'.keys hclean, (h'.clean hclean).trans hv⟩
    · exact (h'.clean (h.thinned.clean_of_keys_eq h.keys hl)).trans (h.clean hl)

variable [PhysicalMemory β]

/-- A write-back saves its line, or memory refuses it and the line stays dirty. -/
theorem saves_writeBack (hmem : PhysicalMemory.WritesHalves half) (a : Address) :
    Within (Saves half) (writeBack a : Run β Unit) := by
  rintro ⟨s, memory⟩
  have hthins := thins_writeBack a (s, memory)
  rcases writeBack_cases s memory a with ⟨hrun, -⟩ | ⟨v, hline, hrun⟩
  · rw [finalState_of_ok hrun]
    exact chains_saves.refl _
  · rcases hw : PhysicalMemory.writeHalf a v memory with ⟨_, memory'⟩ | ⟨e, memory'⟩
    · rw [hw] at hrun
      rw [finalState_of_ok hrun] at hthins ⊢
      have htaken := hmem.taken hw
      refine ⟨hthins, rfl, fun {b w} hl => ?_, fun {b w} hl => ?_⟩
      · by_cases hb : b = a
        · subst hb
          cases hline.symm.trans hl
          refine .inr ⟨?_, (htaken b).trans (if_pos rfl)⟩
          rw [line?_cleaned_self, hline]
          rfl
        · exact .inl ((s.line?_cleaned_of_ne hb).trans hl)
      · refine (htaken b).trans (if_neg ?_)
        rintro rfl
        cases hline.symm.trans hl
    · rw [hw] at hrun
      rw [finalState_of_error hrun] at hthins ⊢
      exact ⟨hthins, rfl, .inl, fun _ => hmem.refused hw _⟩

/-- A pass that fails stops at a dirty line that memory refused. -/
theorem refused_of_forM_error {order : List Address} {t t' : HalfwordCache × β} {e : MemoryError}
    (h : order.forM writeBack t = .error e t') : ∃ a ∈ order, ∃ v memory,
      t'.1.line? a = some ⟨true, v⟩ ∧ PhysicalMemory.writeHalf a v memory = .error e t'.2 := by
  induction order generalizing t with
  | nil => cases h
  | cons a rest ih =>
    rcases bind_eq_error_iff.1 h with hfirst | ⟨_, t₁, -, hrest⟩
    · obtain ⟨s, memory⟩ := t
      rcases writeBack_cases s memory a with ⟨hrun, -⟩ | ⟨v, hline, hrun⟩
      · cases hrun.symm.trans hfirst
      · rw [hrun] at hfirst
        split at hfirst
        · cases hfirst
        · next hw =>
          cases hfirst
          exact ⟨a, List.mem_cons_self, v, memory, hline, hw⟩
    · obtain ⟨b, hb, hrefused⟩ := ih hrest
      exact ⟨b, List.mem_cons_of_mem a hb, hrefused⟩

/-- A release fails only in writing back: by then it has dropped nothing. -/
theorem releaseInOrder_error_iff {order keys : List Address} {writeback remove : Bool}
    {t t' : HalfwordCache × β} {e : MemoryError} :
    releaseInOrder order keys writeback remove t = .error e t' ↔
      writeback = true ∧ order.forM writeBack t = .error e t' := by
  cases writeback with
  | false =>
    constructor
    · intro h
      cases remove <;> cases h
    · rintro ⟨h, -⟩
      cases h
  | true =>
    rw [releaseInOrder, if_pos rfl, bind_eq_error_iff]
    constructor
    · rintro (hwrite | ⟨_, t₁, -, hdrop⟩)
      · exact ⟨rfl, hwrite⟩
      · cases remove <;> cases hdrop
    · exact fun h => .inl h.2

/-- A release that fails in writing back, in whatever order it comes across the lines and wherever
it stops, has dropped no line and changed no value, and the lines were used in the same order as
before. A line that was dirty either still is, or memory has its value. It has stopped at a line
that is dirty and that memory refused. -/
theorem failed_release_keeps_lines (hmem : PhysicalMemory.WritesHalves half) {s s' : HalfwordCache}
    {memory memory' : β} {order : List Address} {selector : Selector} {remove : Bool}
    {e : MemoryError}
    (h : releaseThrough order selector true remove (s, memory) = .error e (s', memory')) :
    s'.lines.keys = s.lines.keys ∧
    (∀ a, (s'.line? a).map CacheLine.value = (s.line? a).map CacheLine.value) ∧
    (∀ a v, s.line? a = some ⟨true, v⟩ →
      s'.line? a = some ⟨true, v⟩ ∨ s'.line? a = some ⟨false, v⟩ ∧ half memory' a = v) ∧
    ∃ a v memory₁, selector.covers a = true ∧ s'.line? a = some ⟨true, v⟩ ∧
      PhysicalMemory.writeHalf a v memory₁ = .error e memory' := by
  have hrun : releaseInOrder (order.filter selector.covers) (s.covered selector) true remove
      (s, memory) = .error e (s', memory') := h
  have hpass := (releaseInOrder_error_iff.1 hrun).2
  have hsaves := chains_saves.forM (order.filter selector.covers)
    (saves_writeBack (β := β) hmem) (s, memory)
  rw [finalState_of_error hpass] at hsaves
  obtain ⟨a, ha, v, memory₁, hline, hrefused⟩ := refused_of_forM_error hpass
  exact ⟨hsaves.keys, hsaves.thinned.map_value_eq hsaves.keys, fun _ _ => hsaves.dirty,
    a, v, memory₁, (List.mem_filter.1 ha).2, hline, hrefused⟩

/-- Of two dirty lines the first that a release comes across, which was used last, is written back,
and memory refuses the other. Both are kept, and only the other is still dirty. -/
theorem lines_kept_by_failed_release :
    let memory : ScriptedMemory := ⟨.ofSize 256, [⟨.writeHalf, 2, 2, 0⟩]⟩
    let s := (finalState (do store 2 9; store 0 7 : Run ScriptedMemory Unit)
      (empty 4, memory)).1
    s.lines.keys = [2, 0] ∧ ∃ e s' memory',
      releaseThrough [0, 2] .all true true (s, memory) = .error e (s', memory') ∧
      s'.lines.keys = [2, 0] ∧ s'.line? 2 = some ⟨true, 9⟩ ∧ s'.line? 0 = some ⟨false, 7⟩ ∧
      memory'.memory.evenHalf 0 = 7 := by
  intro memory s
  have hkeys : s.lines.keys = [2, 0] := by decide +kernel
  have hzero : s.line? 0 = some ⟨true, 7⟩ := by decide +kernel
  obtain ⟨e, ⟨s', memory'⟩, hrun, hone, htwo⟩ := exists_of_error_any
    (r := releaseThrough [0, 2] .all true true (s, memory))
    (P := fun _ t => t.1.line? 0 = some ⟨false, 7⟩ ∧ t.1.line? 2 = some ⟨true, 9⟩)
    (by decide +kernel)
  obtain ⟨hkept, -, hsaved, -⟩ :=
    failed_release_keeps_lines ScriptedMemory.writesHalves hrun
  refine ⟨hkeys, e, s', memory', hrun, hkept.trans hkeys, htwo, hone, ?_⟩
  rcases hsaved 0 7 hzero with hdirty | ⟨-, hhalf⟩
  · cases hdirty.symm.trans hone
  · exact hhalf

end HalfwordCache

end Multicore
