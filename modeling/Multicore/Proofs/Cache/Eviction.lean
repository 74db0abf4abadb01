import Multicore.Memory.Scripted
import Multicore.Proofs.Cache.Lines

/-!
# Evictions that memory refuses

A line that is put into a full cache takes the place of the oldest one, and a dirty line is
written to memory when it goes. It is out of the cache by then: if memory refuses the write, the
value is in neither (`HalfwordCache.failed_insertion_loses_oldest`). Nothing here depends on what
memory it is.
-/

namespace Multicore.HalfwordCache

variable {β : Type} [PhysicalMemory β]

/-! ## Insertions -/

/-- A line that is put in at `a` has no room until the line of the oldest key, `victim`, goes. -/
structure Evicts (s : HalfwordCache) (a victim : Address) (old : CacheLine) : Prop where
  absent : s.line? a = none
  full : s.lines.capacity ≤ s.size
  oldest : s.lines.oldest? = some victim
  line : s.line? victim = some old

/-- The line at `a` is as given, that of the victim, if there is one, is gone, and all others are
as before. -/
structure Replaces (s : HalfwordCache) (a : Address) (line : CacheLine) (victim : Option Address)
    (s' : HalfwordCache) : Prop where
  taken : s'.line? a = some line
  gone : ∀ v ∈ victim, s'.line? v = none
  kept : ∀ b, b ≠ a → victim ≠ some b → s'.line? b = s.line? b

/-- Only one line can have to go. -/
theorem Evicts.unique {s : HalfwordCache} {a victim victim' : Address} {old old' : CacheLine}
    (h : s.Evicts a victim old) (h' : s.Evicts a victim' old') : victim' = victim ∧ old' = old := by
  cases h.oldest.symm.trans h'.oldest
  cases h.line.symm.trans h'.line
  exact ⟨rfl, rfl⟩

/-- What an insertion comes to: there is room for the line, or else the oldest one goes, and if it
is dirty, the insertion comes to what memory makes of the write-back. -/
theorem insert_cases (s : HalfwordCache) (memory : β) (a : Address) (line : CacheLine) :
    (∃ s', insert a line (s, memory) = .ok () (s', memory) ∧ s.Replaces a line none s' ∧
      ∀ victim old, ¬ s.Evicts a victim old) ∨
    ∃ victim old s', s.Evicts a victim old ∧ s.Replaces a line (some victim) s' ∧
      insert a line (s, memory) =
        match if old.dirty then PhysicalMemory.writeHalf victim old.value memory
          else .ok () memory with
        | .ok _ memory => .ok () (s', memory)
        | .error e memory => .error e (s', memory) := by
  have htaken := s.lines.peek?_insert_self a line
  have hother : ∀ b, b ≠ a → _ := fun b => s.lines.peek?_insert_of_ne line
  have hout : ∀ k w, (s.lines.insert a line).1 = some (k, w) ↔ _ := fun k w =>
    RecencyMap.insert_fst_eq_some_iff
  have hgone : ∀ k w, (s.lines.insert a line).1 = some (k, w) → _ := fun k w =>
    RecencyMap.of_insert_fst
  dsimp only [insert]
  generalize s.lines.insert a line = r at *
  obtain ⟨_ | ⟨victim, old⟩, lines⟩ := r
  · refine .inl ⟨{ s with lines }, rfl, ⟨htaken, nofun, fun b hb _ => ?_⟩, ?_⟩
    · rcases hother b hb with hkept | ⟨w, -, hw⟩
      · exact hkept
      · cases hw
    · rintro victim old ⟨habsent, hfull, holdest, hline⟩
      cases (hout victim old).2 ⟨habsent, hfull, holdest, hline⟩
  · -- the map is without the victim already, whatever memory makes of the write-back
    obtain ⟨habsent, hfull, holdest, hline⟩ := (hout victim old).1 rfl
    have hreplaces : ∀ evictions writebacks, s.Replaces a line (some victim)
        { s with lines, evictions, writebacks } := fun _ _ => by
      refine ⟨htaken, fun v hv => ?_, fun b hb hv => ?_⟩
      · cases hv
        exact (hgone _ old rfl).2.2.2
      · rcases hother b hb with hkept | ⟨w, -, hw⟩
        · exact hkept
        · cases hw
          exact absurd rfl hv
    obtain ⟨_ | _, value⟩ := old
    · exact .inr ⟨victim, _, _, ⟨habsent, hfull, holdest, hline⟩, hreplaces _ s.writebacks, rfl⟩
    · exact .inr ⟨victim, _, _, ⟨habsent, hfull, holdest, hline⟩, hreplaces _ _, rfl⟩

/-- An insertion fails exactly if the oldest line has to go, is dirty, and is refused by memory. -/
theorem insert_error_iff {s : HalfwordCache} {memory memory' : β} {a : Address} {line : CacheLine}
    {e : MemoryError} :
    (∃ s', insert a line (s, memory) = .error e (s', memory')) ↔
      ∃ victim value, s.Evicts a victim ⟨true, value⟩ ∧
        PhysicalMemory.writeHalf victim value memory = .error e memory' := by
  obtain ⟨s₁, hrun, -, hroom⟩ | ⟨victim, ⟨dirty, value⟩, s₁, hevicts, -, hrun⟩ :=
    insert_cases s memory a line
  · rw [hrun]
    constructor
    · rintro ⟨s', h⟩
      cases h
    · rintro ⟨victim, value, hevicts, -⟩
      exact absurd hevicts (hroom _ _)
  · rw [hrun]
    constructor
    · rintro ⟨s', h⟩
      cases dirty with
      | false => cases h
      | true =>
        refine ⟨victim, value, hevicts, ?_⟩
        simp only [if_true] at h
        split at h
        · cases h
        · next hwrite => cases h; exact hwrite
    · rintro ⟨victim', value', hevicts', hwrite⟩
      obtain ⟨rfl, hold⟩ := hevicts.unique hevicts'
      cases hold
      exact ⟨s₁, by simp only [if_true, hwrite]⟩

/-- What becomes of the lines when an insertion fails: that of the victim is gone. -/
theorem replaces_of_error {s s' : HalfwordCache} {memory memory' : β} {a : Address}
    {line : CacheLine} {e : MemoryError} (h : insert a line (s, memory) = .error e (s', memory')) :
    ∃ victim value, s.Evicts a victim ⟨true, value⟩ ∧ s.Replaces a line (some victim) s' := by
  obtain ⟨s₁, hrun, -, -⟩ | ⟨victim, ⟨dirty, value⟩, s₁, hevicts, hreplaces, hrun⟩ :=
    insert_cases s memory a line
  · cases hrun.symm.trans h
  · rw [hrun] at h
    cases dirty with
    | false => cases h
    | true =>
      split at h
      · cases h
      · cases h
        exact ⟨victim, value, hevicts, hreplaces⟩

/-- An insertion that succeeds loses no dirty line: it is still there, or memory took its value. -/
theorem dirty_of_ok {s s' : HalfwordCache} {memory memory' : β} {a b : Address}
    {line : CacheLine} {old : UInt16} (h : insert a line (s, memory) = .ok () (s', memory'))
    (hb : b ≠ a) (hdirty : s.line? b = some ⟨true, old⟩) :
    s'.line? b = some ⟨true, old⟩ ∨
      s'.line? b = none ∧ PhysicalMemory.writeHalf b old memory = .ok () memory' := by
  obtain ⟨s₁, hrun, hreplaces, -⟩ | ⟨victim, l, s₁, hevicts, hreplaces, hrun⟩ :=
    insert_cases s memory a line
  · cases hrun.symm.trans h
    exact .inl ((hreplaces.kept b hb nofun).trans hdirty)
  · rw [hrun] at h
    by_cases hv : b = victim
    · subst hv
      cases hevicts.line.symm.trans hdirty
      simp only [if_true] at h
      split at h
      · next hwrite => cases h; exact .inr ⟨hreplaces.gone b rfl, hwrite⟩
      · cases h
    · have hs' : s' = s₁ := by
        split at h <;> cases h
        rfl
      rw [hs']
      exact .inl ((hreplaces.kept b hb fun e => hv (Option.some.inj e).symm).trans hdirty)

/-! ## Fills and stores -/

/-- Take in a value that memory knows, or one that it does not know yet. -/
def receive (dirty : Bool) (a : Address) (value : UInt16) : Run β Unit :=
  if dirty then store a value else fill a value

/-- A fill or a store is an insertion into a cache with the same lines. -/
theorem receive_eq (dirty : Bool) (a : Address) (value : UInt16) (s : HalfwordCache) (memory : β) :
    ∃ misses, receive dirty a value (s, memory) =
      insert a ⟨dirty, value⟩ ({ s with misses }, memory) := by
  cases dirty with
  | false => exact ⟨s.misses + 1, rfl⟩
  | true => exact ⟨s.misses, rfl⟩

omit [PhysicalMemory β] in
/-- What is evicted does not depend on the count of misses. -/
theorem evicts_misses_iff {s : HalfwordCache} {misses : Nat} {a victim : Address}
    {old : CacheLine} :
    ({ s with misses } : HalfwordCache).Evicts a victim old ↔ s.Evicts a victim old :=
  ⟨fun h => ⟨h.absent, h.full, h.oldest, h.line⟩, fun h => ⟨h.absent, h.full, h.oldest, h.line⟩⟩

/-- A fill or a store fails exactly if the oldest line has to go, is dirty, and is refused by
memory. That line is lost then: memory is as the refusal left it, and in the cache the new line has
taken the place of the old one, with all others as before. One that succeeds loses no dirty line. -/
theorem failed_insertion_loses_oldest (s : HalfwordCache) (memory : β) (dirty : Bool) (a : Address)
    (value : UInt16) :
    (∀ e memory', (∃ s', receive dirty a value (s, memory) = .error e (s', memory')) ↔
      ∃ victim old, s.Evicts a victim ⟨true, old⟩ ∧
        PhysicalMemory.writeHalf victim old memory = .error e memory') ∧
    (∀ e s' memory', receive dirty a value (s, memory) = .error e (s', memory') →
      ∃ victim old, s.Evicts a victim ⟨true, old⟩ ∧
        s.Replaces a ⟨dirty, value⟩ (some victim) s') ∧
    ∀ s' memory', receive dirty a value (s, memory) = .ok () (s', memory') →
      ∀ b old, b ≠ a → s.line? b = some ⟨true, old⟩ →
        s'.line? b = some ⟨true, old⟩ ∨
          s'.line? b = none ∧ PhysicalMemory.writeHalf b old memory = .ok () memory' := by
  obtain ⟨misses, hrun⟩ := receive_eq dirty a value s memory
  rw [hrun]
  refine ⟨fun e memory' => ?_, fun e s' memory' h => ?_, fun s' memory' h b old hb hdirty => ?_⟩
  · simp only [insert_error_iff, evicts_misses_iff]
  · obtain ⟨victim, old, hevicts, hreplaces⟩ := replaces_of_error h
    exact ⟨victim, old, evicts_misses_iff.1 hevicts, hreplaces.taken, hreplaces.gone,
      hreplaces.kept⟩
  · exact dirty_of_ok h hb hdirty

/-- A cache of one line has the only copy of a value, and a fill of another halfword fails since
memory refuses the value. Then neither the cache nor memory, in which nothing changed, has it. -/
theorem dirty_line_lost_by_failed_fill :
    let memory : ScriptedMemory := ⟨.ofSize 256, [⟨.writeHalf, 0, 0, 0⟩]⟩
    let s := (finalState (store 0 7) (empty 1, memory)).1
    s.line? 0 = some ⟨true, 7⟩ ∧
      PhysicalMemory.writeHalf 0 7 memory = .error (.outOfBounds 0 2) memory ∧
      ∃ s', fill 2 0 (s, memory) = .error (.outOfBounds 0 2) (s', memory) ∧
        s'.line? 0 = none ∧ memory.memory.halfAt 0 = 0 := by
  intro memory s
  have hline : s.line? 0 = some ⟨true, 7⟩ := by decide +kernel
  have hrefused : PhysicalMemory.writeHalf 0 7 memory = .error (.outOfBounds 0 2) memory := rfl
  have hevicts : s.Evicts 2 0 ⟨true, 7⟩ := by
    refine ⟨by decide +kernel, by decide +kernel, ?_, hline⟩
    rw [RecencyMap.oldest?_eq_head?_keys]
    decide +kernel
  obtain ⟨s', hrun⟩ := insert_error_iff.2 ⟨0, 7, evicts_misses_iff.2 hevicts, hrefused⟩
  refine ⟨hline, hrefused, s', hrun, ?_, by decide +kernel⟩
  obtain ⟨victim, old, hevicts', hreplaces⟩ := replaces_of_error hrun
  obtain ⟨rfl, -⟩ := hevicts.unique (evicts_misses_iff.1 hevicts')
  exact hreplaces.gone 0 rfl

end Multicore.HalfwordCache
