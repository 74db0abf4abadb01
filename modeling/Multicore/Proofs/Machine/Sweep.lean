import Multicore.Proofs.Machine.Coherence

/-!
# Sweeps over the cores

A sweep does something on every core in order, each time with what the cores before have left.
What holds of two machines and outlives a change on one core of both outlives a sweep over both
(`sweep_induction`). A sweep that does an operation with cores is a run of operations
(`mapNodes_eq_runOn`).
-/

namespace Multicore.Machine

variable {β α : Type} {f : Node β → α × Node β}

/-- A sweep goes from the first core to the others. -/
theorem sweepCores_cons (f : Node β → α × Node β) (core : Core) (rest : List Core)
    (shared : Shared β) :
    sweepCores f (core :: rest) shared =
      let first := f { shared with core }
      let others := sweepCores f rest first.2.toShared
      ((first.1 :: others.1.1, first.2.core :: others.1.2), others.2) :=
  rfl

/-- Where a sweep ends does not depend on its answers. -/
theorem sweep_snd (f : Node β → α × Node β) (m : Machine β) :
    (m.sweep f).2 = m.mapNodes fun n => (f n).2 := by
  have hcores : ∀ (cores : List Core) (shared : Shared β),
      (sweepCores f cores shared).1.2 =
          (sweepCores (fun n => ((), (f n).2)) cores shared).1.2 ∧
        (sweepCores f cores shared).2 =
          (sweepCores (fun n => ((), (f n).2)) cores shared).2 := by
    intro cores
    induction cores with
    | nil => exact fun _ => ⟨rfl, rfl⟩
    | cons core rest ih =>
      intro shared
      obtain ⟨hcores, hshared⟩ := ih (f { shared with core }).2.toShared
      exact ⟨congrArg (_ :: ·) hcores, hshared⟩
  obtain ⟨hcores, hshared⟩ := hcores m.cores m.toShared
  show ({ m with toShared := (sweepCores f m.cores m.toShared).2
                 cores := (sweepCores f m.cores m.toShared).1.2 } : Machine β) = _
  rw [hcores, hshared]
  rfl

/-- The machine in the middle of a sweep. -/
private def during (m : Machine β) (shared : Shared β) (done rest : List Core) : Machine β :=
  { m with toShared := shared, cores := done ++ rest }

/-- During a sweep the next core is the one behind those done. -/
private theorem node?_during (m : Machine β) (shared : Shared β) (done : List Core) (core : Core)
    (rest : List Core) :
    (m.during shared done (core :: rest)).node? done.length = some { shared with core } := by
  refine node?_eq_some_iff.2 ⟨?_, rfl⟩
  show (done ++ core :: rest)[done.length]? = some core
  rw [List.getElem?_append_right (Nat.le_refl _), Nat.sub_self]
  rfl

/-- Once it is done, it joins them. -/
private theorem setNode_during (m : Machine β) (shared : Shared β) (done : List Core) (core : Core)
    (rest : List Core) (n : Node β) :
    (m.during shared done (core :: rest)).setNode done.length n =
      m.during n.toShared (done ++ [n.core]) rest := by
  have hcores : (done ++ core :: rest).set done.length n.core = done ++ [n.core] ++ rest := by
    rw [List.set_append_right _ _ (Nat.le_refl _), Nat.sub_self, List.set_cons_zero,
      List.append_assoc, List.singleton_append]
  show ({ m with toShared := n.toShared
                 cores := (done ++ core :: rest).set done.length n.core } : Machine β) = _
  rw [hcores]
  rfl

/-- What holds of two machines, and still holds after something was done on a core of both,
holds after it was done on all of their cores. -/
theorem sweep_induction {γ : Type} {g : Node β → γ × Node β} {R : Machine β → Machine β → Prop}
    {q : α → Prop} {m₁ m₂ : Machine β}
    (hstep : ∀ {m₁ m₂ i n₁ n₂}, R m₁ m₂ → m₁.node? i = some n₁ → m₂.node? i = some n₂ →
      q (f n₁).1 → R (m₁.setNode i (f n₁).2) (m₂.setNode i (g n₂).2))
    (hlength : m₂.cores.length = m₁.cores.length) (h : R m₁ m₂)
    (hq : ∀ a ∈ (m₁.sweep f).1, q a) : R (m₁.sweep f).2 (m₂.sweep g).2 := by
  have hcores : ∀ (rest₁ rest₂ done₁ done₂ : List Core) (shared₁ shared₂ : Shared β),
      rest₂.length = rest₁.length → done₂.length = done₁.length →
      R (m₁.during shared₁ done₁ rest₁) (m₂.during shared₂ done₂ rest₂) →
      (∀ a ∈ (sweepCores f rest₁ shared₁).1.1, q a) →
      R (m₁.during (sweepCores f rest₁ shared₁).2 done₁ (sweepCores f rest₁ shared₁).1.2)
        (m₂.during (sweepCores g rest₂ shared₂).2 done₂ (sweepCores g rest₂ shared₂).1.2) := by
    -- The cores that are done count in the machines that `R` speaks of, so both parts vary.
    intro rest₁
    induction rest₁ with
    | nil =>
      intro rest₂ done₁ done₂ shared₁ shared₂ hrest _ h _
      obtain rfl := List.length_eq_zero_iff.1 hrest
      exact h
    | cons core₁ rest₁ ih =>
      rintro (_ | ⟨core₂, rest₂⟩) done₁ done₂ shared₁ shared₂ hrest hdone h hq
      · cases hrest
      · rw [sweepCores_cons] at hq
        have hnode₂ := node?_during m₂ shared₂ done₂ core₂ rest₂
        rw [hdone] at hnode₂
        have hset := hstep h (node?_during m₁ shared₁ done₁ core₁ rest₁) hnode₂
          (hq _ List.mem_cons_self)
        rw [setNode_during, ← hdone, setNode_during] at hset
        have hgo := ih rest₂ _ _ _ _ (Nat.succ.inj hrest) (by simp [hdone]) hset
          fun a ha => hq a (List.mem_cons_of_mem _ ha)
        rw [sweepCores_cons, sweepCores_cons]
        unfold during at hgo ⊢
        rw [List.append_assoc, List.append_assoc] at hgo
        exact hgo
  exact hcores m₁.cores m₂.cores [] [] m₁.toShared m₂.toShared hlength rfl h hq

/-- An operation with each core that passes a test, in order. -/
def eachCore (m : Machine β) (test : Core → Bool) (op : Operation) : List (Nat × Operation) :=
  (m.cores.zipIdx.filter fun x => test x.1).map fun x => (x.2, op)

/-- A core that is left alone leaves the machine as it is. -/
theorem setNode_self {m : Machine β} {i : Nat} {n : Node β} (hn : m.node? i = some n) :
    m.setNode i n = m := by
  obtain ⟨hcore, hshared⟩ := node?_eq_some_iff.1 hn
  have hcores : m.cores.set i n.core = m.cores := by
    obtain ⟨hi, hget⟩ := List.getElem?_eq_some_iff.1 hcore
    rw [← hget, List.set_getElem_self]
  rw [setNode, hcores, hshared]

variable [PhysicalMemory β]

/-- An operation that is done with a core is done with its node. -/
theorem onMachine_of_some {m : Machine β} {i : Nat} {n : Node β} (hn : m.node? i = some n)
    (op : Operation) : op.onMachine m i = m.setNode i (op.perform m.platform n) := by
  rw [Operation.onMachine, hn]

/-- A sweep that does an operation with the cores that pass a test is a run of operations. -/
theorem mapNodes_eq_runOn (m : Machine β) (test : Core → Bool) (op : Operation) :
    (m.mapNodes fun n => if test n.core then op.perform m.platform n else n) =
      Operation.runOn m (m.eachCore test op) := by
  have hrest : ∀ (rest done : List Core) (shared : Shared β),
      m.during (sweepCores (fun n => ((), if test n.core then op.perform m.platform n else n))
          rest shared).2 done
        (sweepCores (fun n => ((), if test n.core then op.perform m.platform n else n))
          rest shared).1.2 =
      Operation.runOn (m.during shared done rest)
        (((rest.zipIdx done.length).filter fun x => test x.1).map fun x => (x.2, op)) := by
    intro rest
    induction rest with
    | nil => exact fun _ _ => rfl
    | cons core rest ih =>
      intro done shared
      have hnode := node?_during m shared done core rest
      have hlength (c : Core) : (done ++ [c]).length = done.length + 1 := by simp
      rcases htest : test core with _ | _
      · -- The core is left alone, and the run has no operation with it.
        have hgo := ih (done ++ [core]) shared
        rw [hlength] at hgo
        rw [sweepCores_cons, List.zipIdx_cons, List.filter_cons_of_neg (by simp [htest])]
        simp only [htest, Bool.false_eq_true, if_false]
        unfold during at hgo ⊢
        rw [List.append_assoc, List.append_assoc] at hgo
        exact hgo
      · have hgo := ih (done ++ [(op.perform m.platform { shared with core }).core])
          (op.perform m.platform { shared with core }).toShared
        have hfirst := onMachine_of_some hnode op
        rw [setNode_during] at hfirst
        rw [hlength] at hgo
        rw [sweepCores_cons, List.zipIdx_cons, List.filter_cons_of_pos (by simp [htest])]
        simp only [htest, if_true, List.map_cons, Operation.runOn, List.foldl_cons]
        rw [hfirst]
        unfold during at hgo ⊢
        rw [List.append_assoc] at hgo
        exact hgo
  exact hrest m.cores [] m.toShared

end Multicore.Machine
