import Multicore.Proofs.Machine.Sweep
import Multicore.Proofs.Machine.Runs

/-!
# Commands

A `Machine.Command` is what may be done with a machine from outside: one of its own operations,
which go through the cores in order, or an operation with one core. Whatever the command, it comes
to a run of operations (`Machine.Command.perform_eq`), in the order of the cores and with no core
twice (`Command.nodup_operations`). What holds along runs of operations therefore holds along runs
of commands.
-/

namespace Multicore

open Node

/-- What may be done with a machine. -/
inductive Machine.Command where
  | boot (states : List BootState)
  /-- Let one core go on from a snapshot of another. -/
  | copy (source target : Nat)
  /-- Let every running core execute an instruction. -/
  | round
  /-- Deliver a hardware interrupt to every core. -/
  | interruptAll (index : UInt32)
  | suspend
  | wake
  | halt (code : UInt32)
  /-- Do something with one core. -/
  | on (i : Nat) (op : Operation)

/-- The boots of cores from some core on that were never started, up to the first that was. -/
def Machine.boots (init : Nat → BootState) (cores : List Core) (first : Nat) :
    List (Nat × Operation) :=
  ((cores.zipIdx first).takeWhile fun x => x.1.state = .reset).map fun x => (x.2, .boot (init x.2))

namespace Machine.Command

variable {β : Type} [PhysicalMemory β]

/-- The machine after a command. A command that fails keeps what it has done by then. -/
def perform (m : Machine β) : Command → Machine β
  | .boot states => finalState (Machine.boot states) m
  | .copy source target => finalState (Machine.copyCore source target) m
  | .round => m.round.2
  | .interruptAll index => (m.interruptAll index).2
  | .suspend => m.suspend
  | .wake => m.wake
  | .halt code => m.halt code
  | .on i op => op.onMachine m i

/-- The machine after a list of commands. -/
def performAll (m : Machine β) (commands : List Command) : Machine β := commands.foldl perform m

/-- The operations that a command comes to, each with the number of its core. -/
def operations (m : Machine β) : Command → List (Nat × Operation)
  | .boot states =>
    if m.cores.length < states.length then []
    else Machine.boots (fun i => states.getD i default) (m.cores.take states.length) 0
  | .copy source target =>
    match m.cores[source]? with
    | none => []
    | some core => [(target, .restore core.snapshot)]
  | .round => m.eachCore (fun _ => true) .step
  | .interruptAll index => m.eachCore (fun _ => true) (.interrupt index)
  | .suspend => m.eachCore (fun _ => true) .suspend
  | .wake => m.eachCore (fun _ => true) .wake
  | .halt code => m.eachCore Core.isAlive (.halt code)
  | .on i op => [(i, op)]

end Machine.Command

namespace Machine

variable {β : Type} [PhysicalMemory β]

/-- Booting cores in order comes to the boots up to the first core that was booted before. -/
theorem finalState_forM_boot (init : Nat → BootState) (count first : Nat) (m : Machine β) :
    finalState ((List.range' first count).forM fun i => onCore i (Node.boot (init i))) m =
      Operation.runOn m (boots init ((m.cores.drop first).take count) first) := by
  induction count generalizing first m with
  | zero => rw [List.take_zero]; rfl
  | succ count ih =>
    have hforM : (List.range' first (count + 1)).forM (fun i => onCore i (Node.boot (init i))) =
        (onCore first (Node.boot (init first)) >>= fun _ =>
          (List.range' (first + 1) count).forM fun i => onCore i (Node.boot (init i)) :
          MachineM β PUnit) := rfl
    rw [hforM]
    -- the loop ends early where there is no further core, or one that was booted before
    rcases hn : m.node? first with _ | n
    · have hrun : onCore first (Node.boot (init first)) m = .error (.noSuchCore first) m := by
        rw [onCore, hn]
      have hcores : m.cores.drop first = [] := by
        rw [node?, Option.map_eq_none_iff, List.getElem?_eq_none_iff] at hn
        exact List.drop_eq_nil_of_le hn
      rw [finalState_of_error (bind_of_error hrun), hcores]
      rfl
    · obtain ⟨hcore, -⟩ := node?_eq_some_iff.1 hn
      have hdrop : m.cores.drop first = n.core :: m.cores.drop (first + 1) := by
        obtain ⟨hi, hget⟩ := List.getElem?_eq_some_iff.1 hcore
        rw [List.drop_eq_getElem_cons hi, hget]
      rw [hdrop, List.take_succ_cons, boots, List.zipIdx_cons]
      by_cases hreset : n.core.state = .reset
      · have hboot : Node.boot (init first) n =
            .ok () ((Operation.boot (init first)).perform m.platform n) := by
          simp [Operation.perform, Node.boot, finalState, hreset]
        have hrun : onCore first (Node.boot (init first)) m =
            .ok () ((Operation.boot (init first)).onMachine m first) := by
          rw [onMachine_of_some hn, onCore, hn]
          simp only [hboot]
        have hrest : ((Operation.boot (init first)).onMachine m first).cores.drop (first + 1) =
            m.cores.drop (first + 1) := by
          rw [onMachine_of_some hn]
          exact List.drop_set_of_lt (Nat.lt_succ_self first)
        rw [finalState_congr (bind_of_ok hrun), ih, hrest,
          List.takeWhile_cons_of_pos (by simp [hreset])]
        rfl
      · have hboot : Node.boot (init first) n =
            .error (.invalidState n.core.id .boot n.core.state) n := by
          rw [Node.boot, if_neg hreset]
        have hrun : onCore first (Node.boot (init first)) m =
            .error (.invalidState n.core.id .boot n.core.state) m := by
          rw [onCore, hn]
          simp only [hboot]
          rw [setNode_self hn]
        rw [finalState_of_error (bind_of_error hrun),
          List.takeWhile_cons_of_neg (by simp [hreset])]
        rfl

/-- What a restore leaves of a machine does not depend on whether it is refused. -/
theorem finalState_onCore_restore {i : Nat} (s : Snapshot) (m : Machine β) :
    finalState (onCore i (Node.restore m.platform s)) m = (Operation.restore s).onMachine m i := by
  unfold finalState onCore Operation.onMachine Operation.perform finalState
  rcases m.node? i with _ | n
  · rfl
  · dsimp only
    rcases Node.restore m.platform s n with ⟨a, n'⟩ | ⟨e, n'⟩
    · rfl
    · rfl

end Machine

namespace Machine.Command

variable {β : Type} [PhysicalMemory β]

/-- A command comes to a run of operations. -/
theorem perform_eq (m : Machine β) (c : Command) :
    c.perform m = Operation.runOn m (c.operations m) := by
  have heach (op : Operation) : (m.mapNodes fun n => op.perform m.platform n) =
      Operation.runOn m (m.eachCore (fun _ => true) op) :=
    Machine.mapNodes_eq_runOn m (fun _ => true) op
  cases c with
  | boot states =>
    simp only [operations]
    split
    · next hfew =>
      have hrun : Machine.boot states m =
          .error (.tooManyBootStates states.length m.cores.length) m := by
        simp only [Machine.boot, Machine.bootFirst, bind_get, if_pos hfew]
        rfl
      exact finalState_of_error hrun
    · next hmany =>
      have hrun : Machine.boot states m =
          (List.range' 0 states.length).forM
            (fun i => Machine.onCore i (Node.boot (states.getD i default))) m := by
        simp only [Machine.boot, Machine.bootFirst, bind_get, if_neg hmany,
          List.range_eq_range']
      have hboot := Machine.finalState_forM_boot (fun i => states.getD i default) states.length 0 m
      rw [List.drop_zero] at hboot
      exact (finalState_congr hrun).trans hboot
  | copy source target =>
    simp only [operations]
    split
    · next hnone =>
      have hrun : Machine.copyCore source target m = .error (.noSuchCore source) m := by
        simp only [Machine.copyCore, bind_get, hnone]
        rfl
      exact finalState_of_error hrun
    · next c hsome =>
      have hrun : Machine.copyCore source target m =
          Machine.onCore target (Node.restore m.platform c.snapshot) m := by
        simp only [Machine.copyCore, bind_get, hsome]
      exact (finalState_congr hrun).trans (Machine.finalState_onCore_restore _ m)
  | round => exact (Machine.sweep_snd _ m).trans (heach .step)
  | interruptAll index => exact (Machine.sweep_snd _ m).trans (heach (.interrupt index))
  | suspend => exact heach .suspend
  | wake => exact heach .wake
  | halt code => exact Machine.mapNodes_eq_runOn m Core.isAlive (.halt code)
  | on i op => rfl

omit [PhysicalMemory β] in
/-- A command does no more than one operation with each core. -/
theorem nodup_operations (m : Machine β) (c : Command) :
    ((c.operations m).map Prod.fst).Nodup := by
  have hnumbers (cores : List Core) (first : Nat) {l : List (Core × Nat)}
      (hl : l.Sublist (cores.zipIdx first)) (f : Core × Nat → Operation) :
      ((l.map fun x => (x.2, f x)).map Prod.fst).Nodup := by
    rw [List.map_map]
    refine ((hl.map Prod.snd).nodup ?_)
    rw [List.zipIdx_map_snd]
    exact List.nodup_range'
  cases c with
  | boot states =>
    simp only [operations]
    split
    · exact List.nodup_nil
    · exact hnumbers _ 0 (List.takeWhile_sublist _) _
  | copy source target =>
    simp only [operations]
    split
    · exact List.nodup_nil
    · exact List.pairwise_singleton _ _
  | on i op => exact List.pairwise_singleton _ _
  | _ => exact hnumbers _ 0 List.filter_sublist _

/-- A list of commands comes to a run of operations. -/
theorem exists_operations (m : Machine β) (commands : List Command) :
    ∃ ops, performAll m commands = Operation.runOn m ops := by
  induction commands generalizing m with
  | nil => exact ⟨[], rfl⟩
  | cons c rest ih =>
    obtain ⟨ops, hops⟩ := ih (c.perform m)
    refine ⟨c.operations m ++ ops, ?_⟩
    rw [Machine.runOn_append, ← perform_eq]
    exact hops

end Machine.Command

namespace Machine

variable {m : Machine PagedMemory} {i : Nat} {n' : Node PagedMemory}

/-- A core comes through a run in which no core has its turn twice as it is, or by one operation
on a sound node. -/
theorem Sound.exists_node_of_runOn (h : m.Sound) {ops : List (Nat × Operation)}
    (honce : (ops.map Prod.fst).Nodup) (hn' : (Operation.runOn m ops).node? i = some n') :
    ∃ n, m.node? i = some n ∧ (n'.core = n.core ∨
      ∃ op n₀, (i, op) ∈ ops ∧ n₀.Sound ∧ n₀.core = n.core ∧
        n'.core = (op.perform m.platform n₀).core) := by
  induction ops generalizing m with
  | nil => exact ⟨n', hn', .inl rfl⟩
  | cons first rest ih =>
    obtain ⟨j, op⟩ := first
    obtain ⟨hj, hrest⟩ := List.nodup_cons.1 (List.map_cons .. ▸ honce)
    obtain ⟨n₁, hn₁, hcase⟩ := ih (h.operation j op).1 hrest hn'
    rw [platform_onMachine] at hcase
    obtain ⟨n, hn, ⟨hji, hperform⟩ | ⟨hji, hcore⟩⟩ := exists_node?_of_onMachine (j, op) hn₁
    · refine ⟨n, hn, .inr ⟨op, n, ?_, h.nodes hn, rfl, ?_⟩⟩
      · rw [← show j = i from hji]
        exact List.mem_cons_self
      · obtain hcore | ⟨op', n₀, hmem, -⟩ := hcase
        · rw [hcore, hperform]
        · exact absurd (hji ▸ List.mem_map_of_mem hmem) hj
    · refine ⟨n, hn, ?_⟩
      obtain hcore' | ⟨op', n₀, hmem, hsound, hcore₀, hcore'⟩ := hcase
      · exact .inl (hcore'.trans hcore)
      · exact .inr ⟨op', n₀, List.mem_cons_of_mem _ hmem, hsound, hcore₀.trans hcore, hcore'⟩

/-- A core comes through a command as it is, or by one of the operations of the command. -/
theorem Sound.exists_node_of_perform (h : m.Sound) {c : Command}
    (hn' : (c.perform m).node? i = some n') :
    ∃ n, m.node? i = some n ∧ (n'.core = n.core ∨
      ∃ op n₀, (i, op) ∈ c.operations m ∧ n₀.Sound ∧ n₀.core = n.core ∧
        n'.core = (op.perform m.platform n₀).core) := by
  rw [c.perform_eq] at hn'
  exact h.exists_node_of_runOn (c.nodup_operations m) hn'

end Machine

end Multicore
