import Multicore.Proofs.Machine.Turns

/-!
# Unprivileged code is confined

With the standard instruction sets, the only way out of unprivileged mode is the entry of an
interrupt handler. Whatever memory holds and whatever the other cores do, a core that starts out
unprivileged stays confined, instruction after instruction and interrupt after interrupt, until one
of them enters a handler (`Machine.confined_until_entry`). A privileged instruction that it gets to
meanwhile is refused and kills it.
-/

namespace Multicore

open Node

namespace Node

variable {p : Platform} {n n' n₁ n₂ : Node PagedMemory}

/-- A turn of unprivileged code leaves it confined or enters a handler. -/
theorem Turn.confined_or_enters {op : Operation} (h : Turn p n op n')
    (hsets : p.sets = .standard) (hu : n.core.regs.flags.privileged = false) :
    n.core.Confined n'.core ∨ ∃ index v, Raises p n op index ∧
      PhysicalMemory.loadVector p.vectorTable index n.bus.memory = .ok v n.bus.memory ∧
      Enters v n.core n'.core := by
  cases h with
  | quiet _ guarded => exact .inl (guarded hsets hu)
  | call _ _ _ guarded => exact .inl (guarded hsets hu)
  | ret _ _ _ guarded => exact .inl (guarded hsets hu)
  | enter raises poised run _ core =>
    obtain ⟨v, hload, henters⟩ := poised.enters run core
    exact .inr ⟨_, v, raises, hload, henters⟩
  | leave _ privileged _ _ _ _ =>
    rw [privileged hsets] at hu
    cases hu
  | lost privileged _ =>
    rw [privileged hsets] at hu
    cases hu

/-- An unprivileged core that gets to a privileged instruction dies of it. -/
theorem step_of_refused {set : InstructionSet} {i : Instruction} (hr : n.core.isRunnable = true)
    (hu : n.core.regs.flags.privileged = false) (hset : p.sets[n.core.activeSet]? = some set)
    (hfetch : fetch set (n.core.codeAddress n.core.regs.ip) n = .ok i n₁)
    (hi : set.isPrivileged i = true) :
    (step p n).2 = (n₁.mapRegs fun regs => { regs with ip := n.core.regs.ip + 4 }).die
      (.accessViolation (.privilegedInstruction i)) := by
  have hu₁ : n₁.core.regs.flags.privileged = false := by
    have hquiet := quiet_fetch set (n.core.codeAddress n.core.regs.ip) n
    rw [finalState_of_ok hfetch] at hquiet
    exact (hquiet.confined hu).unprivileged
  rw [step_of_runnable hr, executeNext_of_some hset, bind_of_ok hfetch, carryOut_of_refused hi hu₁]
  rfl

end Node

namespace Machine

variable {m : Machine PagedMemory} {i : Nat} {n : Node PagedMemory}

/-- An unprivileged core after one operation: it is confined, or the operation was a turn of its
own that entered a handler. -/
theorem confined_or_enters (hsets : m.platform.sets = .standard) (hn : m.node? i = some n)
    (hu : n.core.regs.flags.privileged = false) (op : Nat × Operation)
    (hop : op.1 = i → op.2.isTurn = true) :
    ∃ n', (op.2.onMachine m op.1).node? i = some n' ∧
      (n.core.Confined n'.core ∨ op.1 = i ∧ ∃ index v, Raises m.platform n op.2 index ∧
        PhysicalMemory.loadVector m.platform.vectorTable index n.bus.memory =
          .ok v n.bus.memory ∧
        Enters v n.core n'.core) := by
  by_cases hi : op.1 = i
  · rw [hi]
    refine ⟨_, node?_onMachine_self hn op.2, ?_⟩
    obtain hc | henters := (Operation.turn (hop hi) m.platform n).confined_or_enters hsets hu
    · exact .inl hc
    · exact .inr ⟨rfl, henters⟩
  · obtain ⟨n', hn', hcore⟩ := node?_onMachine_of_ne hi hn op.2
    exact ⟨n', hn', .inl (by rw [hcore]; exact .refl hu)⟩

/-- Whatever memory holds and whatever the other cores do, an unprivileged core stays confined as
long as it executes instructions and gets hardware interrupts, or else one of them enters a handler
and it was confined until then. Whenever it gets to a privileged instruction in unprivileged mode,
it dies of it. -/
theorem confined_until_entry (hsets : m.platform.sets = .standard) (hn : m.node? i = some n)
    (hu : n.core.regs.flags.privileged = false) (ops : List (Nat × Operation))
    (hops : ∀ op ∈ ops, op.1 = i → op.2.isTurn = true) :
    ((∃ n', (Operation.runOn m ops).node? i = some n' ∧ n.core.Confined n'.core) ∨
      ∃ before op after n₁ n₂ index v, ops = before ++ (i, op) :: after ∧
        (Operation.runOn m before).node? i = some n₁ ∧ n.core.Confined n₁.core ∧
        (Operation.runOn m (before ++ [(i, op)])).node? i = some n₂ ∧
        Raises m.platform n₁ op index ∧
        PhysicalMemory.loadVector m.platform.vectorTable index n₁.bus.memory =
          .ok v n₁.bus.memory ∧
        Enters v n₁.core n₂.core) ∧
    ∀ before after n₁ set instruction n₂, ops = before ++ (i, .step) :: after →
      (Operation.runOn m before).node? i = some n₁ → n₁.core.isRunnable = true →
      n₁.core.regs.flags.privileged = false →
      m.platform.sets[n₁.core.activeSet]? = some set →
      fetch set (n₁.core.codeAddress n₁.core.regs.ip) n₁ = .ok instruction n₂ →
      set.isPrivileged instruction = true →
      (Operation.runOn m (before ++ [(i, .step)])).node? i =
        some ((n₂.mapRegs fun regs => { regs with ip := n₁.core.regs.ip + 4 }).die
          (.accessViolation (.privilegedInstruction instruction))) := by
  constructor
  -- up to the first entry the core is confined, and after it nothing is claimed
  · induction ops generalizing m n with
    | nil => exact .inl ⟨n, hn, .refl hu⟩
    | cons op rest ih =>
      obtain ⟨n', hn', hconfined | ⟨hi, index, v, hraises, hload, henters⟩⟩ :=
        confined_or_enters hsets hn hu op (hops op List.mem_cons_self)
      · have hsets' : (op.2.onMachine m op.1).platform.sets = .standard := by
          rw [platform_onMachine]
          exact hsets
        obtain ⟨n'', hn'', hc⟩ |
            ⟨before, op', after, n₁, n₂, index, v, hsplit, hn₁, hc, hn₂, hent⟩ :=
          ih hsets' hn' hconfined.unprivileged fun o ho => hops o (List.mem_cons_of_mem op ho)
        · exact .inl ⟨n'', hn'', hconfined.trans hc⟩
        · rw [platform_onMachine] at hent
          exact .inr ⟨op :: before, op', after, n₁, n₂, index, v, congrArg _ hsplit, hn₁,
            hconfined.trans hc, hn₂, hent⟩
      · obtain ⟨j, op⟩ := op
        cases hi
        exact .inr ⟨[], op, rest, n, n', index, v, rfl, hn, .refl hu, hn', hraises, hload, henters⟩
  · intro before after n₁ set instruction n₂ _ hn₁ hr hu₁ hset hfetch hi
    rw [runOn_append]
    refine (node?_onMachine_self hn₁ .step).trans ?_
    rw [platform_runOn]
    exact congrArg some (step_of_refused hr hu₁ hset hfetch hi)

/-- An unprivileged core at an instruction that would halt it: the core dies instead, confined. -/
theorem confined_until_entry_of_hlt :
    let m := Operation.runOn
      (Machine.new {} ((PagedMemory.ofSize 256).setBytes 0 (bytesOfWords [1])) 1 4 4 false)
      [(0, .boot ⟨0, 0, 256, 0, false⟩)]
    ∃ n n', m.node? 0 = some n ∧ n.core.regs.flags.privileged = false ∧
      n.core.isRunnable = true ∧
      (Operation.runOn m [(0, .step)]).node? 0 = some n' ∧ n.core.Confined n'.core ∧
      ∃ n₁ : Node PagedMemory, n' = n₁.die
        (.accessViolation (.privilegedInstruction (.hlt (.reg (.general 0))))) := by
  intro m
  obtain ⟨n, hn, hu, hr, hset, hfetch⟩ := exists_node_of_any (m := m) (i := 0)
    (P := fun n => n.core.regs.flags.privileged = false ∧ n.core.isRunnable = true ∧
      InstructionSets.standard[n.core.activeSet]? = some .base ∧
      (match fetch .base (n.core.codeAddress n.core.regs.ip) n with
        | .ok i _ => decide (i = .hlt (.reg (.general 0)))
        | .error .. => false) = true) (by decide +kernel)
  rcases hrun : fetch .base (n.core.codeAddress n.core.regs.ip) n with ⟨i, n₁⟩ | ⟨fault, n₁⟩
  · rw [hrun] at hfetch
    obtain rfl := of_decide_eq_true hfetch
    obtain ⟨hconfined, hrefused⟩ := confined_until_entry (i := 0) rfl hn hu [(0, .step)]
      (by simp [Operation.isTurn])
    have hdead := hrefused [] [] n .base _ n₁ rfl hn hr hu hset hrun rfl
    refine ⟨n, _, hn, hu, hr, hdead, ?_, _, rfl⟩
    obtain ⟨n', hn', hc⟩ | ⟨before, op, after, k, k', index, v, hsplit, hk, -, -, hraises, -⟩ :=
      hconfined
    · cases hdead.symm.trans hn'
      exact hc
    · rcases before with _ | ⟨b, before⟩
      · cases hsplit
        cases hn.symm.trans hk
        cases hraises with
        | software executes _ =>
          cases executes with
          | step hset' _ hfetch' =>
            cases hset.symm.trans hset'
            cases hrun.symm.trans hfetch'
      · simp at hsplit
  · rw [hrun] at hfetch
    cases hfetch

end Machine

end Multicore
