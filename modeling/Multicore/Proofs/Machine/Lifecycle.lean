import Multicore.Proofs.Core.Lifecycle
import Multicore.Proofs.Machine.Commands

/-!
# The lives of the cores of a machine

A machine is `Settled` if the nodes of all its cores are and nothing but its cores takes part in
the bus. Every operation keeps it so (`Machine.Settled.operation`), and with it every command.
The order of the stages of a core is a matter of single operations, and no command does two with
one core, so it holds from one command to the next (`Machine.Command.follows_perform`).
-/

namespace Multicore.Machine

open Node

/-- Whether a command restores a core. -/
def Command.Restores (i : Nat) : Command → Prop
  | .copy _ target => target = i
  | .on j (.restore _) => j = i
  | _ => False

/-- The nodes of all cores are settled, and what takes part in the bus is a core. -/
structure Settled (m : Machine PagedMemory) : Prop where
  nodes : ∀ {i n}, m.node? i = some n → n.Settled
  registered : ∀ {i}, m.bus.isRegistered i = true → i < m.cores.length

variable {m : Machine PagedMemory} {i : Nat} {n n' : Node PagedMemory} {core : Core}

/-! ## Operations -/

/-- A core has a node. -/
theorem exists_node_of_core (hc : m.cores[i]? = some core) :
    ∃ n, m.node? i = some n ∧ n.core = core :=
  ⟨{ m.toShared with core }, node?_eq_some_iff.2 ⟨hc, rfl⟩, rfl⟩

/-- A halted core stays as it is. -/
theorem core_runOn_of_halted (hc : m.cores[i]? = some core) (hs : core.state = .halted)
    (ops : List (Nat × Operation)) : (Operation.runOn m ops).cores[i]? = some core := by
  induction ops generalizing m with
  | nil => exact hc
  | cons op rest ih =>
    refine ih ?_
    obtain ⟨n, hn, rfl⟩ := exists_node_of_core hc
    by_cases hi : op.1 = i
    · subst hi
      have hn' := node?_onMachine_self hn op.2
      rw [Operation.perform_of_halted _ hs] at hn'
      exact (node?_eq_some_iff.1 hn').1
    · obtain ⟨n', hn', hcore⟩ := node?_onMachine_of_ne hi hn op.2
      exact hcore ▸ (node?_eq_some_iff.1 hn').1

/-- A machine that was just built is settled. -/
theorem settled_new (p : Platform) (memory : PagedMemory)
    (cores instructionCapacity dataCapacity : Nat) (recording : Bool) :
    (Machine.new p memory cores instructionCapacity dataCapacity recording).Settled := by
  refine ⟨fun {i n} hn => ?_, fun {i} hi => ?_⟩
  · have hcore := getElem?_cores_new p memory cores instructionCapacity dataCapacity recording
      (node?_eq_some_iff.1 hn).1
    refine .of_not_halted ?_ ?_ ?_ <;> rw [hcore]
    · nofun
    · rfl
    · rfl
  · simp [Machine.new, Bus.isRegistered] at hi

/-- What happens on a core keeps a machine settled if it keeps the node of that core settled and
spares the others. -/
theorem Settled.setNode (h : m.Settled) (hm : m.Sound) (hn : m.node? i = some n)
    (hs : n.Spares n') (hn' : n'.Settled) : (m.setNode i n').Settled := by
  obtain ⟨hc, hshared⟩ := node?_eq_some_iff.1 hn
  have hbus : n.bus = m.bus := congrArg Shared.bus hshared
  have hid : n.core.id = i := hm.ids hc
  have hlength : (m.setNode i n').cores.length = m.cores.length := List.length_set
  refine ⟨fun {j k} hk => ?_, fun {j} hj => ?_⟩
  · by_cases hji : j = i
    · subst hji
      cases (node?_setNode_self hn).symm.trans hk
      exact hn'
    · rw [node?_setNode_of_ne hji, Option.map_eq_some_iff] at hk
      obtain ⟨k₀, hk₀, rfl⟩ := hk
      obtain ⟨hc₀, hshared₀⟩ := node?_eq_some_iff.1 hk₀
      have hbus₀ : k₀.bus = n.bus := (congrArg Shared.bus hshared₀).trans hbus.symm
      have hne : k₀.core.id ≠ n.core.id := by
        rw [hm.ids hc₀, hid]
        exact hji
      have hsettled := h.nodes hk₀
      refine ⟨hsettled.exitCode, hsettled.lastFault, fun hhalted a l hl => ?_⟩
      -- A halted core takes no part in the bus, so what happens there spares its data cache.
      have habsent : n.bus.isRegistered k₀.core.id = false := by
        have hstate : k₀.core.state = .halted := hhalted
        rw [← hbus₀, (hm.nodes hk₀).registered, Core.isAlive, hstate]
        rfl
      have hstore : (n'.bus.store k₀.core.id).line? a = some l := hl
      rw [hs.absent hne habsent, ← hbus₀] at hstore
      exact hsettled.flushed hhalted a l hstore
  · rw [hlength]
    by_cases hji : j = i
    · subst hji
      exact (List.getElem?_eq_some_iff.1 hc).1
    · refine h.registered ?_
      rw [← hbus, ← hs.registered (hid ▸ hji)]
      exact hj

/-- Every operation keeps a machine settled. -/
theorem Settled.operation (h : m.Settled) (hm : m.Sound) (i : Nat) (op : Operation) :
    (op.onMachine m i).Settled := by
  rcases hn : m.node? i with _ | n
  · rw [Operation.onMachine, hn]
    exact h
  · rw [onMachine_of_some hn]
    exact h.setNode hm hn (Operation.perform_sound (hm.nodes hn) m.platform op).1
      ((h.nodes hn).perform (hm.nodes hn) m.platform op)

/-- Operations in any order keep a machine settled. -/
theorem Settled.runOn (h : m.Settled) (hm : m.Sound) (ops : List (Nat × Operation)) :
    (Operation.runOn m ops).Settled := by
  induction ops generalizing m with
  | nil => exact h
  | cons op rest ih => exact ih (h.operation hm op.1 op.2) (hm.operation op.1 op.2).1

/-! ## Commands -/

/-- A command that comes to a restore of a core restores it. -/
theorem Command.restores_of_mem {c : Command} {s : Snapshot}
    (h : (i, .restore s) ∈ c.operations m) : c.Restores i := by
  cases c with
  | boot states =>
    simp only [Command.operations] at h
    split at h
    · cases h
    · simp [boots] at h
  | copy source target =>
    simp only [Command.operations] at h
    split at h
    · cases h
    · exact (Prod.mk.inj (List.mem_singleton.1 h)).1.symm
  | on j op =>
    obtain ⟨rfl, rfl⟩ := Prod.mk.inj (List.mem_singleton.1 h)
    rfl
  | _ => simp [Command.operations, eachCore] at h

/-- From one command to the next, the stages of a core follow each other. -/
theorem Command.follows_perform (c : Command) (hm : m.Sound) (hc : m.cores[i]? = some core) :
    ∃ core', (c.perform m).cores[i]? = some core' ∧
      core.state.Follows (c.Restores i) core'.state := by
  obtain ⟨n, hn, rfl⟩ := exists_node_of_core hc
  obtain ⟨hi, -⟩ := List.getElem?_eq_some_iff.1 hc
  have hlength : (c.perform m).cores.length = m.cores.length := by
    rw [c.perform_eq, length_cores_runOn]
  have hcore' := List.getElem?_eq_getElem (hlength.symm ▸ hi)
  refine ⟨_, hcore', ?_⟩
  obtain ⟨n', hn', hcore⟩ := exists_node_of_core hcore'
  rw [← hcore]
  obtain ⟨k, hk, hsame | ⟨op, n₀, hmem, hsound, hcore₀, hperform⟩⟩ :=
    hm.exists_node_of_perform hn'
  · cases hn.symm.trans hk
    rw [hsame]
    exact .stay _
  · cases hn.symm.trans hk
    have hfollows := hsound.follows_perform m.platform op
    rw [hcore₀, ← hperform] at hfollows
    exact hfollows.mono fun ⟨s, hs⟩ => restores_of_mem (hs ▸ hmem)

/-- The exit code of a settled machine is the first that is not zero among those of its halted
cores. -/
theorem Settled.exitCode_eq (h : m.Settled) :
    m.exitCode = (((m.cores.filter fun c => c.state = .halted).map Core.exitCode).find?
      fun code => code ≠ 0).getD 0 := by
  have hcodes : ∀ c ∈ m.cores, c.exitCode ≠ 0 → c.state = .halted := by
    intro c hc
    obtain ⟨i, hi⟩ := List.getElem?_of_mem hc
    obtain ⟨n, hn, rfl⟩ := exists_node_of_core hi
    exact (h.nodes hn).exitCode
  have hfind : ∀ cores : List Core, (∀ c ∈ cores, c.exitCode ≠ 0 → c.state = .halted) →
      (cores.map Core.exitCode).find? (fun code => code ≠ 0) =
        ((cores.filter fun c => c.state = .halted).map Core.exitCode).find? fun code =>
          code ≠ 0 := by
    intro cores
    induction cores with
    | nil => exact fun _ => rfl
    | cons c rest ih =>
      intro hall
      have hrest := ih fun c hc => hall c (List.mem_cons_of_mem _ hc)
      by_cases hcode : c.exitCode = 0
      · rw [List.map_cons, List.find?_cons_of_neg (by simp [hcode]), hrest]
        by_cases hs : c.state = .halted
        · rw [List.filter_cons_of_pos (by simp [hs]), List.map_cons,
            List.find?_cons_of_neg (by simp [hcode])]
        · rw [List.filter_cons_of_neg (by simp [hs])]
      · rw [List.filter_cons_of_pos (by simp [hall c List.mem_cons_self hcode]), List.map_cons,
          List.map_cons, List.find?_cons_of_pos (by simp [hcode]),
          List.find?_cons_of_pos (by simp [hcode])]
  rw [exitCode, hfind m.cores hcodes]

/-- In every state that commands can bring a machine to, the cores that take part in the bus are
those that are running or suspended. Only a halted core has an exit code other than zero, so the
exit code of the machine is that of a halted core, and only a core that was halted with exit code 1
has a last fault. The data cache of a halted core has no dirty line, and the core stays as it is
whatever is done after. With the next command, a core stays in its stage, starts, is suspended,
woken or halted; it starts suspended only if it is restored. -/
theorem lifecycle_of_commands (p : Platform) (memory : PagedMemory)
    (cores instructionCapacity dataCapacity : Nat) (recording : Bool) (commands : List Command) :
    let m := Command.performAll
      (Machine.new p memory cores instructionCapacity dataCapacity recording) commands
    (∀ i, m.bus.isRegistered i = true ↔
      ∃ core, m.cores[i]? = some core ∧ (core.state = .running ∨ core.state = .suspended)) ∧
    (∀ i core, m.cores[i]? = some core →
      (core.exitCode ≠ 0 → core.state = .halted) ∧
      (core.lastFault ≠ none → core.state = .halted ∧ core.exitCode = 1) ∧
      (core.state = .halted →
        (∀ a l, (m.bus.store i).line? a = some l → l.dirty = false) ∧
        ∀ more, (Command.performAll m more).cores[i]? = some core)) ∧
    m.exitCode = (((m.cores.filter fun c => c.state = .halted).map Core.exitCode).find?
      fun code => code ≠ 0).getD 0 ∧
    ∀ (c : Command) (i : Nat) (core : Core), m.cores[i]? = some core →
      ∃ core', (c.perform m).cores[i]? = some core' ∧
      core.state.Follows (c.Restores i) core'.state := by
  intro m
  obtain ⟨ops, hops⟩ := Command.exists_operations
    (Machine.new p memory cores instructionCapacity dataCapacity recording) commands
  have hnew := sound_new p memory cores instructionCapacity dataCapacity recording
  have hm : m.Sound := by
    show (Command.performAll _ commands).Sound
    rw [hops]
    exact (hnew.runOn ops).1
  have hsettled : m.Settled := by
    show (Command.performAll _ commands).Settled
    rw [hops]
    exact (settled_new ..).runOn hnew ops
  refine ⟨fun i => ?_, fun i core hc => ?_, hsettled.exitCode_eq, fun c i core hc =>
    c.follows_perform hm hc⟩
  · have halive {core : Core} (hc : m.cores[i]? = some core) :
        m.bus.isRegistered i = true ↔ core.state = .running ∨ core.state = .suspended := by
      obtain ⟨n, hn, rfl⟩ := exists_node_of_core hc
      have hbus : n.bus = m.bus := congrArg Shared.bus (node?_eq_some_iff.1 hn).2
      have hregistered := (hm.nodes hn).registered
      rw [hbus, hm.ids hc] at hregistered
      rw [hregistered]
      exact Lifecycle.isAlive_iff
    refine ⟨fun hi => ?_, fun ⟨core, hc, hs⟩ => (halive hc).2 hs⟩
    have hc := List.getElem?_eq_getElem (hsettled.registered hi)
    exact ⟨_, hc, (halive hc).1 hi⟩
  · obtain ⟨n, hn, rfl⟩ := exists_node_of_core hc
    have hbus : n.bus = m.bus := congrArg Shared.bus (node?_eq_some_iff.1 hn).2
    have hend := hsettled.nodes hn
    refine ⟨hend.exitCode, hend.lastFault, fun hs => ⟨fun a l hl => ?_, fun more => ?_⟩⟩
    · refine hend.flushed hs a l ?_
      rw [hbus, hm.ids hc]
      exact hl
    · obtain ⟨ops', hops'⟩ := Command.exists_operations m more
      rw [hops']
      exact core_runOn_of_halted hc hs ops'

end Multicore.Machine
