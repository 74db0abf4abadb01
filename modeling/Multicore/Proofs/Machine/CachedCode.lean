import Multicore.Proofs.Core.Faults
import Multicore.Proofs.Core.Lifecycle
import Multicore.Proofs.Machine.CodeStores

/-!
# Cached code

An instruction cache is keyed by addresses alone, and what it holds was decoded by some instruction
set. Whatever a core does, it either leaves its instruction set alone or drops every cached
instruction (`Core.KeepsCode`), except that the fetch at the start of a step may take one
instruction in (`Node.Fills`). So every cached instruction was decoded by the set that is active
now, from a word that memory had when it was taken in (`Machine.takenIn_of_cached`), and a step
gives a dialect only instructions that belong to it (`Machine.cached_code_of_active_set`).
-/

namespace Multicore

open Node

/-! ## What a core keeps of its code -/

/-- What is cached was cached before, under the instruction set that is active still, and another
set is active only if it is installed. -/
structure Core.KeepsCode (p : Platform) (c c' : Core) : Prop where
  cached : ∀ a i, c'.fetched.entries.peek? a = some i →
    c.fetched.entries.peek? a = some i ∧ c'.activeSet = c.activeSet
  installed : c'.activeSet = c.activeSet ∨ p.sets.contains c'.activeSet = true

/-- The active set is installed, or it is the base set, with which every core starts. -/
def Core.SetInstalled (p : Platform) (c : Core) : Prop :=
  c.activeSet = InstructionSet.base.id ∨ p.sets.contains c.activeSet = true

namespace Core.KeepsCode

variable {p : Platform} {c c' c'' : Core}

/-- A change that has nothing to do with the code. -/
theorem of_eq (hfetched : c'.fetched = c.fetched) (hset : c'.activeSet = c.activeSet) :
    c.KeepsCode p c' := by
  refine ⟨fun a i hi => ⟨?_, hset⟩, .inl hset⟩
  rw [← hfetched]
  exact hi

theorem refl (c : Core) : c.KeepsCode p c := of_eq rfl rfl

/-- Code that is kept twice is kept. -/
theorem trans (h : c.KeepsCode p c') (h' : c'.KeepsCode p c'') : c.KeepsCode p c'' := by
  constructor
  · intro a i hi
    obtain ⟨hcached', hset'⟩ := h'.cached a i hi
    obtain ⟨hcached, hset⟩ := h.cached a i hcached'
    exact ⟨hcached, hset'.trans hset⟩
  · rcases h'.installed with hset' | hinstalled
    · rw [hset']
      exact h.installed
    · exact .inr hinstalled

/-- The active set stays installed. -/
theorem setInstalled (h : c.KeepsCode p c') (hc : c.SetInstalled p) : c'.SetInstalled p := by
  rcases h.installed with hset | hinstalled
  · rw [SetInstalled, hset]
    exact hc
  · exact .inr hinstalled

end Core.KeepsCode

namespace Node

variable {p : Platform} {n n' : Node PagedMemory}

/-- Of the effects only the selection of an instruction set concerns the code, and it drops every
cached instruction. -/
theorem Effect.keepsCode (e : Effect p n n') : n.core.KeepsCode p n'.core := by
  cases e with
  | select id h =>
    refine ⟨fun a i hi => ?_, .inr h⟩
    have hnone : n.core.fetched.clear.entries.peek? a = none := RecencyMap.peek?_clear _ a
    cases hnone.symm.trans hi
  | vector table index =>
    rw [finalState_loadVector]
    exact .refl n.core
  | allocate segment =>
    rw [core_allocatePage segment n]
    exact .refl n.core
  | free page =>
    rw [core_freePage page n]
    exact .refl n.core
  | regs f => exact .of_eq rfl rfl
  | frames l => exact .of_eq rfl rfl
  | interrupts l => exact .of_eq rfl rfl
  | math s => exact .of_eq rfl rfl
  | load width a => exact .refl n.core
  | store width a v => exact .refl n.core
  | drop page => exact .refl n.core
  | record e => exact .refl n.core
  | tally index count => exact .refl n.core

/-- Any number of effects keep the code: the only one that selects a set clears the cache. -/
theorem Effects.keepsCode (e : Effects p n n') : n.core.KeepsCode p n'.core := by
  induction e with
  | refl => exact .refl n.core
  | tail _ e ih => exact ih.trans e.keepsCode

/-- A suspended core keeps its code. -/
theorem keepsCode_suspend (n : Node PagedMemory) : n.core.KeepsCode p n.suspend.core := by
  obtain ⟨state, hcore⟩ := core_suspend n
  rw [hcore]
  exact .of_eq rfl rfl

/-- A woken core keeps its code. -/
theorem keepsCode_wake (n : Node PagedMemory) : n.core.KeepsCode p n.wake.core := by
  obtain ⟨state, hcore⟩ := core_wake n
  rw [hcore]
  exact .of_eq rfl rfl

/-- A halted core keeps its code. -/
theorem keepsCode_halt (n : Node PagedMemory) (code : UInt32) :
    n.core.KeepsCode p (n.halt code).core := by
  unfold Node.halt
  split
  · exact .refl n.core
  · simp only [record, core_setState]
    exact .of_eq rfl rfl

/-- A core that dies keeps its code. -/
theorem keepsCode_die (n : Node PagedMemory) (fault : Fault) :
    n.core.KeepsCode p (n.die fault).core := by
  unfold Node.die
  split
  · exact .refl n.core
  · have hnoted : n.core.KeepsCode p { n.core with lastFault := some fault } := .of_eq rfl rfl
    exact hnoted.trans (keepsCode_halt ((n.record (.fault n.core.id n.core.regs.ip fault)).mapCore
      fun c => { c with lastFault := some fault }) 1)

/-- Whatever an instruction comes to keeps the code. -/
theorem Outcome.keepsCode (o : Outcome p n n') : n.core.KeepsCode p n'.core := by
  cases o with
  | works e => exact e.keepsCode
  | suspends e f => exact (e.keepsCode.trans (keepsCode_suspend _)).trans (.of_eq rfl rfl)
  | halts e code f => exact (e.keepsCode.trans (keepsCode_halt _ code)).trans (.of_eq rfl rfl)

/-- After its fetch, a step keeps the code. -/
theorem keepsCode_step (p : Platform) (hr : n.core.isRunnable = true) :
    (n.primed p).core.KeepsCode p (step p n).2.core := by
  rcases step_cases p n with ⟨-, hr'⟩ | ⟨-, n', o, hrun | ⟨fault, hrun⟩⟩
  · cases hr.symm.trans hr'
  · rw [hrun]
    exact o.keepsCode
  · rw [hrun]
    exact o.keepsCode.trans (keepsCode_die n' fault)

/-- A hardware interrupt keeps the code, since a handler starts under the same set. -/
theorem keepsCode_interrupt (p : Platform) (index : UInt32) (n : Node PagedMemory) :
    n.core.KeepsCode p (interrupt p index n).2.core := by
  rcases interrupt_cases p index n with hrun | ⟨-, n', e, hrun | ⟨fault, hrun⟩⟩
  · rw [hrun]
    exact .refl n.core
  · rw [hrun]
    exact (keepsCode_wake n).trans e.keepsCode
  · rw [hrun]
    exact ((keepsCode_wake n).trans e.keepsCode).trans (keepsCode_die n' fault)

/-! ## What is taken in -/

/-- A step of the node takes an instruction in: it is the one at the instruction pointer, it is not
cached, and the active set decodes it from the word that memory has there. -/
structure Fills (p : Platform) (n : Node PagedMemory) (a : Address) (i : Instruction) : Prop where
  running : n.core.isRunnable = true
  address : n.core.codeAddress n.core.regs.ip = a
  missed : n.core.fetched.entries.peek? a = none
  decoded : ∃ set w, p.sets[n.core.activeSet]? = some set ∧
    PhysicalMemory.readWord a n.bus.memory = .ok w n.bus.memory ∧ set.decode w = .ok i

/-- An instruction that memory has is decoded from a word. -/
theorem exists_word_of_instructionAt {set : InstructionSet} {m : PagedMemory} {a : Address}
    {i : Instruction} (h : instructionAt set m a = .ok i) :
    ∃ w, PhysicalMemory.readWord a m = .ok w m ∧ set.decode w = .ok i := by
  have hread := PagedMemory.reads_readWord a m
  unfold instructionAt at h
  split at h
  · next w m' hrun =>
    obtain rfl : m' = m := (finalState_of_ok hrun).symm.trans hread
    exact ⟨w, hrun, h⟩
  · cases h

/-- The fetch at the start of a step takes in the next instruction or nothing, and the instruction
set stays. -/
theorem cached_primed (hr : n.core.isRunnable = true) :
    (n.primed p).core.activeSet = n.core.activeSet ∧
      ∀ a i, (n.primed p).core.fetched.entries.peek? a = some i →
        n.core.fetched.entries.peek? a = some i ∨ n.Fills p a i := by
  rcases hset : p.sets[n.core.activeSet]? with _ | set
  · rw [primed_of_none hset]
    exact ⟨rfl, fun a i hi => .inl hi⟩
  · obtain ⟨fetched, hentries, hrun⟩ := fetch_spec set (n.core.codeAddress n.core.regs.ip) n
    have hprimed : n.primed p = n.mapCore fun c => { c with fetched } := by
      rw [primed_of_some hset]
      split at hrun
      · exact finalState_of_ok hrun
      · exact finalState_of_error hrun
    rw [hprimed]
    refine ⟨rfl, fun a i hi => ?_⟩
    rcases hentries a i hi with hold | ⟨rfl, hmissed, hnew⟩
    · exact .inl hold
    · obtain ⟨w, hread, hdecode⟩ := exists_word_of_instructionAt hnew
      exact .inr ⟨hr, rfl, hmissed, set, w, hset, hread, hdecode⟩

end Node

/-! ## Operations -/

namespace Operation

variable {p : Platform} {n : Node PagedMemory}

/-- An operation that is not a step either keeps the code or starts the core without any, in an
instruction set that there is. -/
theorem keepsCode_or_cleared (p : Platform) {op : Operation} (hop : op ≠ .step) :
    n.core.KeepsCode p (op.perform p n).core ∨
      (∀ a, (op.perform p n).core.fetched.entries.peek? a = none) ∧
        (op.perform p n).core.SetInstalled p := by
  cases op with
  | boot init =>
    by_cases hs : n.core.state = .reset
    · right
      rw [perform, core_boot hs]
      exact ⟨fun a => RecencyMap.peek?_clear _ a, .inl rfl⟩
    · rw [perform, finalState, Node.boot, if_neg hs]
      exact .inl (.refl n.core)
  | restore s =>
    rcases halive : s.state.isAlive with _ | _
    · rw [perform, restore_of_not_alive p halive]
      exact .inl (.refl n.core)
    by_cases hs : n.core.state = .reset
    · right
      rw [perform, core_restore hs p halive]
      refine ⟨fun a => RecencyMap.peek?_clear _ a, ?_⟩
      dsimp only [Core.SetInstalled, Core.resumed]
      split
      · next hinstalled => exact .inr hinstalled
      · exact .inl rfl
    · rw [perform, finalState, Node.restore, if_pos hs]
      exact .inl (.refl n.core)
  | step => exact absurd rfl hop
  | interrupt index => exact .inl (keepsCode_interrupt p index n)
  | suspend => exact .inl (keepsCode_suspend n)
  | wake => exact .inl (keepsCode_wake n)
  | halt code => exact .inl (keepsCode_halt n code)
  | die fault => exact .inl (keepsCode_die n fault)

/-- What is cached after an operation was cached before it or is taken in by it, and the
instruction set is the same. -/
theorem cached_perform (op : Operation) {a : Address} {i : Instruction}
    (h : (op.perform p n).core.fetched.entries.peek? a = some i) :
    (op.perform p n).core.activeSet = n.core.activeSet ∧
      (n.core.fetched.entries.peek? a = some i ∨ op = .step ∧ n.Fills p a i) := by
  by_cases hop : op = .step
  · subst hop
    rcases hr : n.core.isRunnable with _ | _
    · have hidle : perform p n .step = n := by rw [perform, Node.step, if_neg (by simp [hr])]
      rw [hidle] at h ⊢
      exact ⟨rfl, .inl h⟩
    · obtain ⟨hset, hentries⟩ := cached_primed (p := p) hr
      obtain ⟨hcached, hkept⟩ := (keepsCode_step p hr).cached a i h
      exact ⟨hkept.trans hset, (hentries a i hcached).imp_right fun hfills => ⟨rfl, hfills⟩⟩
  · rcases keepsCode_or_cleared p hop with hkeeps | ⟨hcleared, -⟩
    · obtain ⟨hcached, hset⟩ := hkeeps.cached a i h
      exact ⟨hset, .inl hcached⟩
    · cases (hcleared a).symm.trans h

/-- Whatever is done with a core, its active set is installed or the base set. -/
theorem setInstalled_perform (h : n.core.SetInstalled p) (op : Operation) :
    (op.perform p n).core.SetInstalled p := by
  by_cases hop : op = .step
  · subst hop
    rcases hr : n.core.isRunnable with _ | _
    · rw [perform, Node.step, if_neg (by simp [hr])]
      exact h
    · refine (keepsCode_step p hr).setInstalled ?_
      rw [Core.SetInstalled, (cached_primed hr).1]
      exact h
  · rcases keepsCode_or_cleared p hop with hkeeps | ⟨-, hset⟩
    · exact hkeeps.setInstalled h
    · exact hset

end Operation

/-! ## Runs -/

namespace Machine

/-- The core of a machine has an instruction cached, with an instruction set active. -/
def Caches (m : Machine PagedMemory) (i : Nat) (set : UInt8) (a : Address) (inst : Instruction) :
    Prop :=
  ∃ n, m.node? i = some n ∧ n.core.activeSet = set ∧ n.core.fetched.entries.peek? a = some inst

/-- After operations on a machine, a core has an instruction cached that one of its steps took in.
It has been cached since, and so long the instruction set has been the same. -/
def TakenIn (m : Machine PagedMemory) (ops : List (Nat × Operation)) (i : Nat) (set : UInt8)
    (a : Address) (inst : Instruction) : Prop :=
  ∃ before after n, ops = before ++ (i, .step) :: after ∧
    (Operation.runOn m before).node? i = some n ∧
    n.Fills m.platform a inst ∧ n.core.activeSet = set ∧
    ∀ since, since <+: after →
      (Operation.runOn m (before ++ (i, .step) :: since)).Caches i set a inst

/-- An instruction that was taken in stays so while it is cached under the same set. -/
theorem TakenIn.concat {m : Machine PagedMemory} {ops : List (Nat × Operation)} {i : Nat}
    {set : UInt8} {a : Address} {inst : Instruction} {op : Nat × Operation}
    (h : m.TakenIn ops i set a inst)
    (hcaches : (Operation.runOn m (ops ++ [op])).Caches i set a inst) :
    m.TakenIn (ops ++ [op]) i set a inst := by
  obtain ⟨before, after, n, rfl, hn, hfills, hset, hsince⟩ := h
  refine ⟨before, after ++ [op], n, by simp, hn, hfills, hset, fun since hprefix => ?_⟩
  rcases List.prefix_concat_iff.1 hprefix with rfl | hprefix
  · simpa using hcaches
  · exact hsince since hprefix

section
variable (p : Platform) (memory : PagedMemory) (cores instructionCapacity dataCapacity : Nat)
  (recording : Bool) (ops : List (Nat × Operation)) {i : Nat} {n : Node PagedMemory}
  (hn : (Operation.runOn (Machine.new p memory cores instructionCapacity dataCapacity recording)
    ops).node? i = some n)
include hn

/-- Whatever is done with which core, a cached instruction was taken in by a step of its core. -/
theorem takenIn_of_cached {a : Address} {inst : Instruction}
    (h : n.core.fetched.entries.peek? a = some inst) :
    (Machine.new p memory cores instructionCapacity dataCapacity recording).TakenIn ops i
      n.core.activeSet a inst := by
  induction ops using List.reverseRecOn generalizing n with
  | nil =>
    have hcore := getElem?_cores_new p memory cores instructionCapacity dataCapacity recording
      (node?_eq_some_iff.1 hn).1
    have hnone : n.core.fetched.entries.peek? a = none := by
      rw [hcore]
      exact RecencyMap.peek?_empty instructionCapacity a
    cases hnone.symm.trans h
  | append_singleton ops op ih =>
    have hcaches : (Operation.runOn
        (Machine.new p memory cores instructionCapacity dataCapacity recording)
        (ops ++ [op])).Caches i n.core.activeSet a inst := ⟨n, hn, rfl, h⟩
    rw [runOn_concat] at hn
    obtain ⟨n₁, hn₁, ⟨hi, rfl⟩ | ⟨-, hcore⟩⟩ := exists_node?_of_onMachine op hn
    · obtain ⟨hset, hold | ⟨hstep, hfills⟩⟩ := op.2.cached_perform h
      · rw [hset] at hcaches ⊢
        exact (ih hn₁ hold).concat hcaches
      · rw [platform_runOn] at hfills
        obtain rfl : op = (i, .step) := Prod.ext hi hstep
        refine ⟨ops, [], n₁, rfl, hn₁, hfills, hset.symm, fun since hprefix => ?_⟩
        obtain rfl := List.prefix_nil.1 hprefix
        exact hcaches
    · rw [hcore] at h hcaches ⊢
      exact (ih hn₁ h).concat hcaches

/-- What a fetch answers belongs to the dialect of the active set, whether it was cached or not. -/
theorem has_of_fetch {set : InstructionSet} (hset : p.sets[n.core.activeSet]? = some set)
    {a : Address} {inst : Instruction} {n' : Node PagedMemory}
    (hfetch : fetch set a n = .ok inst n') : set.reads.Has inst := by
  have hdecoded : ∃ w, set.decode w = .ok inst := by
    obtain ⟨fetched, -, hrun⟩ := fetch_spec set a n
    cases hcached : n.core.fetched.entries.peek? a with
    | none =>
      rw [hcached, Option.elim_none] at hrun
      split at hrun
      · next i hi =>
        cases hrun.symm.trans hfetch
        obtain ⟨w, -, hdecode⟩ := exists_word_of_instructionAt hi
        exact ⟨w, hdecode⟩
      · cases hrun.symm.trans hfetch
    | some i =>
      rw [hcached] at hrun
      cases hrun.symm.trans hfetch
      obtain ⟨-, -, n₀, -, -, hfills, hactive, -⟩ :=
        takenIn_of_cached p memory cores instructionCapacity dataCapacity recording ops hn hcached
      obtain ⟨set', w, hset', -, hdecode⟩ := hfills.decoded
      rw [hactive] at hset'
      cases hset'.symm.trans hset
      exact ⟨w, hdecode⟩
  obtain ⟨w, hdecode⟩ := hdecoded
  exact (Dialect.spec_of_decode hdecode).1

/-- With the standard instruction sets, in every state that a machine can reach, each cached
instruction was decoded by the set that is active now, from the word that memory had when a step of
its core took it in. So a step executes an instruction only in a dialect that it belongs to, and it
never ends in the fault of a dialect that is given an instruction of another one. -/
theorem cached_code_of_active_set (hsets : p.sets = .standard) :
    (∀ a inst, n.core.fetched.entries.peek? a = some inst →
      (Machine.new p memory cores instructionCapacity dataCapacity recording).TakenIn ops i
        n.core.activeSet a inst) ∧
    (∀ set inst n', p.sets[n.core.activeSet]? = some set →
      fetch set (n.core.codeAddress n.core.regs.ip) n = .ok inst n' → set.runs.Has inst) ∧
    ∀ fault n', executeNext p n = .error fault n' → fault.isForeign = false := by
  have hhas {set : InstructionSet} {inst : Instruction} {n' : Node PagedMemory}
      (hset : p.sets[n.core.activeSet]? = some set)
      (hfetch : fetch set (n.core.codeAddress n.core.regs.ip) n = .ok inst n') :
      set.runs.Has inst := by
    have hread := has_of_fetch p memory cores instructionCapacity dataCapacity recording ops hn
      hset hfetch
    rw [hsets] at hset
    rwa [← reads_eq_runs_of_standard hset]
  refine ⟨fun a inst h => ?_, fun set inst n' => hhas, fun fault n' hrun => ?_⟩
  · exact takenIn_of_cached p memory cores instructionCapacity dataCapacity recording ops hn h
  · rcases hset : p.sets[n.core.activeSet]? with _ | set
    · cases (executeNext_of_none hset).symm.trans hrun
      rfl
    · rw [executeNext_of_some hset] at hrun
      rcases hfetch : fetch set (n.core.codeAddress n.core.regs.ip) n with ⟨inst, n₁⟩ | ⟨e, n₁⟩
      · rw [bind_of_ok hfetch] at hrun
        exact native_carryOut p (hhas hset hfetch) _ n₁ fault n' hrun
      · cases (bind_of_error hfetch).symm.trans hrun
        exact native_fetch set _ n _ _ hfetch

end

/-- A core that selects the coprocessor and then executes one of its instructions. What it had
cached of the base set is gone. -/
theorem cached_code_after_select :
    let memory := (PagedMemory.ofSize 256).setBytes 0 (bytesOfWords [0x394b, 0x3000a, 0x141])
    let m := Machine.new {} memory 1 4 4 false
    let ops := [(0, .boot ⟨0, 0, 0, 0, true⟩), (0, .step), (0, .step), (0, .step)]
    m.TakenIn ops 0 1 8 (.math (.pushw (.general 5))) := by
  intro memory m ops
  obtain ⟨n, hn, hset, hcached⟩ := exists_node_of_any (m := Operation.runOn m ops) (i := 0)
    (P := fun n => n.core.activeSet = 1 ∧
      n.core.fetched.entries.peek? 8 = some (.math (.pushw (.general 5))))
    (by decide +kernel)
  obtain ⟨htaken, -, -⟩ := cached_code_of_active_set {} memory 1 4 4 false ops hn rfl
  exact hset ▸ htaken 8 _ hcached

end Machine

end Multicore
