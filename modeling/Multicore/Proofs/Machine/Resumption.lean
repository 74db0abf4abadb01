import Multicore.Proofs.Machine.CacheSizes
import Multicore.Proofs.Machine.Reachability

/-!
# Resumption

A core that is alive, has no live frame and no active interrupt, and has cached only instructions
that memory still has, is `Portable`: its snapshot says all that matters of it. A core that was
never started makes the snapshot its own (`Core.resumed_snapshot`), in any machine over the same
memory. From then on the two cores are twins, so step by step they come to the same snapshots
(`Machine.resume_of_portable`).
-/

namespace Multicore

open Node

/-! ## Snapshots -/

/-- The general registers survive being listed. -/
theorem RegisterFile.ofFn_toList_general (regs : RegisterFile) :
    Vector.ofFn (fun i : Fin 30 => regs.general.toList[i]?.getD 0) = regs.general := by
  refine Vector.ext fun i hi => ?_
  simp

/-- The operand stack survives being listed, the bottom first. -/
theorem OperandStack.ofList_reverse_values (s : OperandStack) : ofList s.values.reverse = s := by
  have hlength : s.values.reverse.length ≤ maxDepth := by
    rw [List.length_reverse]
    exact s.length_le
  simp only [ofList, List.take_of_length_le hlength, List.reverse_reverse]

/-- A core that goes on from the snapshot of another one has its registers, its instruction set and
its operand stack, and keeps all else but what it has cached. -/
theorem Core.resumed_snapshot {p : Platform} {c : Core} (h : c.SetInstalled p) (c' : Core) :
    c'.resumed p.sets c.snapshot =
      { c' with
        regs := c.regs
        activeSet := c.activeSet
        math := c.math
        fetched := c'.fetched.clear } := by
  have hregs : (c'.resumed p.sets c.snapshot).regs = c.regs := by
    rcases hgeneral : c.regs with ⟨general, fp, sp, ds, cs, ip, flags, cnt⟩
    have hsame := c.regs.ofFn_toList_general
    rw [hgeneral] at hsame
    simp only [Core.resumed, Core.snapshot, hgeneral, hsame]
  have hset : (c'.resumed p.sets c.snapshot).activeSet = c.activeSet := by
    rcases h with hbase | hinstalled
    · simp only [Core.resumed, Core.snapshot, hbase, ite_self]
    · exact if_pos hinstalled
  have hmath : (c'.resumed p.sets c.snapshot).math = c.math :=
    OperandStack.ofList_reverse_values c.math
  rw [← hregs, ← hset, ← hmath]
  rfl

/-! ## Steps -/

namespace Node

/-- The node after some steps. -/
def steps (p : Platform) : Nat → Node PagedMemory → Node PagedMemory
  | 0, n => n
  | k + 1, n => steps p k (step p n).2

/-- What the next steps touch. -/
def stepsTouches (p : Platform) : Nat → Node PagedMemory → List Touch
  | 0, _ => []
  | k + 1, n => n.stepTouches p ++ stepsTouches p k (step p n).2

variable {text : Text} {p : Platform} {n n₁ n₂ : Node PagedMemory}

/-- Fewer steps touch no more. -/
theorem mem_stepsTouches_of_le {t : Touch} {k l : Nat} (hl : l ≤ k)
    (ht : t ∈ stepsTouches p l n) : t ∈ stepsTouches p k n := by
  induction l generalizing k n with
  | zero => cases ht
  | succ l ih =>
    obtain ⟨k, rfl⟩ : ∃ k', k = k' + 1 := ⟨k - 1, by omega⟩
    rcases List.mem_append.1 ht with ht | ht
    · exact List.mem_append_left _ ht
    · exact List.mem_append_right _ (ih (by omega) ht)

/-- Steps that are permitted come to the same on twins. -/
theorem Twin.steps (h : Twin text p n₁ n₂) (h₁ : n₁.Sound) (h₂ : n₂.Sound) {k : Nat}
    (ht : text.Permits (stepsTouches p k n₁)) :
    Twin text p (Node.steps p k n₁) (Node.steps p k n₂) := by
  induction k generalizing n₁ n₂ with
  | zero => exact h
  | succ k ih =>
    have hstep := h.step h₁ h₂ (ht.mono fun _ => List.mem_append_left _)
    exact ih hstep (h₁.step p).2 (h₂.step p).2 (ht.mono fun _ => List.mem_append_right _)

/-- Twins have the same snapshot but for the number. -/
theorem Twin.snapshot (h : Twin text p n₁ n₂) :
    n₂.core.snapshot = { n₁.core.snapshot with id := n₂.core.id } := by
  rw [h.core_eq]
  rfl

end Node

/-- The machine after some steps of one core. -/
def Machine.steps (m : Machine PagedMemory) (i k : Nat) : Machine PagedMemory :=
  Operation.runOn m (List.replicate k (i, .step))

/-- Steps of one core are steps of its node. -/
theorem Machine.node?_steps {m : Machine PagedMemory} {i : Nat} {n : Node PagedMemory}
    (hn : m.node? i = some n) (k : Nat) :
    (m.steps i k).node? i = some (n.steps m.platform k) := by
  induction k generalizing m n with
  | zero => exact hn
  | succ k ih =>
    have hstep := ih (node?_onMachine_self hn .step)
    rw [platform_onMachine] at hstep
    exact hstep

/-! ## Restoring -/

namespace Node

/-- A core that may go on elsewhere from its snapshot: it is alive, without a live frame or an
active interrupt, and has nothing cached but what the active set decodes from memory now. -/
structure Portable (p : Platform) (n : Node PagedMemory) : Prop where
  alive : n.core.isAlive = true
  frames : n.core.frames = []
  interrupts : n.core.interruptStacks = []
  current : ∀ a i, n.core.fetched.entries.peek? a = some i →
    ∃ set, p.sets[n.core.activeSet]? = some set ∧ instructionAt set n.bus.memory a = .ok i

variable {p : Platform} {n : Node PagedMemory}

/-- What is current is found by looking at every cached instruction. -/
theorem portable_iff : n.Portable p ↔
    n.core.isAlive = true ∧ n.core.frames = [] ∧ n.core.interruptStacks = [] ∧
      ∀ e ∈ n.core.fetched.entries.entries.toList, ∃ set ∈ p.sets[n.core.activeSet]?,
        instructionAt set n.bus.memory e.1 = .ok e.2.value := by
  constructor
  · rintro ⟨halive, hframes, hinterrupts, hcurrent⟩
    refine ⟨halive, hframes, hinterrupts, fun e he => hcurrent e.1 e.2.value ?_⟩
    rw [RecencyMap.peek?, Std.TreeMap.mem_toList_iff_getElem?_eq_some.1 he]
    rfl
  · rintro ⟨halive, hframes, hinterrupts, hall⟩
    refine ⟨halive, hframes, hinterrupts, fun a i hi => ?_⟩
    obtain ⟨slot, hslot, rfl⟩ := Option.map_eq_some_iff.1 hi
    exact hall (a, slot) (Std.TreeMap.mem_toList_iff_getElem?_eq_some.2 hslot)

instance : Decidable (n.Portable p) := decidable_of_iff _ portable_iff.symm

/-- A core that was never started goes on from the snapshot of an alive core. -/
theorem exists_restore (hs : n.core.state = .reset) (p : Platform) {s : Snapshot}
    (ha : s.state.isAlive = true) :
    ∃ n', restore p s n = .ok () n' ∧ n'.tallies = n.tallies ∧
      n'.bus = n.bus.register n.core.id n.core.id ∧
      n'.core = { n.core.resumed p.sets s with state := s.state } := by
  have hrun : restore p s n = .ok () (({ n with
      bus := n.bus.register n.core.id n.core.id
      core := n.core.resumed p.sets s } : Node PagedMemory).setState s.state) := by
    rw [restore, if_neg (by simp [hs]), if_neg (by simp [ha])]
    rfl
  refine ⟨_, hrun, ?_, setState_bus .., core_setState ..⟩
  unfold setState
  split <;> rfl

/-- What a core that never had a frame or an active interrupt makes of the snapshot of a portable
core is the twin of that core. -/
theorem Portable.twin_resumed {text : Text} (h : n.Portable p) (himage : text.image = n.bus.memory)
    (hset : n.core.SetInstalled p) {c : Core} (hframes : c.frames = [])
    (hinterrupts : c.interruptStacks = []) (hexitCode : c.exitCode = n.core.exitCode)
    (hlastFault : c.lastFault = n.core.lastFault) :
    Core.Twin text p n.core
      { c.resumed p.sets n.core.snapshot with id := n.core.id, state := n.core.state } := by
  rw [Core.resumed_snapshot hset]
  refine ⟨?_, fun a i hi => ?_, fun a i hi => ?_, ?_⟩
  · dsimp only
    rw [hframes, ← h.frames, hinterrupts, ← h.interrupts, hexitCode, hlastFault]
  · rw [himage]
    exact h.current a i hi
  · cases (RecencyMap.peek?_clear ..).symm.trans hi
  · rw [h.interrupts]
    exact fun page hp => absurd hp List.not_mem_nil

end Node

namespace Machine

variable {p : Platform} {m₁ m₂ : Machine PagedMemory} {i j : Nat} {n₁ n₂ : Node PagedMemory}

/-- A core that was never started takes the snapshot of a portable core and is the twin of that
core, if the machines have the same memory and no alive core has a dirty line. -/
theorem Regular.exists_twin (h₁ : m₁.Regular p) (h₂ : m₂.Regular p)
    (hn₁ : m₁.node? i = some n₁) (hn₂ : m₂.node? j = some n₂) (hportable : n₁.Portable p)
    (hf₁ : m₁.Flushed) (hf₂ : m₂.Flushed) (hreset : n₂.core.state = .reset)
    (hmemory : n₂.bus.memory = n₁.bus.memory)
    (htallies : ∀ index, n₂.tallies.getD index 0 = n₁.tallies.getD index 0) (text : Text)
    (himage : text.image = n₁.bus.memory) :
    ∃ n', Node.restore p n₁.core.snapshot n₂ = .ok () n' ∧ Node.Twin text p n₁ n' := by
  obtain ⟨n', hrun, htallies', hbus', hcore'⟩ :=
    exists_restore hreset p (s := n₁.core.snapshot) hportable.alive
  have horderly₁ := h₁.orderly _ (mem_cores_of_node? hn₁)
  have horderly₂ := h₂.orderly _ (mem_cores_of_node? hn₂)
  have hend₁ := h₁.settled.nodes hn₁
  have hend₂ := h₂.settled.nodes hn₂
  have hs₁ := Core.ne_halted_of_isAlive hportable.alive
  have hs₂ : n₂.core.state ≠ .halted := by
    rw [hreset]
    nofun
  obtain ⟨hframes, hinterrupts⟩ := horderly₂.fresh hreset
  refine ⟨n', hrun, fun index => htallies' ▸ htallies index, ?_, ?_⟩
  · have hsound₁ := h₁.sound.nodes hn₁
    have hsound₂ := h₂.sound.nodes hn₂
    have hempty := hsound₂.fresh hreset
    have hd₁ := h₁.noDirty hf₁
    have hd₂ := h₂.noDirty hf₂
    rw [← congrArg Shared.bus (node?_eq_some_iff.1 hn₁).2] at hd₁
    rw [← congrArg Shared.bus (node?_eq_some_iff.1 hn₂).2] at hd₂
    rw [hbus']
    refine Bus.twin_of_noDirty hsound₁.coherent (hsound₂.coherent.register hempty) hd₁
      (fun a => ?_) himage.symm (hmemory.trans himage.symm)
    rw [Bus.copies_register hempty]
    exact hd₂ a
  · rw [hcore']
    exact hportable.twin_resumed himage horderly₁.set hframes hinterrupts
      ((hend₂.exitCode_eq hs₂).trans (hend₁.exitCode_eq hs₁).symm)
      ((hend₂.lastFault_eq hs₂).trans (hend₁.lastFault_eq hs₁).symm)

/-- The steps of a core of a machine are those of its node. -/
theorem Reachable.core_steps {m : Machine PagedMemory} (h : Reachable p m)
    {n : Node PagedMemory} (hn : m.node? i = some n) (k : Nat) :
    (m.steps i k).cores[i]? = some (n.steps p k).core := by
  have hsteps := node?_steps hn k
  rw [h.regular.platform] at hsteps
  exact (node?_eq_some_iff.1 hsteps).1

/-- A core that is alive, has no live frame and no active interrupt and has only current
instructions cached resumes from its snapshot elsewhere: in a core that was never started, of a
machine over the same memory, where no alive core has a dirty line either. The restore succeeds, the
restored core has the same snapshot but for the number, and so have the two cores after every step,
as long as the steps are undisturbed: no byte that is fetched as a part of an instruction or a
vector is stored, and no page is allocated or freed. -/
theorem resume_of_portable (h₁ : Reachable p m₁) (h₂ : Reachable p m₂)
    (hn₁ : m₁.node? i = some n₁) (hn₂ : m₂.node? j = some n₂) (hportable : n₁.Portable p)
    (hf₁ : m₁.Flushed) (hf₂ : m₂.Flushed) (hreset : n₂.core.state = .reset)
    (hmemory : n₂.bus.memory = n₁.bus.memory)
    (htallies : ∀ index, n₂.tallies.getD index 0 = n₁.tallies.getD index 0) :
    ∃ m, onCore j (Node.restore p n₁.core.snapshot) m₂ = .ok () m ∧
      (∃ c, m.cores[j]? = some c ∧ c.snapshot = { n₁.core.snapshot with id := j }) ∧
      ∀ k, Undisturbed (n₁.stepsTouches p k) → ∀ l ≤ k, ∃ c₁ c₂,
        (m₁.steps i l).cores[i]? = some c₁ ∧ (m.steps j l).cores[j]? = some c₂ ∧
        c₂.snapshot = { c₁.snapshot with id := j } := by
  -- the restored node does not depend on the text, which each number of steps has its own of
  have hrestore := fun text => h₁.regular.exists_twin h₂.regular hn₁ hn₂ hportable hf₁ hf₂ hreset
    hmemory htallies text
  obtain ⟨n', hrun, -⟩ := hrestore ⟨n₁.bus.memory, fun _ => False⟩ rfl
  have hrestored : (Operation.restore n₁.core.snapshot).onMachine m₂ j = m₂.setNode j n' := by
    rw [onMachine_of_some hn₂, h₂.regular.platform, Operation.perform, finalState_of_ok hrun]
  have hreachable : Reachable p (m₂.setNode j n') := hrestored ▸ h₂.operation j _
  have hn' : (m₂.setNode j n').node? j = some n' := node?_setNode_self hn₂
  have hsame : ∀ k, Undisturbed (n₁.stepsTouches p k) → ∀ l ≤ k,
      (n'.steps p l).core.snapshot = { (n₁.steps p l).core.snapshot with id := j } := by
    intro k hk l hl
    obtain ⟨text, himage, ht⟩ := hk.exists_text n₁.bus.memory
    obtain ⟨n'', hrun', htwin⟩ := hrestore text himage
    cases hrun.symm.trans hrun'
    have hsteps := htwin.steps (h₁.regular.sound.nodes hn₁) (hreachable.regular.sound.nodes hn')
      (ht.mono fun _ => mem_stepsTouches_of_le hl)
    have hid : (n'.steps p l).core.id = j :=
      (hreachable.runOn _).regular.sound.ids (hreachable.core_steps hn' l)
    rw [hsteps.snapshot, hid]
  refine ⟨m₂.setNode j n', ?_, ⟨n'.core, (node?_eq_some_iff.1 hn').1, ?_⟩, fun k hk l hl => ?_⟩
  · unfold onCore
    rw [hn₂]
    dsimp only
    rw [hrun]
  · exact hsame 0 (undisturbed_iff.2 fun t ht => absurd ht List.not_mem_nil) 0 (Nat.le_refl 0)
  · exact ⟨_, _, h₁.core_steps hn₁ l, hreachable.core_steps hn' l, hsame k hk l hl⟩

/-- A core stores a word, selects the coprocessor and pushes the word there. Its data cache is
flushed, and a core with another number and caches of one line goes on from its snapshot: both pop
the word, load it from memory, push it and halt. -/
theorem resume_of_portable_until_halt :
    let memory := (PagedMemory.ofSize 256).setBytes 0 (bytesOfWords
      [0x2a94b, 0x804968, 0x3000a, 0x141, 0x183, 0x1000a, 0x8049e5, 0x1ab, 0x1c1])
    let m := Operation.runOn (Machine.new {} memory 1 4 4 false)
      [(0, .boot ⟨0, 0, 256, 0, true⟩), (0, .step), (0, .step), (0, .step), (0, .step)]
    let m₁ := m.flush 0
    let m₂ := Machine.new {} m₁.bus.memory 2 1 1 false
    ∃ n₁ m', m₁.node? 0 = some n₁ ∧
      onCore 1 (Node.restore {} n₁.core.snapshot) m₂ = .ok () m' ∧
      ∀ l ≤ 5, ∃ c₁ c₂, (m₁.steps 0 l).cores[0]? = some c₁ ∧ (m'.steps 1 l).cores[1]? = some c₂ ∧
        c₂.snapshot = { c₁.snapshot with id := 1 } := by
  intro memory m m₁ m₂
  have hnew : Reachable {} (Machine.new {} memory 1 4 4 false) := .new memory 1 4 4 false
  obtain ⟨n, hn, halive⟩ := exists_node_of_any (m := m) (i := 0)
    (P := fun n => n.core.isAlive = true) (by decide +kernel)
  have h : Reachable {} m := hnew.runOn _
  have h₁ : Reachable {} m₁ := h.flush (node?_eq_some_iff.1 hn).1 halive
  have h₂ : Reachable {} m₂ := .new m₁.bus.memory 2 1 1 false
  have hf₁ : m₁.Flushed := h.regular.flushed_flush (by decide +kernel)
  have hf₂ : m₂.Flushed := flushed_new {} m₁.bus.memory 2 1 1 false
  obtain ⟨n₁, hn₁, hportable, hsteps⟩ := exists_node_of_any (m := m₁) (i := 0)
    (P := fun n => n.Portable {} ∧ Undisturbed (n.stepsTouches {} 5)) (by decide +kernel)
  have huncounted : m₁.tallies.isEmpty = true := by decide +kernel
  obtain ⟨n₂, hn₂, hreset⟩ := exists_node_of_any (m := m₂) (i := 1)
    (P := fun n => n.core.state = .reset) (by decide +kernel)
  have hshared₁ := (node?_eq_some_iff.1 hn₁).2
  have hshared₂ := (node?_eq_some_iff.1 hn₂).2
  have hcopy : ∀ memory : PagedMemory, (Machine.new {} memory 2 1 1 false).bus.memory = memory :=
    fun _ => rfl
  have hmemory : n₂.bus.memory = n₁.bus.memory := by
    rw [congrArg Shared.bus hshared₁, congrArg Shared.bus hshared₂]
    exact hcopy m₁.bus.memory
  have htallies : ∀ index, n₂.tallies.getD index 0 = n₁.tallies.getD index 0 := by
    intro index
    rw [congrArg Shared.tallies hshared₁, congrArg Shared.tallies hshared₂]
    exact (Std.TreeMap.getD_of_isEmpty huncounted).symm
  obtain ⟨m', hrun, -, hresumed⟩ :=
    resume_of_portable h₁ h₂ hn₁ hn₂ hportable hf₁ hf₂ hreset hmemory htallies
  exact ⟨n₁, m', hn₁, hrun, hresumed 5 hsteps⟩

end Machine

end Multicore
