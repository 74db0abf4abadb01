import Multicore.Core.Snapshot
import Multicore.Proofs.Coprocessor.Operations
import Multicore.Proofs.Core.Quiet
import Multicore.Proofs.Instruction.RoundTrip

/-!
# Coprocessor programs

A core that executes coprocessor instructions one after the other (`Node.Performs`) does what the
calculator does, from whatever state it starts and whatever the other cores do in between: it is
still running exactly if the calculator comes to a result, which is the operand stack and the
registers of the core then, and otherwise it was killed by the fault of the first instruction that
is not allowed.
-/

namespace Multicore

namespace Node

variable {β : Type} [PhysicalMemory β] {p : Platform} {n : Node β} {op : MathOp}

/-- A running core is about to execute an operation of the coprocessor. -/
structure Faces (p : Platform) (n : Node β) (op : MathOp) : Prop where
  runnable : n.core.isRunnable = true
  fetches : ∃ set n₁, p.sets[n.core.activeSet]? = some set ∧ set.runs = .math ∧
    fetch set (n.core.codeAddress n.core.regs.ip) n = .ok (.math op) n₁

instance : Decidable (Faces p n op) :=
  decidable_of_iff (n.core.isRunnable = true ∧
      (p.sets[n.core.activeSet]?.any fun set => decide (set.runs = .math) &&
        match fetch set (n.core.codeAddress n.core.regs.ip) n with
        | .ok i _ => decide (i = .math op)
        | .error .. => false) = true) <| by
    constructor
    · rintro ⟨hr, h⟩
      obtain ⟨set, hset, h⟩ := (Option.any_eq_true ..).1 h
      rw [Bool.and_eq_true, decide_eq_true_iff] at h
      obtain ⟨hruns, h⟩ := h
      split at h
      · next i n₁ hfetch => exact ⟨hr, set, n₁, hset, hruns, of_decide_eq_true h ▸ hfetch⟩
      · cases h
    · rintro ⟨hr, set, n₁, hset, hruns, hfetch⟩
      exact ⟨hr, by simp [hset, hruns, hfetch]⟩

/-- A core executes operations of the coprocessor, one after the other. What it shares with the
other cores may be anything whenever it takes a step. -/
inductive Performs (β : Type) [PhysicalMemory β] (p : Platform) : List MathOp → Core → Core → Prop
  | nil (c : Core) : Performs β p [] c c
  | cons {n : Node β} {op : MathOp} {ops : List MathOp} {c' : Core} (faces : n.Faces p op)
    (rest : Performs β p ops (step p n).2.core c') : Performs β p (op :: ops) n.core c'

/-- What a step of the core starts from has the stack and the mode that the core had. -/
theorem allowed_passed {c : Calculator} :
    op.Allowed { c with regs := c.regs.passed } ↔ op.Allowed c :=
  ⟨fun h => ⟨h.operands, h.room, h.divisor, h.mode⟩,
    fun h => ⟨h.operands, h.room, h.divisor, h.mode⟩⟩

/-- A step comes to the execution of the operation on a node that has the core, with the instruction
pointer past the instruction. -/
theorem executeNext_of_faces (h : n.Faces p op) : ∃ n₁ : Node β, ∃ fetched,
    n₁.core = { n.core with fetched, regs := n.core.regs.passed } ∧
    n₁.core.calculator = { n.core.calculator with regs := n.core.calculator.regs.passed } ∧
    executeNext p n =
      (do executeMathOp op; modifyRegs RegisterFile.counted : NodeM β Unit) n₁ := by
  obtain ⟨set, n₁, hset, hruns, hfetch⟩ := h.fetches
  obtain ⟨fetched, hcore⟩ := core_fetch set (n.core.codeAddress n.core.regs.ip) n
  rw [finalState_of_ok hfetch] at hcore
  have hallowed : set.isPrivileged (.math op) = true → n₁.core.regs.flags.privileged = true := by
    rw [InstructionSet.isPrivileged]
    intro hprivileged
    cases hreads : set.reads <;> rw [hreads] at hprivileged <;> cases hprivileged
  have hbegun : (begun set n.core.regs.ip (.math op) n₁).core =
      { n.core with fetched, regs := n.core.regs.passed } := by
    show { n₁.core with regs := { n₁.core.regs with ip := n.core.regs.ip + 4 } } = _
    rw [hcore]
    rfl
  refine ⟨begun set n.core.regs.ip (.math op) n₁, fetched, hbegun, ?_, ?_⟩
  · rw [hbegun]
    rfl
  · rw [executeNext_of_some hset, bind_of_ok hfetch, carryOut_of_allowed hallowed, hruns]
    rfl

/-- An operation that is allowed leaves the core running, with the stack and the registers of the
calculator. -/
theorem step_of_allowed (h : n.Faces p op) (hallowed : op.Allowed n.core.calculator) :
    ∃ fetched math regs, (step p n).2.core = { n.core with fetched, math, regs } ∧
      (⟨math.integers, regs⟩ : Calculator) = n.core.calculator.step op := by
  obtain ⟨n₁, fetched, hcore, hcalculator, hrun⟩ := executeNext_of_faces h
  obtain ⟨math, regs, hop, hafter⟩ :=
    (executeMathOp_follows op n₁).allowed (by rw [hcalculator]; exact allowed_passed.2 hallowed)
  have hstep : step p n =
      (true, n₁.mapCore fun c => { c with math, regs := regs.counted }) := by
    rw [step, if_pos h.runnable, hrun, bind_of_ok hop]
    rfl
  refine ⟨fetched, math, regs.counted, ?_, ?_⟩
  · rw [hstep]
    show { n₁.core with math, regs := regs.counted } = _
    rw [hcore]
  · rw [Calculator.step, ← hcalculator, ← hafter]

/-- An operation that is not allowed kills the core. -/
theorem step_of_not_allowed (h : n.Faces p op) (hrefused : ¬ op.Allowed n.core.calculator) :
    (step p n).2.core.state = .halted ∧
      (step p n).2.core.lastFault = some (op.fault n.core.calculator) := by
  obtain ⟨n₁, fetched, hcore, hcalculator, hrun⟩ := executeNext_of_faces h
  obtain ⟨math, hop⟩ := (executeMathOp_follows op n₁).refused
    (by rw [hcalculator]; exact fun h => hrefused (allowed_passed.1 h))
  have hstate : n₁.core.state ≠ .halted := by
    have hrunning : n.core.state = .running := of_decide_eq_true h.runnable
    rw [hcore]
    simp [hrunning]
  have hstep : step p n = (true, (n₁.mapCore fun c => { c with math }).die
      (op.fault n₁.core.calculator)) := by
    rw [step, if_pos h.runnable, hrun, bind_of_error hop]
  rw [hstep]
  dsimp only
  rw [core_die (n := n₁.mapCore fun c => { c with math }) hstate]
  refine ⟨rfl, ?_⟩
  show some (op.fault n₁.core.calculator) = _
  rw [hcalculator]
  rfl

/-! ## Programs -/

variable {ops : List MathOp} {c c' : Core}

/-- A core that does not run performs nothing. -/
theorem Performs.eq_of_not_runnable (h : Performs β p ops c c') (hc : ¬ c.isRunnable = true) :
    ops = [] ∧ c' = c := by
  cases h with
  | nil => exact ⟨rfl, rfl⟩
  | cons faces rest => exact absurd faces.runnable hc

/-- What came of a program: either the core is running with the result of the calculator, or it was
killed by the last instruction, which the calculator does not allow. -/
def EndsAs (ops : List MathOp) (c c' : Core) : Prop :=
  match c.calculator.run? ops with
  | some r => c'.isRunnable = true ∧ c'.calculator = r
  | none => c'.state = .halted ∧ ∃ done op r, ops = done ++ [op] ∧ c.calculator.run? done = some r ∧
      ¬ op.Allowed r ∧ c'.lastFault = some (op.fault r)

/-- A program ends as the calculator says. -/
theorem Performs.endsAs (h : Performs β p ops c c') (hc : c.isRunnable = true) :
    EndsAs ops c c' := by
  induction h with
  | nil c => exact ⟨hc, rfl⟩
  | @cons n op ops c' faces rest ih =>
    by_cases hallowed : op.Allowed n.core.calculator
    · obtain ⟨fetched, math, regs, hcore, hcalculator⟩ := step_of_allowed faces hallowed
      have hstep : (step p n).2.core.calculator = n.core.calculator.step op := by
        rw [hcore]
        exact hcalculator
      have hih := ih (by rw [hcore]; exact hc)
      unfold EndsAs at hih ⊢
      rw [Calculator.run?_cons_of_allowed hallowed, ← hstep]
      revert hih
      cases (step p n).2.core.calculator.run? ops with
      | some r => exact id
      | none =>
        rintro ⟨hhalted, done, op', r, rfl, hrun, hrefused, hfault⟩
        refine ⟨hhalted, op :: done, op', r, rfl, ?_, hrefused, hfault⟩
        rw [Calculator.run?_cons_of_allowed hallowed, ← hstep, hrun]
    · -- the core is halted, so that this instruction was the last
      obtain ⟨hhalted, hfault⟩ := step_of_not_allowed faces hallowed
      obtain ⟨rfl, rfl⟩ := rest.eq_of_not_runnable (by rw [Core.isRunnable, hhalted]; decide)
      unfold EndsAs
      rw [Calculator.run?_cons_of_refused hallowed]
      exact ⟨hhalted, [], op, n.core.calculator, rfl, rfl, hallowed, hfault⟩

omit [PhysicalMemory β] in
/-- A core that goes on from a snapshot has the lowest eight values of it on its operand stack. -/
theorem stack_of_restore {s : Snapshot} {n n' : Node β} (h : restore p s n = .ok () n') :
    n'.core.calculator.stack =
      (s.mathValues.take OperandStack.maxDepth).reverse.map Int64.toInt := by
  unfold restore at h
  split at h
  · cases h
  split at h
  · cases h
  cases h
  rw [core_setState]
  rfl

/-- The way to take a value to two registers leaves it there and the rest on the stack. -/
theorem Performs.recovered {high low : Register} (hhigh : high.IsNamed) (hlow : low.IsNamed)
    (hne : high ≠ low) (h : Performs β p [.dup, .popuw high, .popw low] c c')
    (hc' : c'.isRunnable = true) : ∃ v, c.calculator.stack = v :: c'.calculator.stack ∧
      wrap ((c'.regs.read high).toNat * 2 ^ 32 + (c'.regs.read low).toNat) = v := by
  have hc : c.isRunnable = true := by
    cases h with
    | cons faces rest => exact faces.runnable
  have hends := h.endsAs hc
  unfold EndsAs at hends
  split at hends
  · next r hrun =>
    obtain ⟨-, rfl⟩ := hends
    obtain ⟨v, hstack, hvalue⟩ := Calculator.recovered hhigh hlow hne hrun
    refine ⟨v, hstack, ?_⟩
    have hmem : v ∈ c.math.values.map Int64.toInt := by
      show v ∈ c.calculator.stack
      rw [hstack]
      exact List.mem_cons_self
    obtain ⟨x, -, rfl⟩ := List.mem_map.1 hmem
    exact (congrArg wrap hvalue).trans (OperandStack.wrap_toInt_emod x)
  · rw [Core.isRunnable, hends.1] at hc'
    cases hc'

omit [PhysicalMemory β] in
/-- Of the operations that can be decoded, those that pop to the frame pointer need privileged
mode. -/
theorem needsPrivilege_iff_of_decode {set : InstructionSet} {w : Word}
    (h : set.decode w = .ok (.math op)) :
    op.needsPrivilege = true ↔ op = .popw .fp ∨ op = .popuw .fp := by
  obtain ⟨-, hnamed, -⟩ := Dialect.spec_of_decode h
  cases op with
  | popw r | popuw r =>
    have hr : r.IsNamed := hnamed r List.mem_cons_self
    exact hr.isProtected_iff.trans (by simp)
  | _ => simp [MathOp.needsPrivilege, MathOp.target?]

/-- Coprocessor programs follow the calculator. Whatever the state of a core, an operation that is
allowed gives what the calculator gives, and another one kills the core with the fault that belongs
to it. So a whole program ends as the calculator says, with eight values on the operand stack at
most; the calculator comes to no more values if it starts with no more, and a core that goes on from
a snapshot does. The mode matters for the pops to the frame pointer. To copy the top and to pop its
halves recovers the value. -/
theorem performs_follows_calculator (p : Platform) :
    (∀ (n : Node β) (op : MathOp), n.Faces p op →
      (op.Allowed n.core.calculator → (step p n).2.core.isRunnable = true ∧
        (step p n).2.core.calculator = n.core.calculator.step op) ∧
      (¬ op.Allowed n.core.calculator → (step p n).2.core.state = .halted ∧
        (step p n).2.core.lastFault = some (op.fault n.core.calculator))) ∧
    (∀ (ops : List MathOp) (c c' : Core), Performs β p ops c c' → c.isRunnable = true →
      c'.calculator.stack.length ≤ 8 ∧ EndsAs ops c c') ∧
    (∀ (ops : List MathOp) (c r : Calculator), c.stack.length ≤ 8 → c.run? ops = some r →
      r.stack.length ≤ 8) ∧
    (∀ (s : Snapshot) (n n' : Node β), restore p s n = .ok () n' →
      n'.core.calculator.stack = (s.mathValues.take 8).reverse.map Int64.toInt) ∧
    (∀ (set : InstructionSet) (w : Word) (op : MathOp), set.decode w = .ok (.math op) →
      (op.needsPrivilege = true ↔ op = .popw .fp ∨ op = .popuw .fp)) ∧
    ∀ (c c' : Core) (high low : Register), high.IsNamed → low.IsNamed → high ≠ low →
      Performs β p [.dup, .popuw high, .popw low] c c' → c'.isRunnable = true →
      ∃ v, c.calculator.stack = v :: c'.calculator.stack ∧
        wrap ((c'.regs.read high).toNat * 2 ^ 32 + (c'.regs.read low).toNat) = v := by
  refine ⟨fun n op h => ⟨fun hallowed => ?_, step_of_not_allowed h⟩,
    fun ops c c' h hc => ⟨?_, h.endsAs hc⟩,
    fun ops c r hc hrun => Calculator.length_le_of_run? hrun hc, fun s n n' => stack_of_restore,
    fun set w op => needsPrivilege_iff_of_decode,
    fun c c' high low hhigh hlow hne h => h.recovered hhigh hlow hne⟩
  · obtain ⟨fetched, math, regs, hcore, hcalculator⟩ := step_of_allowed h hallowed
    rw [hcore]
    exact ⟨h.runnable, hcalculator⟩
  · rw [Core.calculator, OperandStack.integers, List.length_map]
    exact c'.math.length_le

/-- A core that goes on from a snapshot with nine values has eight of them. It can add to the top
then, and has no room to push it again. -/
theorem performs_follows_calculator_of_full_stack :
    let start : Node PagedMemory :=
      { bus := {
          memory := finalState (PhysicalMemory.placeImage 0 (bytesOfWords [0xb, 0xd]))
            (PagedMemory.ofSize 256)
          capacity := 1 }
        core := .new 0 1 }
    let snapshot : Snapshot :=
      { (Core.new 0 1).snapshot with
        state := .running, activeSet := 1, mathValues := [1, 2, 3, 4, 5, 6, 7, 8, 9] }
    ∃ n c', restore {} snapshot start = .ok () n ∧
      n.core.calculator.stack = [8, 7, 6, 5, 4, 3, 2, 1] ∧
      Performs PagedMemory {} [.inc, .dup] n.core c' ∧ c'.lastFault = some .stackOverflow := by
  intro start snapshot
  obtain ⟨hsteps, -, -, hrestored, -⟩ := performs_follows_calculator (β := PagedMemory) {}
  let n := finalState (restore {} snapshot) start
  have hrestore : restore {} snapshot start = .ok () n := rfl
  have hinc : n.Faces {} .inc := by decide +kernel
  have hdup : (step {} n).2.Faces {} .dup := by decide +kernel
  have hfull : ¬ MathOp.dup.Allowed (step {} n).2.core.calculator := by decide +kernel
  obtain ⟨-, hkilled⟩ := (hsteps (step {} n).2 .dup hdup).2 hfull
  have hfault : MathOp.dup.fault (step {} n).2.core.calculator = .stackOverflow := by
    decide +kernel
  have hstack : n.core.calculator.stack = [8, 7, 6, 5, 4, 3, 2, 1] :=
    (hrestored snapshot start n hrestore).trans (by decide +kernel)
  exact ⟨n, (step {} (step {} n).2).2.core, hrestore, hstack, .cons hinc (.cons hdup (.nil _)),
    hkilled.trans (congrArg some hfault)⟩

end Node

end Multicore
