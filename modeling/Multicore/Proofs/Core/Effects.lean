import Multicore.Proofs.Core.Ordinary

/-!
# What a core can do

An `Effect` is a single thing that a core does to its node: it changes registers, records a
frame, loads or stores through its data cache, and so on. Everything that a core computes is a
sequence of effects (`Works`), except for the fetch at the start of a step (`primed`) and for the
two ends of an instruction that change the stage of the core: halting and suspending. `step_cases`
and `interrupt_cases` say so once, so that an invariant of the machine has to be checked against
the effects and never against instructions.
-/

namespace Multicore.Node

variable {β : Type} [PhysicalMemory β]

/-! ## Effects -/

/-- One thing that a core does once its instruction is fetched. Of the instruction sets it selects
installed ones only. -/
inductive Effect (p : Platform) (n : Node β) : Node β → Prop
  | regs (f : RegisterFile → RegisterFile) : Effect p n (n.mapRegs f)
  | frames (l : List Frame) : Effect p n (n.mapCore fun c => { c with frames := l })
  | interrupts (l : List (Option UInt32)) :
    Effect p n (n.mapCore fun c => { c with interruptStacks := l })
  | math (s : OperandStack) : Effect p n (n.mapCore fun c => { c with math := s })
  | select (id : UInt8) (h : p.sets.contains id = true) :
    Effect p n (n.mapCore fun c => { c with activeSet := id, fetched := c.fetched.clear })
  | vector (table : Address) (index : UInt32) :
    Effect p n (finalState (onMemory (PhysicalMemory.loadVector table index)) n)
  | load (width : Width) (a : Address) :
    Effect p n { n with bus := finalState (Bus.load width n.core.id a) n.bus }
  | store (width : Width) (a : Address) (v : UInt32) :
    Effect p n { n with bus := finalState (Bus.storeAt width n.core.id a v) n.bus }
  | allocate (segment : Option UInt32) : Effect p n (finalState (allocatePage segment) n)
  | free (page : UInt32) : Effect p n (finalState (freePage page) n)
  | drop (page : UInt32) :
    Effect p n { n with bus := finalState (Bus.release n.core.id (.page page) false true) n.bus }
  | record (e : Event) : Effect p n (n.record e)
  | tally (index count : UInt32) :
    Effect p n { n with tallies := n.tallies.insert index count }

/-- One effect after another. -/
inductive Effects (p : Platform) (n : Node β) : Node β → Prop
  | refl : Effects p n n
  | tail {n₁ n₂ : Node β} (h : Effects p n n₁) (e : Effect p n₁ n₂) : Effects p n n₂

variable {p : Platform}

theorem Effect.effects {n n' : Node β} (e : Effect p n n') : Effects p n n' := .tail .refl e

/-- Effects may be followed by effects. -/
theorem Effects.trans {n n' n'' : Node β} (h : Effects p n n') (h' : Effects p n' n'') :
    Effects p n n'' := by
  induction h' with
  | refl => exact h
  | tail _ e ih => exact ih.tail e

/-! ## Computations that have effects only -/

/-- A mild effect is an effect. -/
theorem Mild.effect {n n' : Node β} (h : Mild n n') : Effect p n n' := by
  cases h with
  | regs f h => exact .regs f
  | math s => exact .math s
  | load width a => exact .load width a
  | store width a v => exact .store width a v
  | record e => exact .record e
  | tally index count => exact .tally index count

/-- So ordinary instructions and services come to effects. -/
theorem tolerant_effects : Tolerant (Effects p (β := β)) where
  refl _ := .refl
  trans := Effects.trans
  mild h := h.effect.effects
  allocatePage segment _ := (Effect.allocate segment).effects
  freePage page _ := (Effect.free page).effects

/-- Whatever a computation comes to, what it has done is a sequence of effects. -/
def Works {α : Type} (p : Platform) (x : NodeM β α) : Prop := ∀ n, Effects p n (finalState x n)

/-- A change of the registers is one effect. -/
theorem works_modifyRegs (f : RegisterFile → RegisterFile) :
    Works p (modifyRegs f : NodeM β Unit) :=
  fun _ => (Effect.regs f).effects

/-- A change of the recorded frames is one effect. -/
theorem works_modifyFrames (f : Core → List Frame) :
    Works p (modifyCore fun c => { c with frames := f c } : NodeM β Unit) :=
  fun n => (Effect.frames (f n.core)).effects

/-- A change of the active interrupts is one effect. -/
theorem works_modifyStacks (f : Core → List (Option UInt32)) :
    Works p (modifyCore fun c => { c with interruptStacks := f c } : NodeM β Unit) :=
  fun n => (Effect.interrupts (f n.core)).effects

/-- A frame is two pushes, a change of the frame pointer and a record. -/
theorem works_pushFrame : Works p (pushFrame : NodeM β Unit) := by
  have hR := tolerant_effects (p := p) (β := β)
  refine hR.bind hR.getRegs fun regs => hR.bind (hR.push _) fun _ => ?_
  refine hR.bind hR.getRegs fun regs' => hR.bind (hR.push _) fun _ n => ?_
  exact .tail (Effect.regs fun regs => { regs with fp := regs.sp }).effects (.frames _)

/-- To take a frame down is a number of effects. -/
theorem works_popFrame (p : Platform) : Works p (popFrame p : NodeM β Unit) :=
  tolerant_effects.popFrame p tolerant_effects.pop (fun _ => works_modifyRegs _)
    (fun _ => works_modifyRegs _) (works_modifyFrames _)

/-! ## Interrupts -/

/-- Measures that work are taken after a failure. -/
theorem Works.onFailure {α : Type} {x : NodeM β α} (hx : Works p x)
    {measures : Node β → Node β} (hm : ∀ n, Effects p n (measures n)) :
    Works p (onFailure x measures) := by
  intro n
  have h := hx n
  rcases hrun : x n with ⟨a, n'⟩ | ⟨e, n'⟩
  · rw [finalState_of_ok hrun] at h
    rw [finalState_of_ok (onFailure_eq_ok_iff.2 hrun)]
    exact h
  · rw [finalState_of_error hrun] at h
    rw [finalState_of_error (onFailure_eq_error_iff.2 ⟨n', hrun, rfl⟩)]
    exact h.trans (hm n')

/-- To enter a handler is a number of effects, and to undo a failed entry some more. -/
theorem works_enterHandler (table : Address) (index : UInt32) :
    Works p (enterHandler table index : NodeM β Unit) := by
  have hR := tolerant_effects (p := p) (β := β)
  unfold enterHandler
  refine hR.bind (fun n => (Effect.vector table index).effects) fun v => ?_
  refine hR.bind (hR.handlerStack v) fun stack => hR.bind hR.getRegs fun old => ?_
  refine hR.bind (works_modifyRegs _) fun _ => hR.bind ?_ fun _ => hR.bind ?_ fun _ => hR.note _
  · refine Works.onFailure (hR.saveContext _ _ works_pushFrame) fun n => ?_
    have hregs := (Effect.regs fun regs => { regs with ds := old.ds, sp := old.sp } :
      Effect p n _).effects
    split
    · exact hregs.tail (.free _)
    · exact hregs
  · intro n
    exact .tail (Effect.interrupts (stack.2 :: n.core.interruptStacks)).effects
      (.regs fun regs => { regs with
        flags := { regs.flags with privileged := true }
        cs := v.cs.toUInt32
        ip := v.ip })

/-- The page of a handler is dropped from the data cache and then freed. -/
theorem works_freeStack (page : Option UInt32) : Works p (freeStack page : NodeM β Unit) := by
  have hR := tolerant_effects (p := p) (β := β)
  cases page with
  | none => exact hR.note _
  | some page =>
    refine Does.getCore_bind fun n => hR.bind_at ?_ fun _ => ?_
    · rw [finalState_onBus]
      exact (Effect.drop page).effects
    · exact hR.bind (hR.freePage page) fun _ => hR.note _

/-- To leave a handler is a number of effects. -/
theorem works_leaveHandler (p : Platform) : Works p (leaveHandler p : NodeM β Unit) := by
  have hR := tolerant_effects (p := p) (β := β)
  intro n
  rcases hstacks : n.core.interruptStacks with _ | ⟨page, outer⟩
  · rw [finalState_of_error (leaveHandler_of_nil p hstacks)]
    exact .refl
  · rw [finalState_congr (leaveHandler_of_cons p hstacks)]
    refine hR.bind_at (works_popFrame p n) fun _ => ?_
    refine hR.bind (hR.takeContext hR.pop works_modifyRegs) fun _ => ?_
    exact hR.bind (works_modifyStacks _) fun _ => works_freeStack page

/-! ## Ends of an instruction -/

/-- What an instruction comes to: effects only, or in the end the core is suspended or halted. -/
inductive Outcome (p : Platform) (n : Node β) : Node β → Prop
  | works {n' : Node β} (h : Effects p n n') : Outcome p n n'
  | suspends {n' : Node β} (h : Effects p n n') (f : RegisterFile → RegisterFile) :
    Outcome p n (n'.suspend.mapRegs f)
  | halts {n' : Node β} (h : Effects p n n') (code : UInt32) (f : RegisterFile → RegisterFile) :
    Outcome p n ((n'.halt code).mapRegs f)

/-- The registers may change at the end, as the count of instructions does. -/
theorem Outcome.mapRegs {n n' : Node β} (h : Outcome p n n') (g : RegisterFile → RegisterFile) :
    Outcome p n (n'.mapRegs g) := by
  cases h with
  | works h => exact .works (h.tail (.regs g))
  | suspends h f => exact .suspends h (g ∘ f)
  | halts h code f => exact .halts h code (g ∘ f)

/-- Effects may come before what an instruction comes to. -/
theorem Effects.outcome {n n' n'' : Node β} (h : Effects p n n') (h' : Outcome p n' n'') :
    Outcome p n n'' := by
  cases h' with
  | works h' => exact .works (h.trans h')
  | suspends h' f => exact .suspends (h.trans h') f
  | halts h' code f => exact .halts (h.trans h') code f

/-- Whatever a computation comes to, it is an outcome of an instruction. -/
def Ends {α : Type} (p : Platform) (x : NodeM β α) : Prop := ∀ n, Outcome p n (finalState x n)

/-- A computation that does not end the life of the core comes to effects. -/
theorem Works.ends {α : Type} {x : NodeM β α} (hx : Works p x) : Ends p x :=
  fun n => .works (hx n)

/-- What ends may follow after what works. -/
theorem Works.bind_ends {α γ : Type} {x : NodeM β α} {f : α → NodeM β γ} (hx : Works p x)
    (hf : ∀ a, Ends p (f a)) : Ends p (x >>= f) := by
  intro n
  have h := hx n
  rcases hrun : x n with ⟨a, n'⟩ | ⟨e, n'⟩
  · rw [finalState_of_ok hrun] at h
    rw [finalState_congr (bind_of_ok hrun)]
    exact h.outcome (hf a n')
  · rw [finalState_of_error hrun] at h
    rw [finalState_of_error (bind_of_error hrun)]
    exact .works h

/-- An installed instruction set is selected by one effect. -/
theorem works_selectSet (id : UInt8) : Works p (selectSet p id : NodeM β Unit) :=
  tolerant_effects.selectSet p id fun h _ => (Effect.select id h).effects

/-- To halt is an outcome. -/
theorem ends_halt (code : UInt32) : Ends p (modify fun n => n.halt code : NodeM β Unit) :=
  fun _ => .halts .refl code id

/-- To wait is an outcome. -/
theorem ends_suspend : Ends p (modify suspend : NodeM β Unit) := fun _ => .suspends .refl id

/-- The halt service halts the core, and the other services work. -/
theorem ends_serve (index : UInt32) (s : Service) : Ends p (serve index s : NodeM β Unit) := by
  have hR := tolerant_effects (p := p) (β := β)
  cases s with
  | halt => exact Works.bind_ends (hR.read _) ends_halt
  | memory => exact Works.ends (hR.serve index _ nofun)
  | counter => exact Works.ends (hR.serve index _ nofun)
  | refuse => exact Works.ends (hR.serve index _ nofun)

/-- The instructions that are not ordinary are told apart, since they may end the life of the
core. -/
theorem ends_executeBase (p : Platform) (i : Instruction) :
    Ends p (executeBase p i : NodeM β Unit) := by
  have hR := tolerant_effects (p := p) (β := β)
  cases i with
  | hlt code => exact Works.bind_ends (hR.operand code) ends_halt
  | idle => exact ends_suspend
  | int index =>
    refine Works.bind_ends (hR.operand index) fun index => ?_
    unfold softwareInterrupt
    split
    · exact ends_serve index _
    · exact (works_enterHandler _ _).ends
  | retint => exact (works_leaveHandler p).ends
  | call target =>
    refine Works.ends (hR.bind (hR.jumpTarget target) fun ip => ?_)
    exact hR.bind works_pushFrame fun _ => hR.jumpTo ip
  | ret => exact (works_popFrame p).ends
  | cli => exact Works.ends (works_modifyRegs _)
  | sti => exact Works.ends (works_modifyRegs _)
  | lpm => exact Works.ends (works_modifyRegs _)
  | _ => exact Works.ends (hR.executeBase p works_selectSet rfl)

/-- Whatever the dialect makes of an instruction, it comes to an outcome. -/
theorem ends_execute (p : Platform) (d : Dialect) (i : Instruction) :
    Ends p (execute p d i : NodeM β Unit) := by
  cases d with
  | base => exact ends_executeBase p i
  | math => exact Works.ends (tolerant_effects.executeMath p works_selectSet i)

/-! ## Steps -/

/-- What is left of a step, once its instruction is known, comes to an outcome. -/
theorem ends_carryOut (p : Platform) (set : InstructionSet) (ip : UInt32) (i : Instruction) :
    Ends p (carryOut p set ip i : NodeM β Unit) := by
  have hR := tolerant_effects (p := p) (β := β)
  have hcnt : Ends p (do
      execute p set.runs i
      modifyRegs fun regs => { regs with cnt := regs.cnt + 1 } : NodeM β Unit) := by
    intro n
    have h := ends_execute p set.runs i n
    rcases hrun : execute p set.runs i n with ⟨a, n'⟩ | ⟨e, n'⟩
    · rw [finalState_of_ok hrun] at h
      rw [finalState_congr (bind_of_ok hrun)]
      exact h.mapRegs fun regs => { regs with cnt := regs.cnt + 1 }
    · rw [finalState_of_error hrun] at h
      rw [finalState_of_error (bind_of_error hrun)]
      exact h
  have hgo : Ends p (do
      note fun id => .execute id ip set.name i
      execute p set.runs i
      modifyRegs fun regs => { regs with cnt := regs.cnt + 1 } : NodeM β Unit) :=
    Works.bind_ends (hR.note _) fun _ => hcnt
  refine Works.bind_ends (hR.jumpTo _) fun _ => Works.bind_ends hR.getRegs fun regs => ?_
  dsimp only
  split
  · exact Works.bind_ends (hR.throw _) fun _ => hgo
  · exact hgo

/-- The node once its core has fetched the next instruction, or has tried to. -/
def primed (p : Platform) (n : Node β) : Node β :=
  match p.sets[n.core.activeSet]? with
  | none => n
  | some set => finalState (fetch set (n.core.codeAddress n.core.regs.ip)) n

/-- With an installed set, the next instruction is fetched. -/
theorem primed_of_some {set : InstructionSet} {n : Node β}
    (hset : p.sets[n.core.activeSet]? = some set) :
    n.primed p = finalState (fetch set (n.core.codeAddress n.core.regs.ip)) n := by
  rw [primed, hset]

/-- Without one, nothing is done. -/
theorem primed_of_none {n : Node β} (hset : p.sets[n.core.activeSet]? = none) :
    n.primed p = n := by
  rw [primed, hset]

/-- An instruction that is fetched ends in an outcome, and so does a fetch that fails. -/
theorem outcome_executeNext (p : Platform) (n : Node β) :
    Outcome p (n.primed p) (finalState (executeNext p) n) := by
  rcases hset : p.sets[n.core.activeSet]? with _ | set
  · rw [primed_of_none hset, finalState_of_error (executeNext_of_none hset)]
    exact .works .refl
  · rw [primed_of_some hset, finalState_congr (executeNext_of_some hset)]
    rcases hrun : fetch set (n.core.codeAddress n.core.regs.ip) n with ⟨i, n'⟩ | ⟨fault, n'⟩
    · rw [finalState_of_ok hrun, finalState_congr (bind_of_ok hrun)]
      exact ends_carryOut p set n.core.regs.ip i n'
    · rw [finalState_of_error hrun, finalState_of_error (bind_of_error hrun)]
      exact .works .refl

/-- What a step comes to: nothing if the core is not running, and else a fetch and the outcome of
an instruction, after which the core may die. -/
theorem step_cases (p : Platform) (n : Node β) :
    step p n = (false, n) ∧ n.core.isRunnable = false ∨
      n.core.isRunnable = true ∧ ∃ n', Outcome p (n.primed p) n' ∧
        (step p n = (true, n') ∨ ∃ fault, step p n = (true, n'.die fault)) := by
  unfold step
  rcases hr : n.core.isRunnable with _ | _
  · exact .inl ⟨rfl, rfl⟩
  · right
    have h := outcome_executeNext p n
    rcases hrun : executeNext p n with ⟨a, n'⟩ | ⟨fault, n'⟩
    · rw [finalState_of_ok hrun] at h
      exact ⟨rfl, n', h, .inl rfl⟩
    · rw [finalState_of_error hrun] at h
      exact ⟨rfl, n', h, .inr ⟨fault, rfl⟩⟩

/-- What a hardware interrupt comes to: nothing if the core does not take it, and else effects
on the awake core, after which the core may die. -/
theorem interrupt_cases (p : Platform) (index : UInt32) (n : Node β) :
    interrupt p index n = (false, n) ∨
      n.core.isAlive = true ∧ ∃ n', Effects p n.wake n' ∧
        (interrupt p index n = (true, n') ∨
          ∃ fault, interrupt p index n = (true, n'.die fault)) := by
  unfold interrupt
  split
  · next hc =>
    right
    have h := works_enterHandler (p := p) p.vectorTable index n.wake
    rcases hrun : enterHandler p.vectorTable index n.wake with ⟨a, n'⟩ | ⟨fault, n'⟩
    · rw [finalState_of_ok hrun] at h
      exact ⟨hc.1, n', h, .inl rfl⟩
    · rw [finalState_of_error hrun] at h
      exact ⟨hc.1, n', h, .inr ⟨fault, rfl⟩⟩
  · exact .inl rfl

end Multicore.Node
