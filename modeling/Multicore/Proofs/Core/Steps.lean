import Multicore.Core.Execute
import Multicore.Proofs.Coherence.Width
import Multicore.Proofs.Computation

/-!
# The parts of a computation

Rules to follow a computation of a core step by step: the parts that do not fail, what is done on
the bus, and loads and stores as one access with the width as a parameter.
-/

namespace Multicore.Node

variable {β : Type} [PhysicalMemory β]

/-! ## Steps that do not fail -/

section
variable {α : Type}
omit [PhysicalMemory β]

theorem getCore_bind (f : Core → NodeM β α) (n : Node β) : (getCore >>= f) n = f n.core n := rfl

/-- What is done with the registers is done with those of the node. -/
theorem getRegs_bind (f : RegisterFile → NodeM β α) (n : Node β) :
    (getRegs >>= f) n = f n.core.regs n :=
  rfl

/-- What comes after a change of the registers starts from the registers changed. -/
theorem modifyRegs_bind (g : RegisterFile → RegisterFile) (f : PUnit → NodeM β α) (n : Node β) :
    (modifyRegs g >>= f) n = f ⟨⟩ (n.mapRegs g) :=
  rfl

/-- What comes after a change of the core starts from the core changed. -/
theorem modifyCore_bind (g : Core → Core) (f : PUnit → NodeM β α) (n : Node β) :
    (modifyCore g >>= f) n = f ⟨⟩ (n.mapCore g) :=
  rfl

/-- What succeeds on the bus replaces that of the node. -/
theorem onBus_of_ok {x : EStateM Fault (Bus β) α} {n : Node β} {a : α} {bus : Bus β}
    (h : x n.bus = .ok a bus) : onBus x n = .ok a { n with bus } := by
  rw [onBus, h]

/-- What fails on the bus leaves it as the failure did. -/
theorem onBus_of_error {x : EStateM Fault (Bus β) α} {n : Node β} {fault : Fault} {bus : Bus β}
    (h : x n.bus = .error fault bus) : onBus x n = .error fault { n with bus } := by
  rw [onBus, h]

/-- A computation on the answer may be made on the bus or on the node. -/
theorem onBus_map {γ : Type} (x : EStateM Fault (Bus β) α) (f : α → γ) (n : Node β) :
    onBus (do return f (← x)) n = (do return f (← onBus x) : NodeM β γ) n := by
  rcases h : x n.bus with ⟨a, bus⟩ | ⟨e, bus⟩
  · have hmap : (do return f (← x) : EStateM Fault (Bus β) γ) n.bus = .ok (f a) bus := bind_of_ok h
    rw [bind_of_ok (onBus_of_ok h), onBus_of_ok hmap]
    rfl
  · have hmap : (do return f (← x) : EStateM Fault (Bus β) γ) n.bus = .error e bus :=
      bind_of_error h
    rw [bind_of_error (onBus_of_error h), onBus_of_error hmap]

/-- What is done on the bus, whether it succeeds or fails, changes the bus only. -/
theorem finalState_onBus {α : Type} (x : EStateM Fault (Bus β) α) (n : Node β) :
    finalState (onBus x) n = { n with bus := finalState x n.bus } := by
  rcases h : x n.bus with ⟨a, bus⟩ | ⟨e, bus⟩
  · rw [finalState_of_ok (onBus_of_ok h), finalState_of_ok h]
  · rw [finalState_of_error (onBus_of_error h), finalState_of_error h]

/-- A computation on the bus fails for the node as it does for the bus. -/
theorem onBus_error_iff {x : EStateM Fault (Bus β) α} {n n' : Node β} {fault : Fault} :
    onBus x n = .error fault n' ↔ ∃ bus, x n.bus = .error fault bus ∧ n' = { n with bus } := by
  rcases h : x n.bus with ⟨a, bus⟩ | ⟨e, bus⟩
  · rw [onBus_of_ok h]
    constructor
    · intro h'
      cases h'
    · rintro ⟨_, h', -⟩
      cases h'
  · rw [onBus_of_error h]
    constructor
    · intro h'
      cases h'
      exact ⟨bus, rfl, rfl⟩
    · rintro ⟨_, h', rfl⟩
      cases h'
      rfl

/-- Measures are taken after a failure only. -/
theorem onFailure_eq_ok_iff {x : NodeM β α} {measures : Node β → Node β} {n n' : Node β} {a : α} :
    onFailure x measures n = .ok a n' ↔ x n = .ok a n' := by
  unfold onFailure
  rcases x n with ⟨b, n₁⟩ | ⟨e, n₁⟩
  · exact .rfl
  · constructor <;> intro h <;> cases h

/-- After a failure the measures are taken, and the fault stays the same. -/
theorem onFailure_eq_error_iff {x : NodeM β α} {measures : Node β → Node β} {n n' : Node β}
    {fault : Fault} : onFailure x measures n = .error fault n' ↔
      ∃ n₁, x n = .error fault n₁ ∧ n' = measures n₁ := by
  unfold onFailure
  rcases x n with ⟨b, n₁⟩ | ⟨e, n₁⟩
  · constructor
    · intro h
      cases h
    · rintro ⟨_, h, -⟩
      cases h
  · constructor
    · intro h
      cases h
      exact ⟨n₁, rfl, rfl⟩
    · rintro ⟨_, h, rfl⟩
      cases h
      rfl

end

/-! ## Accesses -/

/-- A load is one access of its width. -/
theorem loadFrom_eq (width : Width) (a : Address) (n : Node β) :
    loadFrom width a n = onBus (Bus.load width n.core.id a) n := by
  unfold loadFrom
  rw [getCore_bind]
  cases width with
  | byte => exact (onBus_map _ UInt8.toUInt32 n).symm
  | half => exact (onBus_map _ UInt16.toUInt32 n).symm
  | word => rfl

/-- A store is one access of its width. -/
theorem storeTo_eq (width : Width) (a : Address) (v : UInt32) (n : Node β) :
    storeTo width a v n = onBus (Bus.storeAt width n.core.id a v) n := by
  cases width with
  | byte => rfl
  | half => rfl
  | word => rfl

/-! ## Leaving a handler -/

/-- Take the saved registers but for the frame pointer and the instruction pointer off the stack. -/
def takeContext : NodeM β Unit := do
  popGeneral
  let flags ← pop
  modifyRegs fun regs => { regs with flags := .unpack flags }
  let cs ← pop
  modifyRegs fun regs => { regs with cs }
  let sp ← pop
  let ds ← pop
  modifyRegs fun regs => { regs with sp, ds }

/-- Free the page of a handler's stack, if it has one. -/
def freeStack (page : Option UInt32) : NodeM β Unit := do
  if let some page := page then
    let _ ← onBus (Bus.release (← getCore).id (.page page) false true)
    freePage page
  note .interruptExit

/-- Leaving a handler takes down its frame, takes the rest of the context off the stack and then
frees the stack. -/
theorem leaveHandler_of_cons (p : Platform) {n : Node β} {page : Option UInt32}
    {outer : List (Option UInt32)} (h : n.core.interruptStacks = page :: outer) :
    leaveHandler p n = (do
      popFrame p
      takeContext
      modifyCore fun c => { c with interruptStacks := outer }
      freeStack page : NodeM β Unit) n := by
  unfold leaveHandler
  rw [getCore_bind, h]
  simp only [takeContext, bind_assoc]
  rfl

/-- Without an active interrupt there is no handler to leave. -/
theorem leaveHandler_of_nil (p : Platform) {n : Node β} (h : n.core.interruptStacks = []) :
    leaveHandler p n = .error (.invalidFrame 0 n.core.regs.sp) n := by
  unfold leaveHandler
  rw [getCore_bind, h]
  rfl

/-! ## Services -/

/-- The memory service does what the number in the first register asks for. -/
theorem serve_memory (index : UInt32) (n : Node β) : serve index .memory n =
    (match MemoryRequest.ofNumber? (n.core.regs.read (.general 0)) with
      | some r => serveMemory r
      | none => throw (Fault.accessViolation
        (.unknownMemoryService (n.core.regs.read (.general 0))))) n :=
  rfl

omit [PhysicalMemory β] in
/-- A general register may be written in any mode. -/
theorem write_general (number : UInt8) (v : UInt32) (n : Node β) :
    write (.general number) v n =
      .ok () (n.mapRegs fun regs => regs.set (.general number) v) :=
  rfl

omit [PhysicalMemory β] in
/-- What was written to a general register is read from it. -/
theorem read_set_general (regs : RegisterFile) (number : UInt8) (v : UInt32) :
    (regs.set (.general number) v).read (.general number) = v :=
  Vector.getElem_set_self _

/-! ## Steps -/

/-- What is left of a step once the instruction at `ip` is known. -/
def carryOut (p : Platform) (set : InstructionSet) (ip : UInt32) (i : Instruction) :
    NodeM β Unit := do
  jumpTo (ip + 4)
  if set.isPrivileged i ∧ ¬ (← getRegs).flags.privileged then
    throw (.accessViolation (.privilegedInstruction i))
  note fun id => .execute id ip set.name i
  execute p set.runs i
  modifyRegs fun regs => { regs with cnt := regs.cnt + 1 }

/-- Execute an instruction and count it. -/
def retired (p : Platform) (d : Dialect) (i : Instruction) : NodeM β Unit := do
  execute p d i
  modifyRegs fun regs => { regs with cnt := regs.cnt + 1 }

/-- The node when an instruction is about to be executed. -/
def begun (set : InstructionSet) (ip : UInt32) (i : Instruction) (n : Node β) : Node β :=
  (n.mapRegs fun regs => { regs with ip := ip + 4 }).record (.execute n.core.id ip set.name i)

/-- A privileged instruction is refused in unprivileged mode. -/
theorem carryOut_of_refused {p : Platform} {set : InstructionSet} {ip : UInt32} {i : Instruction}
    {n : Node β} (hi : set.isPrivileged i = true) (hu : n.core.regs.flags.privileged = false) :
    carryOut p set ip i n = .error (.accessViolation (.privilegedInstruction i))
      (n.mapRegs fun regs => { regs with ip := ip + 4 }) := by
  have hrefused : set.isPrivileged i = true ∧
      ¬ (n.mapRegs fun regs => { regs with ip := ip + 4 }).core.regs.flags.privileged = true :=
    ⟨hi, by show ¬ n.core.regs.flags.privileged = true; simp [hu]⟩
  unfold carryOut jumpTo
  rw [modifyRegs_bind, getRegs_bind]
  dsimp only
  rw [if_pos hrefused]
  rfl

/-- Any other instruction is executed. -/
theorem carryOut_of_allowed {p : Platform} {set : InstructionSet} {ip : UInt32} {i : Instruction}
    {n : Node β} (h : set.isPrivileged i = true → n.core.regs.flags.privileged = true) :
    carryOut p set ip i n = retired p set.runs i (begun set ip i n) := by
  have hallowed : ¬ (set.isPrivileged i = true ∧
      ¬ (n.mapRegs fun regs => { regs with ip := ip + 4 }).core.regs.flags.privileged = true) :=
    fun ⟨hi, hu⟩ => hu (h hi)
  unfold carryOut jumpTo
  rw [modifyRegs_bind, getRegs_bind]
  dsimp only
  rw [if_neg hallowed]
  rfl

/-- A step fetches the next instruction and carries it out. -/
theorem executeNext_of_some {p : Platform} {n : Node β} {set : InstructionSet}
    (hset : p.sets[n.core.activeSet]? = some set) :
    executeNext p n =
      (do carryOut p set n.core.regs.ip (← fetch set (n.core.codeAddress n.core.regs.ip)) :
        NodeM β Unit) n := by
  unfold executeNext
  rw [getCore_bind, hset]
  rfl

/-- A core whose instruction set is not installed cannot fetch. -/
theorem executeNext_of_none {p : Platform} {n : Node β} (hset : p.sets[n.core.activeSet]? = none) :
    executeNext p n = .error (.invalidInstructionSet n.core.activeSet) n := by
  unfold executeNext
  rw [getCore_bind, hset]
  rfl

end Multicore.Node
