import Multicore.Machine

/-!
# Simulations

A simulation runs a machine round by round until every core has halted. A timer, if there is
one, interrupts all cores each time a certain number of rounds has passed.

A run ends when no core is alive, when the limit on the number of rounds is reached, or when
no core can run and there is no timer to wake one.
-/

namespace Multicore

/-- When the timer interrupts and how long a simulation may last. -/
structure Schedule where
  /-- The rounds between two interrupts of the timer. Zero stands for no timer. -/
  timerInterval : Option Nat := none
  timerInterrupt : UInt32 := 0
  /-- The most rounds, unless a run is given its own limit. -/
  maxRounds : Option Nat := none
  deriving DecidableEq, Inhabited

/-- The interval of the timer, if there is one. -/
def Schedule.timer? (s : Schedule) : Option Nat := s.timerInterval.filter (0 < ·)

/-- The reasons to end a run before every core has halted. -/
inductive RunError where
  /-- The cores that are alive are all suspended and nothing can wake them. -/
  | deadlock (suspended : Nat)
  /-- The limit on the number of rounds is reached. -/
  | stepLimit (rounds : Nat)
  deriving DecidableEq, Inhabited

/-- The wording of the reason. -/
def RunError.message : RunError → String
  | .deadlock suspended =>
    "deadlock: " ++ toString suspended ++ " core(s) suspended with no timer to wake them"
  | .stepLimit rounds => "step limit of " ++ toString rounds ++ " rounds reached"

/-- A machine under a schedule. -/
structure Simulation (β : Type) where
  machine : Machine β
  schedule : Schedule := {}
  /-- The rounds that were run. -/
  rounds : Nat := 0

namespace Simulation

variable {β : Type} [PhysicalMemory β]

/-- Write an image to memory, past the caches, and reserve its pages. -/
def load (a : Address) (image : List UInt8) : EStateM MemoryError (Simulation β) Unit := fun s =>
  let store (memory : β) : Simulation β :=
    { s with machine.bus.memory := memory }
  match PhysicalMemory.placeImage a image s.machine.bus.memory with
  | .ok _ memory => .ok () (store memory)
  | .error e memory => .error e (store memory)

/-- Do something with the machine. -/
def onMachine {α : Type} (x : MachineM β α) : EStateM ControlError (Simulation β) α := fun s =>
  match x s.machine with
  | .ok a machine => .ok a { s with machine }
  | .error e machine => .error e { s with machine }

/-- One round: every running core executes an instruction, and then the timer may interrupt.
The answer is the number of cores that executed. -/
def round (s : Simulation β) : Nat × Simulation β :=
  let (stepped, machine) := s.machine.round
  let rounds := s.rounds + 1
  match s.schedule.timer? with
  | some interval =>
    if rounds % interval = 0 then
      (stepped, { s with machine := (machine.interruptAll s.schedule.timerInterrupt).2, rounds })
    else (stepped, { s with machine, rounds })
  | none => (stepped, { s with machine, rounds })

/-- Run at most `fuel` rounds. The answer is `none` if the run is not over by then. -/
def runFor (limit : Option Nat) :
    (fuel : Nat) → Simulation β → Option (Except RunError UInt32) × Simulation β
  | 0, s => (if s.machine.isAlive then none else some (.ok s.machine.exitCode), s)
  | fuel + 1, s =>
    if ¬ s.machine.isAlive then (some (.ok s.machine.exitCode), s)
    else if limit.any (· ≤ s.rounds) then (some (.error (.stepLimit s.rounds)), s)
    else
      let (stepped, s) := s.round
      if s.schedule.timer?.isNone ∧ stepped = 0 ∧ s.machine.isAlive then
        (some (.error (.deadlock (s.machine.countIn .suspended))), s)
      else runFor limit fuel s

/-- The rounds after which a run that has no limit is given up: its rounds would no longer fit
a 64-bit counter. -/
def endless : Nat := UInt64.size

/-- Run until every core has halted. The limit of the schedule holds unless another one is
given. The answer is the exit code of the machine. -/
def run (limit : Option Nat) (s : Simulation β) : Option (Except RunError UInt32) × Simulation β :=
  let limit := limit <|> s.schedule.maxRounds
  let fuel := match limit with
    | some l => l - s.rounds + 1
    | none => endless
  s.runFor limit fuel

end Simulation

end Multicore
