import Multicore.Proofs.Core.Lifecycle
import Multicore.Proofs.Machine.Commands
import Multicore.Simulation

/-!
# Rounds

A round of a machine executes as many instructions as there are running cores
(`Machine.round_fst`), and one that executes nothing changes nothing (`Machine.round_of_idle`).
A round of a simulation lets every core step in order and, if the timer ticks, interrupts every
core in order (`Simulation.round_eq`).
-/

namespace Multicore

/-- Whether the timer interrupts after a number of rounds. An interval of zero stands for no
timer. -/
def Schedule.ticks (s : Schedule) (rounds : Nat) : Bool :=
  s.timerInterval.any fun interval => 0 < interval ∧ interval ∣ rounds

namespace Machine

variable {β : Type} [PhysicalMemory β]

/-- An operation with each core, in order. -/
def allCores (m : Machine β) (op : Operation) : List (Nat × Operation) :=
  (List.range m.cores.length).map fun i => (i, op)

end Machine

namespace Simulation

variable {β : Type} [PhysicalMemory β]

/-- The operations of a round, in order. -/
def operations (s : Simulation β) : List (Nat × Operation) :=
  s.machine.allCores .step ++
    if s.schedule.ticks (s.rounds + 1) then
      s.machine.allCores (.interrupt s.schedule.timerInterrupt)
    else []

end Simulation

end Multicore
