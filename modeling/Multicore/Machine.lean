import Multicore.Core.Execute
import Multicore.Core.Snapshot

/-!
# Machines

A machine is a row of cores that share a memory. Operations on all cores go through them in
the order of their numbers, so what a core does is seen by the cores after it.
-/

namespace Multicore

/-- A machine. The number of a core is its place in the list. -/
structure Machine (β : Type) extends Shared β where
  platform : Platform
  cores : List Core

/-- What the control operations of a machine do. -/
abbrev MachineM (β : Type) := EStateM ControlError (Machine β)

namespace Machine

variable {β : Type}

/-- A machine of cores that were never booted, with caches of the given capacities. -/
def new (platform : Platform) (memory : β) (cores instructionCapacity dataCapacity : Nat)
    (recording : Bool) : Machine β where
  bus := { memory, capacity := dataCapacity }
  journal := { recording }
  platform
  cores := (List.range cores).map fun i => .new i instructionCapacity

/-- A core with what it shares with the others. -/
def node? (m : Machine β) (i : Nat) : Option (Node β) :=
  m.cores[i]?.map fun core => { m.toShared with core }

/-- The machine after something happened on a core. -/
def setNode (m : Machine β) (i : Nat) (n : Node β) : Machine β :=
  { m with toShared := n.toShared, cores := m.cores.set i n.core }

/-- Do something on one core. -/
def onCore {α : Type} (i : Nat) (x : EStateM ControlError (Node β) α) : MachineM β α := fun m =>
  match m.node? i with
  | none => .error (.noSuchCore i) m
  | some n =>
    match x n with
    | .ok a n => .ok a (m.setNode i n)
    | .error e n => .error e (m.setNode i n)

/-- Do something on every core of a list, in order. -/
def sweepCores {α : Type} (f : Node β → α × Node β) :
    List Core → Shared β → (List α × List Core) × Shared β
  | [], shared => (([], []), shared)
  | core :: rest, shared =>
    let (a, n) := f { shared with core }
    let ((as, cores), shared) := sweepCores f rest n.toShared
    ((a :: as, n.core :: cores), shared)

/-- Do something on every core, in order. -/
def sweep {α : Type} (f : Node β → α × Node β) (m : Machine β) : List α × Machine β :=
  let ((answers, cores), shared) := sweepCores f m.cores m.toShared
  (answers, { m with toShared := shared, cores })

/-- Change every core, in order. -/
def mapNodes (f : Node β → Node β) (m : Machine β) : Machine β :=
  (m.sweep fun n => ((), f n)).2

/-! ## Control -/

/-- Boot the first `count` cores, each with its own state. Nothing happens if there are fewer
cores. A core that was booted before ends the operation. -/
def bootFirst (count : Nat) (init : Nat → BootState) : MachineM β Unit := do
  let cores := (← get).cores.length
  if cores < count then throw (.tooManyBootStates count cores)
  (List.range count).forM fun i => onCore i (Node.boot (init i))

/-- Boot the first cores with the states of a list. -/
def boot (states : List BootState) : MachineM β Unit :=
  bootFirst states.length fun i => states.getD i default

/-- Suspend every running core. -/
def suspend : Machine β → Machine β := mapNodes Node.suspend

/-- Wake every suspended core. -/
def wake : Machine β → Machine β := mapNodes Node.wake

/-- Let one core go on from a snapshot of another. -/
def copyCore (source target : Nat) : MachineM β Unit := do
  let m ← get
  match m.cores[source]? with
  | none => throw (.noSuchCore source)
  | some core => onCore target (Node.restore m.platform core.snapshot)

/-! ## What is known about the cores -/

/-- Whether a core is running or suspended. -/
def isAlive (m : Machine β) : Bool := m.cores.any Core.isAlive

/-- The numbers of the running cores. -/
def runnable (m : Machine β) : List Nat := (m.cores.filter Core.isRunnable).map Core.id

/-- The number of cores in a stage. -/
def countIn (m : Machine β) (state : Lifecycle) : Nat := m.cores.countP fun c => c.state = state

/-- The exit code of the machine: that of the first core whose code is not zero. -/
def exitCode (m : Machine β) : UInt32 :=
  ((m.cores.map Core.exitCode).find? fun code => code ≠ 0).getD 0

variable [PhysicalMemory β]

/-- Halt every core that is alive. -/
def halt (exitCode : UInt32) : Machine β → Machine β :=
  mapNodes fun n => if n.core.isAlive then n.halt exitCode else n

/-- Let every running core execute one instruction. The answer is the number of cores that
did. -/
def round (m : Machine β) : Nat × Machine β :=
  let (ran, after) := m.sweep (Node.step m.platform)
  (ran.count true, after)

/-- Deliver a hardware interrupt to every core. The answer is the number of cores that took
it. -/
def interruptAll (index : UInt32) (m : Machine β) : Nat × Machine β :=
  let (taken, after) := m.sweep (Node.interrupt m.platform index)
  (taken.count true, after)

end Machine

end Multicore
