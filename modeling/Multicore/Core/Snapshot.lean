import Multicore.Core.Node

/-!
# Snapshots

A snapshot is what a core would need to go on elsewhere: its registers, its stage, its
instruction set and its operand stack. The caches, the recorded frames and the active
interrupts are not part of it.

`Node.restore` lets a core that was never started go on from a snapshot of an alive core.
-/

namespace Multicore

/-- The state of a core as it is handed around. -/
structure Snapshot where
  id : Nat
  state : Lifecycle
  general : List UInt32
  fp : UInt32
  sp : UInt32
  ds : UInt32
  cs : UInt32
  ip : UInt32
  flags : Flags
  cnt : UInt64
  activeSet : UInt8
  /-- The values of the operand stack, the bottom first. -/
  mathValues : List Int64
  exitCode : UInt32
  /-- The wording of the fault that killed the core. -/
  fault : Option String
  deriving DecidableEq, Inhabited

namespace Core

/-- The snapshot of a core. -/
def snapshot (c : Core) : Snapshot where
  id := c.id
  state := c.state
  general := c.regs.general.toList
  fp := c.regs.fp
  sp := c.regs.sp
  ds := c.regs.ds
  cs := c.regs.cs
  ip := c.regs.ip
  flags := c.regs.flags
  cnt := c.regs.cnt
  activeSet := c.activeSet
  mathValues := c.math.values.reverse
  exitCode := c.exitCode
  fault := c.lastFault.map Fault.message

/-- The core with the registers, the instruction set and the operand stack of a snapshot.
General registers that the snapshot lacks are zero, values that the operand stack cannot hold
are left out, and an instruction set that is not installed gives way to the base set. -/
def resumed (c : Core) (sets : InstructionSets) (s : Snapshot) : Core :=
  { c with
    regs := {
      general := Vector.ofFn fun i : Fin 30 => s.general[i]?.getD 0
      fp := s.fp
      sp := s.sp
      ds := s.ds
      cs := s.cs
      ip := s.ip
      flags := s.flags
      cnt := s.cnt }
    activeSet := if sets.contains s.activeSet then s.activeSet else InstructionSet.base.id
    math := .ofList s.mathValues
    fetched := c.fetched.clear }

end Core

/-- Let a core that was never started go on from a snapshot of an alive core. Its data cache
takes part from now on. -/
def Node.restore {β : Type} (p : Platform) (s : Snapshot) : EStateM ControlError (Node β) Unit :=
  fun n =>
    if n.core.state ≠ .reset then
      .error (.invalidState n.core.id .restore n.core.state) n
    else if ¬ s.state.isAlive then
      .error (.invalidState n.core.id .restore s.state) n
    else
      let n := n.mapCore fun c => c.resumed p.sets s
      let n := { n with bus := n.bus.register n.core.id n.core.id }
      .ok () (n.setState s.state)

end Multicore
