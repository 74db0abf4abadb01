import Multicore.Memory.Paged

/-!
# A memory that fails on demand

A memory with a list of rules that says which accesses it refuses. It does not reserve pages
and writes images byte by byte. With it one can see what a machine does when its memory fails
in the middle of an operation.
-/

namespace Multicore

/-- The operations of a memory that a rule can refuse. -/
inductive MemoryOperation where
  | readByte | readHalf | readWord | writeByte | writeHalf | writeWord
  | allocatePage | freePage | describePage
  deriving DecidableEq, Inhabited

/-- A rule that refuses an operation within a range of addresses or page numbers, once it has
let the first `skip` of them pass. -/
structure RefusalRule where
  operation : MemoryOperation
  first : UInt32
  last : UInt32
  skip : Nat
  deriving DecidableEq, Inhabited

namespace RefusalRule

/-- Whether a rule speaks of an operation at a place. -/
def applies (r : RefusalRule) (op : MemoryOperation) (place : UInt32) : Bool :=
  r.operation = op ∧ r.first ≤ place ∧ place ≤ r.last

/-- Whether the rules refuse an operation, and the rules from then on. The first rule that
applies and has nothing left to skip decides, and those before it skip once less. -/
def judge (op : MemoryOperation) (place : UInt32) : List RefusalRule → Bool × List RefusalRule
  | [] => (false, [])
  | r :: rest =>
    if r.applies op place ∧ r.skip = 0 then (true, r :: rest)
    else
      let r := if r.applies op place then { r with skip := r.skip - 1 } else r
      let (refused, rest) := judge op place rest
      (refused, r :: rest)

end RefusalRule

/-- A memory and the rules by which it fails. -/
structure ScriptedMemory where
  memory : PagedMemory
  rules : List RefusalRule

namespace ScriptedMemory

/-- Do an operation unless the rules refuse it. -/
def guarded {α : Type} (op : MemoryOperation) (place : UInt32) (refusal : MemoryError)
    (x : EStateM MemoryError PagedMemory α) : EStateM MemoryError ScriptedMemory α := fun s =>
  let (refused, rules) := RefusalRule.judge op place s.rules
  if refused then .error refusal { s with rules }
  else
    match x s.memory with
    | .ok a memory => .ok a { memory, rules }
    | .error e memory => .error e { memory, rules }

instance : PhysicalMemory ScriptedMemory where
  size s := PhysicalMemory.size s.memory
  readByte a := guarded .readByte a (.outOfBounds a 1) (PhysicalMemory.readByte a)
  readHalf a := guarded .readHalf a (.outOfBounds a 2) (PhysicalMemory.readHalf a)
  readWord a := guarded .readWord a (.outOfBounds a 4) (PhysicalMemory.readWord a)
  writeByte a b := guarded .writeByte a (.outOfBounds a 1) (PhysicalMemory.writeByte a b)
  writeHalf a h := guarded .writeHalf a (.outOfBounds a 2) (PhysicalMemory.writeHalf a h)
  writeWord a w := guarded .writeWord a (.outOfBounds a 4) (PhysicalMemory.writeWord a w)
  allocatePage segment :=
    guarded .allocatePage 0 (.invalidPage 0) (PagedMemory.allocatePage segment)
  freePage page := guarded .freePage page (.pageNotAllocated page) (PagedMemory.freePage page)
  describePage page :=
    guarded .describePage page (.invalidPage page) (PagedMemory.describePage page)
  freePageCount s := PhysicalMemory.freePageCount s.memory

end ScriptedMemory

end Multicore
