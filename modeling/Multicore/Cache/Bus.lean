import Multicore.Cache.HalfwordCache
import Std.Data.TreeMap

/-!
# The bus

The bus joins the data caches of the cores to the memory and keeps them coherent. The registry
names the caches that take part. A core that writes a halfword makes all the others drop their
copies; a core that misses makes all the others write a dirty copy back before it reads memory.

All accesses go by halfwords: a byte is a part of one, and a word is two of them, low half
first. A core's data cache has the core's number.
-/

namespace Multicore

open Std

/-- The state in which a computation ends, whether it succeeds or fails. -/
def finalState {ε σ α : Type} (x : EStateM ε σ α) (s : σ) : σ :=
  match x s with
  | .ok _ s => s
  | .error _ s => s

/-- The memory, the data caches and the registry of the caches that take part. -/
structure Bus (β : Type) where
  memory : β
  /-- The capacity of a data cache that is not yet in `stores`. -/
  capacity : Nat
  /-- The lines of the data caches. -/
  stores : TreeMap Nat HalfwordCache := ∅
  /-- The data caches that take part, by the number under which they were registered. -/
  registry : TreeMap Nat Nat := ∅

namespace Bus

variable {β : Type}

/-- The lines of a data cache. -/
def store (bus : Bus β) (i : Nat) : HalfwordCache := bus.stores.getD i (.empty bus.capacity)

/-- The bus with the lines of one data cache replaced. -/
def setStore (bus : Bus β) (i : Nat) (s : HalfwordCache) : Bus β :=
  { bus with stores := bus.stores.insert i s }

/-- Do something with the memory. -/
def onMemory {α : Type} (x : EStateM MemoryError β α) : EStateM Fault (Bus β) α := fun bus =>
  match x bus.memory with
  | .ok a memory => .ok a { bus with memory }
  | .error e memory => .error (.ofMemory e) { bus with memory }

/-- Do something with a data cache and the memory. -/
def onStore {α : Type} (i : Nat) (x : HalfwordCache.Run β α) : EStateM Fault (Bus β) α := fun bus =>
  match x (bus.store i, bus.memory) with
  | .ok a (s, memory) => .ok a { bus.setStore i s with memory }
  | .error e (s, memory) => .error (.ofMemory e) { bus.setStore i s with memory }

/-- The value that a data cache has at an address, marked as used. -/
def lookup (i : Nat) (a : Address) : EStateM Fault (Bus β) (Option UInt16) := fun bus =>
  let (found, s) := (bus.store i).lookup a
  .ok found (bus.setStore i s)

/-! ## The registry -/

/-- Let the data cache `i` take part under a number, in place of any other. -/
def register (bus : Bus β) (number i : Nat) : Bus β :=
  { bus with registry := bus.registry.insert number i }

/-- Let the data cache with a number take no more part. -/
def unregister (bus : Bus β) (number : Nat) : Bus β :=
  { bus with registry := bus.registry.erase number }

/-- Whether a data cache takes part under a number. -/
def isRegistered (bus : Bus β) (number : Nat) : Bool := bus.registry.contains number

/-- The numbers under which data caches take part, in ascending order. -/
def registered (bus : Bus β) : List Nat := bus.registry.keys

variable [PhysicalMemory β]

/-! ## Coherency -/

/-- Release the lines that a selector covers from every data cache that takes part, except the
one under the number `except`. A cache whose memory fails is left as it is then. -/
def broadcast (bus : Bus β) (except : Option Nat) (selector : Selector)
    (writeback remove : Bool) : Bus β :=
  (bus.registry.toList.filter fun (number, _) => some number ≠ except).foldl
    (fun bus (_, i) => finalState (onStore i (HalfwordCache.release selector writeback remove)) bus)
    bus

/-- Make the other data caches drop their copies of a halfword that was written. -/
def announceWrite (bus : Bus β) (number : Nat) (a : Address) : Bus β :=
  bus.broadcast (some number) (.address a) false true

/-- Make the other data caches write back a halfword that is about to be read. -/
def announceMiss (bus : Bus β) (number : Nat) (a : Address) : Bus β :=
  bus.broadcast (some number) (.address a) true false

/-- Make every data cache drop the lines that a selector covers. -/
def discard (bus : Bus β) (selector : Selector) (writeback : Bool) : Bus β :=
  bus.broadcast none selector writeback true

/-! ## Access through a data cache -/

/-- Refuse an address that is not a multiple of the width. -/
def checkAlignment (a : Address) (width : UInt32) : EStateM Fault (Bus β) Unit :=
  if a % width = 0 then pure () else throw (.unalignedAccess a)

/-- Read a halfword at an even address. -/
def fetchHalf (i : Nat) (a : Address) : EStateM Fault (Bus β) UInt16 := do
  match ← lookup i a with
  | some value => return value
  | none =>
    modify fun bus => bus.announceMiss i a
    let value ← onMemory (PhysicalMemory.readHalf a)
    onStore i (HalfwordCache.fill a value)
    return value

/-- Write a halfword at an even address. A halfword that is not cached is first read from
memory. -/
def putHalf (i : Nat) (a : Address) (value : UInt16) : EStateM Fault (Bus β) Unit := do
  unless ((← get).store i).contains a do
    -- no miss is announced, since the value that is read is overwritten at once
    let current ← onMemory (PhysicalMemory.readHalf a)
    onStore i (HalfwordCache.fill a current)
  onStore i (HalfwordCache.store a value)
  modify fun bus => bus.announceWrite i a

/-- Read a halfword. -/
def readHalf (i : Nat) (a : Address) : EStateM Fault (Bus β) UInt16 := do
  checkAlignment a 2
  fetchHalf i a

/-- Write a halfword. -/
def writeHalf (i : Nat) (a : Address) (value : UInt16) : EStateM Fault (Bus β) Unit := do
  checkAlignment a 2
  putHalf i a value

/-- Read a byte. -/
def readByte (i : Nat) (a : Address) : EStateM Fault (Bus β) UInt8 := do
  let half ← fetchHalf i a.halfword
  return if a % 2 = 0 then lowByte half else highByte half

/-- Write a byte into the halfword that holds it. -/
def writeByte (i : Nat) (a : Address) (value : UInt8) : EStateM Fault (Bus β) Unit := do
  let half ← fetchHalf i a.halfword
  putHalf i a.halfword <|
    if a % 2 = 0 then halfOfBytes value (highByte half) else halfOfBytes (lowByte half) value

/-- Read a word. -/
def readWord (i : Nat) (a : Address) : EStateM Fault (Bus β) UInt32 := do
  checkAlignment a 4
  let lo ← fetchHalf i a
  let hi ← fetchHalf i (a + 2)
  return wordOfHalves lo hi

/-- Write a word. -/
def writeWord (i : Nat) (a : Address) (value : UInt32) : EStateM Fault (Bus β) Unit := do
  checkAlignment a 4
  putHalf i a (lowHalf value)
  putHalf i (a + 2) (highHalf value)

/-- Release lines of one data cache. -/
def release (i : Nat) (selector : Selector) (writeback remove : Bool) :
    EStateM Fault (Bus β) Nat :=
  onStore i (HalfwordCache.release selector writeback remove)

/-- Write every dirty line of one data cache back and keep the lines. -/
def flush (i : Nat) : EStateM Fault (Bus β) Nat := release i .all true false

end Bus

end Multicore
