import Multicore.Fault
import Multicore.LittleEndian

/-!
# Memories

A machine runs on any memory that offers the operations of the class `PhysicalMemory`. Each
operation may change the state of the memory, also when it fails. A memory may leave out
`reserve`, which then accepts every request and does nothing, and `load`, which then writes
byte after byte.

The module also holds what a core reads as a whole: a page descriptor and an interrupt vector,
a record of twelve bytes in a table of 64.
-/

namespace Multicore

/-- What is known about a page. -/
structure PageDescriptor where
  index : UInt32
  base : Address
  allocated : Bool
  deriving DecidableEq, Inhabited

/-- A record of an interrupt vector table. -/
structure InterruptVector where
  /-- The code segment of the handler. -/
  cs : UInt16
  /-- The data segment of the handler. -/
  ds : UInt16
  /-- The entry point of the handler. -/
  ip : UInt32
  /-- The stack pointer of the handler. Zero asks for a stack page of its own. -/
  sp : UInt32
  deriving DecidableEq, Inhabited

/-- Bytes in a record of an interrupt vector table. -/
def vectorSize : UInt32 := 12

/-- Records in an interrupt vector table. -/
def vectorCount : UInt32 := 64

/-- Write bytes one after the other from an address on, as far as it goes. -/
def storeBytes {β : Type} (store : Address → UInt8 → EStateM MemoryError β Unit) :
    Address → List UInt8 → EStateM MemoryError β Unit
  | _, [] => pure ()
  | a, b :: rest => do
    store a b
    storeBytes store (a + 1) rest

/-- A memory that cores can run on. -/
class PhysicalMemory (β : Type) where
  /-- The number of bytes. -/
  size : β → UInt32
  readByte : Address → EStateM MemoryError β UInt8
  /-- Read a little-endian halfword at an even address. -/
  readHalf : Address → EStateM MemoryError β UInt16
  /-- Read a little-endian word at a multiple of four. -/
  readWord : Address → EStateM MemoryError β UInt32
  writeByte : Address → UInt8 → EStateM MemoryError β Unit
  /-- Write a little-endian halfword at an even address. -/
  writeHalf : Address → UInt16 → EStateM MemoryError β Unit
  /-- Write a little-endian word at a multiple of four. -/
  writeWord : Address → UInt32 → EStateM MemoryError β Unit
  /-- Allocate a free page, in the given segment if there is one, and fill it with zeros. -/
  allocatePage : Option UInt32 → EStateM MemoryError β UInt32
  /-- Give an allocated page back. -/
  freePage : UInt32 → EStateM MemoryError β Unit
  describePage : UInt32 → EStateM MemoryError β PageDescriptor
  freePageCount : β → Nat
  /-- Allocate every page that the range of addresses touches. -/
  reserve : Address → UInt32 → EStateM MemoryError β Unit := fun _ _ => pure ()
  /-- Write bytes from an address on. -/
  load : Address → List UInt8 → EStateM MemoryError β Unit := storeBytes writeByte

namespace PhysicalMemory

variable {β : Type} [PhysicalMemory β]

/-- The address of a record of an interrupt vector table. -/
def vectorAddress (table : Address) (index : UInt32) : Address := table + index * vectorSize

/-- Read a record of the interrupt vector table at an address. -/
def loadVector (table : Address) (index : UInt32) : EStateM MemoryError β InterruptVector := do
  let base := vectorAddress table index
  let cs ← readHalf base
  let ds ← readHalf (base + 2)
  let ip ← readWord (base + 4)
  let sp ← readWord (base + 8)
  return { cs, ds, ip, sp }

/-- Write a record of the interrupt vector table at an address. -/
def storeVector (table : Address) (index : UInt32) (v : InterruptVector) :
    EStateM MemoryError β Unit := do
  let base := vectorAddress table index
  writeHalf base v.cs
  writeHalf (base + 2) v.ds
  writeWord (base + 4) v.ip
  writeWord (base + 8) v.sp

/-- Write an image to an address and reserve the pages that it touches. -/
def placeImage (a : Address) (image : List UInt8) : EStateM MemoryError β Unit := do
  load a image
  reserve a image.length.toUInt32

/-- Write records into the interrupt vector table at an address and reserve the whole table.
A record that is not listed stays as it is. -/
def installVectors (table : Address) (vectors : List (UInt32 × InterruptVector)) :
    EStateM MemoryError β Unit := do
  vectors.forM fun (index, v) => storeVector table index v
  reserve table (vectorCount * vectorSize)

end PhysicalMemory

end Multicore
