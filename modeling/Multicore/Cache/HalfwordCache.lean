import Multicore.Cache.RecencyMap
import Multicore.Cache.Selector
import Multicore.Memory.Basic

/-!
# Halfword caches

The halfwords that one core's data cache holds, each with a mark that says whether memory still
has to be told of it. A cache that is full evicts its least recently used halfword, and writes
it to memory if it is dirty.

`HalfwordCache.release` writes back and drops the halfwords that a selector covers. The halfwords
are written back one after the other; `releaseInOrder` takes the order as a parameter.
-/

namespace Multicore

/-- A cached halfword. -/
structure CacheLine where
  /-- The value differs from the one in memory. -/
  dirty : Bool
  value : UInt16
  deriving DecidableEq, Inhabited

/-- The halfwords held by a data cache, by address, with counts of what happened to them. -/
structure HalfwordCache where
  lines : RecencyMap Address CacheLine
  /-- Lookups that found their halfword. -/
  hits : Nat := 0
  /-- Halfwords read from memory. -/
  misses : Nat := 0
  /-- Halfwords evicted to make room. -/
  evictions : Nat := 0
  /-- Dirty halfwords written to memory. -/
  writebacks : Nat := 0

namespace HalfwordCache

/-- The cache without lines. -/
def empty (capacity : Nat) : HalfwordCache := { lines := .empty capacity }

instance : Inhabited HalfwordCache := ⟨empty 1⟩

/-- The line at an address. The order of use stays. -/
def line? (s : HalfwordCache) (a : Address) : Option CacheLine := s.lines.peek? a

/-- Whether the halfword at an address is cached. -/
def contains (s : HalfwordCache) (a : Address) : Bool := s.lines.contains a

/-- The number of lines. -/
def size (s : HalfwordCache) : Nat := s.lines.size

/-- The number of dirty lines. -/
def dirtyCount (s : HalfwordCache) : Nat := s.lines.toList.countP fun (_, line) => line.dirty

/-- The value at an address, marked as used. -/
def lookup (s : HalfwordCache) (a : Address) : Option UInt16 × HalfwordCache :=
  match s.lines.get a with
  | (some line, lines) => (some line.value, { s with lines, hits := s.hits + 1 })
  | (none, lines) => (none, { s with lines })

/-- The keys that a selector covers, least recently used first. -/
def covered (s : HalfwordCache) (selector : Selector) : List Address :=
  match selector with
  | .address a => if s.contains a.halfword then [a.halfword] else []
  | _ => s.lines.keys.filter selector.covers

variable {β : Type} [PhysicalMemory β]

/-- Computations on a cache in front of its memory. -/
abbrev Run (β : Type) := EStateM MemoryError (HalfwordCache × β)

/-- Give a line to an address. The line that it evicts is lost if memory refuses it. -/
def insert (a : Address) (line : CacheLine) : Run β Unit := fun (s, memory) =>
  match s.lines.insert a line with
  | (none, lines) => .ok () ({ s with lines }, memory)
  | (some (victim, old), lines) =>
    -- the victim is out of the cache before memory is asked to take it
    let s := { s with lines, evictions := s.evictions + 1 }
    if old.dirty then
      let s := { s with writebacks := s.writebacks + 1 }
      match PhysicalMemory.writeHalf victim old.value memory with
      | .ok _ memory => .ok () (s, memory)
      | .error e memory => .error e (s, memory)
    else .ok () (s, memory)

/-- Take in a value read from memory. -/
def fill (a : Address) (value : UInt16) : Run β Unit := fun (s, memory) =>
  insert a { dirty := false, value } ({ s with misses := s.misses + 1 }, memory)

/-- Take in a value that memory does not know yet. -/
def store (a : Address) (value : UInt16) : Run β Unit := insert a { dirty := true, value }

/-- Write the line at an address to memory if it is dirty, and keep it as a clean line. -/
def writeBack (a : Address) : Run β Unit := fun (s, memory) =>
  match s.line? a with
  | some { dirty := true, value } =>
    match PhysicalMemory.writeHalf a value memory with
    | .ok _ memory =>
      let lines := s.lines.adjust a fun line => { line with dirty := false }
      .ok () ({ s with lines, writebacks := s.writebacks + 1 }, memory)
    | .error e memory => .error e (s, memory)
  | _ => .ok () (s, memory)

/-- The cache without the lines at the given addresses. -/
def drop (s : HalfwordCache) (keys : List Address) : HalfwordCache :=
  { s with lines := keys.foldl RecencyMap.erase s.lines }

/-- Write back the lines at the given addresses in the given order, then drop the lines at the
addresses in `keys`. Nothing is dropped when memory refuses a line. -/
def releaseInOrder (order keys : List Address) (writeback remove : Bool) : Run β Nat := do
  if writeback then order.forM writeBack
  if remove then modify fun (s, memory) => (s.drop keys, memory)
  return keys.length

/-- Write back, drop, or both, the lines that a selector covers. The answer is their number. -/
def release (selector : Selector) (writeback remove : Bool) : Run β Nat := do
  let keys := (← get).1.covered selector
  releaseInOrder keys keys writeback remove

end HalfwordCache

end Multicore
