import Multicore.Cache.RecencyMap
import Multicore.Fault

/-!
# The instruction cache

Decoded instructions by the address they were fetched from. Stores to memory do not reach the
cache: it keeps what it has until it is cleared.
-/

namespace Multicore

/-- A cache of decoded instructions, with counts of hits and misses. -/
structure InstructionCache where
  entries : RecencyMap Address Instruction
  hits : Nat := 0
  misses : Nat := 0

namespace InstructionCache

/-- The cache without entries. -/
def empty (capacity : Nat) : InstructionCache := { entries := .empty capacity }

instance : Inhabited InstructionCache := ⟨empty 1⟩

/-- The instruction at an address. On a miss the instruction is fetched, and kept only if the
fetch succeeds. -/
def get {σ : Type} (a : Address) (fetch : Address → EStateM Fault σ Instruction) :
    EStateM Fault (InstructionCache × σ) Instruction := fun (cache, s) =>
  match cache.entries.get a with
  | (some i, entries) => .ok i ({ cache with entries, hits := cache.hits + 1 }, s)
  | (none, entries) =>
    let cache := { cache with entries, misses := cache.misses + 1 }
    match fetch a s with
    | .ok i s => .ok i ({ cache with entries := (cache.entries.insert a i).2 }, s)
    | .error fault s => .error fault (cache, s)

/-- Drop every entry. The counts stay. -/
def clear (cache : InstructionCache) : InstructionCache :=
  { cache with entries := cache.entries.clear }

/-- The number of entries. -/
def size (cache : InstructionCache) : Nat := cache.entries.size

/-- Whether the instruction at an address is cached. -/
def contains (cache : InstructionCache) (a : Address) : Bool := cache.entries.contains a

end InstructionCache

end Multicore
