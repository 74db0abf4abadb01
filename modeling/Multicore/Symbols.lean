import Multicore.Text.Hex
import Std.Data.TreeMap

/-!
# Symbols

A symbol table names code locations. A location within a segment belongs to the nearest symbol
at or below it.
-/

namespace Multicore

open Std

/-- The symbols of each code segment, by their addresses. -/
structure SymbolTable where
  segments : TreeMap UInt32 (TreeMap UInt32 String) := ∅

namespace SymbolTable

instance : Inhabited SymbolTable := ⟨{}⟩

/-- Add a symbol, in place of one at the same location. -/
def insert (t : SymbolTable) (cs address : UInt32) (name : String) : SymbolTable :=
  ⟨t.segments.insert cs ((t.segments.getD cs ∅).insert address name)⟩

/-- The table of the symbols of one segment. Of two symbols with one name the later counts. -/
def ofNames (cs : UInt32) (symbols : List (String × UInt32)) : SymbolTable :=
  let byName : TreeMap String UInt32 :=
    symbols.foldl (fun named (name, address) => named.insert name address) ∅
  byName.foldl (fun t name address => t.insert cs address name) {}

/-- The symbol that a location belongs to, and the distance from the symbol's start. -/
def resolve (t : SymbolTable) (cs ip : UInt32) : Option (String × UInt32) := do
  let segment ← t.segments[cs]?
  let (start, name) ← segment.getEntryLE? ip
  return (name, ip - start)

/-- The number of symbols. -/
def size (t : SymbolTable) : Nat := t.segments.foldl (fun n _ segment => n + segment.size) 0

/-- Whether the table has no symbols. -/
def isEmpty (t : SymbolTable) : Bool := t.size = 0

end SymbolTable

end Multicore
