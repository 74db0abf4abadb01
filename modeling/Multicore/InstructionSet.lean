import Multicore.Instruction.Decode
import Std.Data.TreeMap

/-!
# Instruction sets

A core decodes and executes with one of the installed instruction sets, which it selects by
number. A set says in which dialect words are read and by which dialect instructions are
executed. These are the same dialect in the two standard sets, `InstructionSet.base` and
`InstructionSet.math`.
-/

namespace Multicore

open Std

/-- An instruction set. -/
structure InstructionSet where
  id : UInt8
  name : String
  /-- The dialect in which words are decoded and privileged instructions are told. -/
  reads : Dialect
  /-- The dialect that executes instructions. -/
  runs : Dialect
  deriving DecidableEq, Inhabited

namespace InstructionSet

/-- The set that a core starts with. -/
def base : InstructionSet := ⟨0, "base", .base, .base⟩

/-- The set of the math coprocessor. -/
def math : InstructionSet := ⟨1, "math", .math, .math⟩

/-- The instruction that a word encodes. -/
def decode (s : InstructionSet) (w : Word) : Except Fault Instruction := s.reads.decode w

/-- Whether an instruction may run in privileged mode only. -/
def isPrivileged (s : InstructionSet) (i : Instruction) : Bool := s.reads.isPrivileged i

end InstructionSet

/-- The installed instruction sets, by number. -/
abbrev InstructionSets := TreeMap UInt8 InstructionSet

namespace InstructionSets

/-- The table of a list of sets. Of two sets with one number the later stays. -/
def ofList (sets : List InstructionSet) : InstructionSets :=
  sets.foldl (fun table s => table.insert s.id s) ∅

/-- The two standard sets. -/
def standard : InstructionSets := ofList [.base, .math]

/-- The text of a word in a listing. A word that encodes no instruction is shown as data. -/
def disassemble (table : InstructionSets) (set : UInt8) (w : Word) : String :=
  let data := ".word " ++ Text.paddedHex 8 w.toNat
  match table[set]? with
  | none => data ++ "  ; " ++ (Fault.invalidInstructionSet set).message
  | some s =>
    match s.decode w with
    | .ok i => i.text
    | .error _ => data

end InstructionSets

end Multicore
