import Multicore.Json.Reader

/-!
# Records in JSON

A record is read from an object or from a list. In an object each field stands under its name,
in any order and at most once; members with other names are passed over. In a list the fields
stand in their order, and the last ones may be missing. A field that is missing keeps the value
that it had, unless its `Presence` says that it is needed.
-/

namespace Multicore.Json

/-- The records in which a field is needed. -/
inductive Presence where
  | optional
  /-- In a list only. -/
  | listed
  /-- In an object and in a list. -/
  | required
  deriving DecidableEq, Inhabited

/-- A field of a record: its name, and a reader that answers how it changes the record. -/
structure RecordField (σ : Type) where
  name : String
  read : Reader (σ → σ)
  presence : Presence := .optional

/-- The field with a name whose value is read by `value`. -/
def RecordField.of {σ α : Type} (name : String) (value : Reader α) (put : α → σ → σ) :
    RecordField σ :=
  { name, read := do return put (← value) }

/-- The required field with a name whose value is read by `value`. -/
def RecordField.must {σ α : Type} (name : String) (value : Reader α) (put : α → σ → σ) :
    RecordField σ :=
  { RecordField.of name value put with presence := .required }

/-- The field with a name whose value is read by `value`. A list needs it, an object does not. -/
def RecordField.listed {σ α : Type} (name : String) (value : Reader α) (put : α → σ → σ) :
    RecordField σ :=
  { RecordField.of name value put with presence := .listed }

variable {σ : Type}

/-- Read a member of a record, after its name. The names that were read before are kept, and
a field that is read twice is refused. -/
def recordMember (fields : List (RecordField σ)) (name : String) :
    List String × σ → Reader (List String × σ)
  | (before, s) => do
    match fields.find? fun f => f.name = name with
    | none =>
      colon
      ignoreValue
      return (before, s)
    | some f =>
      if before.contains name then throw .mistyped
      colon
      let change ← f.read
      return (name :: before, change s)

/-- Read the elements of a list as the fields of a record, and the closing bracket. -/
def elements : List (RecordField σ) → (first : Bool) → σ → Reader σ
  | [], _, s => do
    if (← peek) = ']' then
      skip
      return s
    else throw .malformed
  | f :: rest, first, s => do
    let c ← peek
    if c = ']' then
      if (f :: rest).any fun f => f.presence ≠ .optional then throw .mistyped
      skip
      return s
    else
      if ¬ first then
        if c = ',' then skip else throw .malformed
        if (← peek) = ']' then throw .malformed
      let change ← f.read
      elements rest false (change s)

/-- Read a record. The fields that are missing are those of `default`. -/
def record (fields : List (RecordField σ)) (default : σ) : Reader σ := do
  let c ← peek
  if c = '\x7b' then
    let (names, s) ← object (recordMember fields) ([], default)
    if fields.all fun f => f.presence ≠ .required || names.contains f.name then return s
    else throw .mistyped
  else if c = '[' then
    skip
    elements fields true default
  else refuse

end Multicore.Json
