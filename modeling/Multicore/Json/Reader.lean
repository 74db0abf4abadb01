import Multicore.Json.Number
import Multicore.Text.Numeral

/-!
# Reading JSON

A reader takes a value off the front of a text. What a value is read into decides which values
are accepted: a reader for a number refuses a list, though a list is JSON. `ReadError` tells
apart the three ways to fail, and of two faults in a text the first one counts.

`ignoreValue` passes over a value of any kind.
-/

namespace Multicore.Json

/-- The reasons to refuse a text. -/
inductive ReadError where
  /-- The text ends in the middle of a value. -/
  | truncated
  /-- The text is not JSON, or goes on after the value. -/
  | malformed
  /-- The text is JSON, and the value is not one that is asked for. -/
  | mistyped
  deriving DecidableEq, Inhabited

/-- A computation that reads the front of a text. -/
abbrev Reader := StateT (List Char) (Except ReadError)

/-! ## Characters -/

/-- The characters that may stand between the parts of a value. -/
def isBlank (c : Char) : Bool := c = ' ' || c = '\n' || c = '\t' || c = '\r'

/-- Pass over blanks and look at the next character. -/
def peek? : Reader (Option Char) := fun cs =>
  let cs := cs.dropWhile isBlank
  .ok (cs.head?, cs)

/-- Pass over blanks and look at the next character, which has to exist. -/
def peek : Reader Char := do
  match ← peek? with
  | some c => return c
  | none => throw .truncated

/-- Pass over one character. -/
def skip : Reader Unit := modify List.tail

/-- Take the next character, which has to exist. -/
def take : Reader Char := do
  match ← get with
  | c :: rest => set rest; return c
  | [] => throw .truncated

/-- Pass over the characters of a word. -/
def literal : List Char → Reader Unit
  | [] => pure ()
  | c :: rest => do
    if (← take) = c then literal rest else throw .malformed

/-- The word that starts with the character, of the three that are values. -/
def wordOf? (c : Char) : Option (List Char) :=
  if c = 'n' then some ['n', 'u', 'l', 'l']
  else if c = 't' then some ['t', 'r', 'u', 'e']
  else if c = 'f' then some ['f', 'a', 'l', 's', 'e']
  else none

/-! ## Numbers -/

/-- Take as many digits as there are. -/
def takeDigits : Reader (List Char) := fun cs =>
  .ok (cs.takeWhile Char.isDigit, cs.dropWhile Char.isDigit)

/-- Take digits, at least one. At the end of the text the reason to fail is `atEnd`. -/
def takeSomeDigits (atEnd : ReadError) : Reader (List Char) := do
  match ← get with
  | [] => throw atEnd
  | _ =>
    match ← takeDigits with
    | [] => throw .malformed
    | digits => return digits

/-- Take a character if it is the next one. -/
def takeIf (p : Char → Bool) : Reader (Option Char) := do
  match ← get with
  | c :: rest => if p c then set rest; return some c else return none
  | [] => return none

/-- Read a number. A number that is cut off at the end of the text fails with `atEnd`. -/
def number (atEnd : ReadError) : Reader Number := do
  let negative := (← takeIf (· = '-')).isSome
  let whole ← takeSomeDigits atEnd
  if whole.head? = some '0' && whole ≠ ['0'] then throw .malformed
  let fraction ← (do
    if (← takeIf (· = '.')).isSome then return some (← takeSomeDigits atEnd) else return none)
  let exponent ← (do
    if (← takeIf fun c => c = 'e' || c = 'E').isSome then
      let sign ← takeIf fun c => c = '+' || c = '-'
      return some (sign == some '-', ← takeSomeDigits atEnd)
    else return none)
  return { negative, whole, fraction, exponent }

/-- Read a number that a double can hold. -/
def finiteNumber : Reader Number := do
  let n ← number .truncated
  if n.isHuge then throw .malformed else return n

/-! ## Texts -/

/-- Read four hexadecimal digits. They are cut off if fewer than four bytes of text remain. -/
def hexUnit : Reader Nat := do
  let block := (← get).take 4
  match block.mapM Text.hexValue? with
  | some [a, b, c, d] =>
    modify (List.drop 4)
    return ((a * 16 + b) * 16 + c) * 16 + d
  | _ =>
    if block.foldl (fun n c => n + c.utf8Size) 0 < 4 then throw .truncated else throw .malformed

/-- Whether a code unit is the first half of a pair. -/
def isLeading (unit : Nat) : Bool := 0xd800 ≤ unit && unit < 0xdc00

/-- Whether a code unit is the second half of a pair. -/
def isTrailing (unit : Nat) : Bool := 0xdc00 ≤ unit && unit < 0xe000

/-- Read the character of an escape with a code unit, after its `u`. Two units that form a pair
are one character, and half a pair is none. -/
def unitEscape : Reader Char := do
  let first ← hexUnit
  if isTrailing first then throw .malformed
  else if isLeading first then
    literal ['\\', 'u']
    let second ← hexUnit
    if isTrailing second then
      return Char.ofNat (0x10000 + (first - 0xd800) * 0x400 + (second - 0xdc00))
    else throw .malformed
  else return Char.ofNat first

/-- The character of an escape that is a single letter. -/
def letterEscape? (c : Char) : Option Char :=
  if c = '"' || c = '\\' || c = '/' then some c
  else if c = 'b' then some '\x08'
  else if c = 'f' then some '\x0c'
  else if c = 'n' then some '\n'
  else if c = 'r' then some '\r'
  else if c = 't' then some '\t'
  else none

/-- Read the rest of a text, up to its closing quote. With `paired`, half a pair of code units
is refused; without it, the code units stand for no character. -/
def textBody (paired : Bool) : (fuel : Nat) → List Char → Reader String
  | 0, _ => throw .truncated
  | fuel + 1, read => do
    let c ← take
    if c = '"' then return String.ofList read.reverse
    else if c = '\\' then
      let e ← take
      if e = 'u' then
        if paired then textBody paired fuel ((← unitEscape) :: read)
        else
          let _ ← hexUnit
          textBody paired fuel read
      else
        match letterEscape? e with
        | some c => textBody paired fuel (c :: read)
        | none => throw .malformed
    else if c < ' ' then throw .malformed
    else textBody paired fuel (c :: read)

/-- Read a text. -/
def text (paired : Bool) : Reader String := do
  skip
  textBody paired ((← get).length + 1) []

/-! ## Values that are passed over -/

/-- Pass over a colon. -/
def colon : Reader Unit := do
  if (← peek) = ':' then skip else throw .malformed

mutual

/-- Pass over a value. -/
def ignore : (fuel : Nat) → Reader Unit
  | 0 => throw .truncated
  | fuel + 1 => do
    let c ← peek
    match wordOf? c with
    | some word => literal word
    | none =>
      if c = '-' || c.isDigit then let _ ← number .malformed
      else if c = '"' then let _ ← text false
      else if c = '[' then
        skip
        if (← peek?) = some ']' then skip else ignoreElements fuel
      else if c = '\x7b' then
        skip
        if (← peek?) = some '\x7d' then skip else ignoreMembers fuel
      else throw .malformed

/-- Pass over the elements of a list and its closing bracket. -/
def ignoreElements : (fuel : Nat) → Reader Unit
  | 0 => throw .truncated
  | fuel + 1 => do
    ignore fuel
    let c ← peek
    if c = ',' then
      skip
      ignoreElements fuel
    else if c = ']' then skip
    else throw .malformed

/-- Pass over the members of an object and its closing brace. -/
def ignoreMembers : (fuel : Nat) → Reader Unit
  | 0 => throw .truncated
  | fuel + 1 => do
    if (← peek) = '"' then let _ ← text false else throw .malformed
    colon
    ignore fuel
    let c ← peek
    if c = ',' then
      skip
      ignoreMembers fuel
    else if c = '\x7d' then skip
    else throw .malformed

end

/-- Pass over a value of any kind. -/
def ignoreValue : Reader Unit := do ignore (2 * (← get).length + 2)

/-! ## Values that are read -/

/-- Refuse a value because of its kind. A value that is no JSON is malformed first of all;
what is inside a list or an object does not matter. -/
def refuse {α : Type} : Reader α := do
  let c ← peek
  match wordOf? c with
  | some word => literal word; throw .mistyped
  | none =>
    if c = '-' || c.isDigit then
      let _ ← finiteNumber
      throw .mistyped
    else if c = '"' then
      let _ ← text true
      throw .mistyped
    else if c = '[' || c = '\x7b' then throw .mistyped
    else throw .malformed

/-- Read an integer from `least` on and below `bound`. -/
def integer (least bound : Int) : Reader Int := do
  let c ← peek
  if c = '-' || c.isDigit then
    match (← finiteNumber).integer? with
    | some n => if least ≤ n ∧ n < bound then return n else throw .mistyped
    | none => throw .mistyped
  else refuse

/-- Read a natural number below a bound. -/
def natural (bound : Nat) : Reader Nat := do return (← integer 0 bound).toNat

/-- Read a word of 32 bits. -/
def word : Reader UInt32 := do return (← natural UInt32.size).toUInt32

/-- Read a truth value. -/
def bool : Reader Bool := do
  let c ← peek
  if c = 't' || c = 'f' then
    literal ((wordOf? c).getD [])
    return c = 't'
  else refuse

/-- Read a text that is asked for. -/
def string : Reader String := do
  if (← peek) = '"' then text true else refuse

/-- Read a null. -/
def null : Reader Unit := do
  if (← peek) = 'n' then literal ['n', 'u', 'l', 'l'] else refuse

/-- Read a value or a null. -/
def optional {α : Type} (value : Reader α) : Reader (Option α) := do
  if (← peek?) = some 'n' then
    null
    return none
  else return some (← value)

/-- Read the elements of a list and its closing bracket. -/
def listElements {α : Type} (value : Reader α) :
    (fuel : Nat) → (first : Bool) → List α → Reader (List α)
  | 0, _, _ => throw .truncated
  | fuel + 1, first, read => do
    let c ← peek
    if c = ']' then
      skip
      return read.reverse
    else
      if ¬ first then
        if c = ',' then skip else throw .malformed
        if (← peek) = ']' then throw .malformed
      listElements value fuel false ((← value) :: read)

/-- Read a list. -/
def list {α : Type} (value : Reader α) : Reader (List α) := do
  if (← peek) = '[' then
    skip
    listElements value ((← get).length + 1) true []
  else refuse

/-- Read the members of an object and its closing brace. A member is read by `member`, which is
given the name and finds the colon next. -/
def members {σ : Type} (member : String → σ → Reader σ) :
    (fuel : Nat) → (first : Bool) → σ → Reader σ
  | 0, _, _ => throw .truncated
  | fuel + 1, first, s => do
    let c ← peek
    if c = '\x7d' then
      skip
      return s
    else
      if ¬ first then
        if c = ',' then skip else throw .malformed
      if (← peek) = '"' then
        let name ← text true
        members member fuel false (← member name s)
      else throw .malformed

/-- Read an object member by member, after its opening brace was seen. -/
def object {σ : Type} (member : String → σ → Reader σ) (s : σ) : Reader σ := do
  skip
  members member ((← get).length + 1) true s

/-- Read a whole text. Only blanks may follow the value. -/
def Reader.run {α : Type} (value : Reader α) (text : String) : Except ReadError α :=
  match value text.toList with
  | .error e => .error e
  | .ok (a, rest) => if rest.all isBlank then .ok a else .error .malformed

end Multicore.Json
