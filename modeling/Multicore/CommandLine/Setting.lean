import Multicore.CommandLine.Help

/-!
# Settings on a command line

A command takes settings and an operand. A setting is a flag, or it has a value, which follows an
equals sign or is the next argument. A setting stands at most once, and after `--` every
argument is an operand. The arguments are taken from the left: the first one that is not in
order refuses them all, and before it `--help` or `-h` asks for the help page.
-/

namespace Multicore.CommandLine

/-- What a setting does to the options of a command. -/
inductive Effect (σ : Type) where
  /-- The setting has no value. -/
  | flag (put : σ → σ)
  /-- The setting has a value. A value for which `put` has no answer is refused. -/
  | valued (put : String → σ → Option σ)

/-- A setting of a command whose options are a `σ`. -/
structure Setting (σ : Type) where
  /-- The name, without the hyphens in front. -/
  name : String
  /-- What the help page says about it. -/
  description : String
  effect : Effect σ
  /-- The value that the help page names for a setting that is not given. -/
  initial : Option String := none

namespace Setting

variable {σ : Type}

/-- A setting without a value. -/
def flag (name description : String) (put : σ → σ) : Setting σ :=
  { name, description, effect := .flag put }

/-- A setting with a value that is read by `value?`. -/
def of {α : Type} (name description : String) (value? : List Char → Option α) (put : α → σ → σ)
    (initial : Option String) : Setting σ :=
  { name, description, initial,
    effect := .valued fun v s => (value? v.toList).map fun a => put a s }

/-- A setting with any text as its value. -/
def text (name description : String) (put : String → σ → σ) : Setting σ :=
  { name, description, effect := .valued fun v s => some (put v s) }

/-- The setting as the help page writes it. The value has the name of the setting, in capital
letters. -/
def label (s : Setting σ) : String :=
  "--" ++ s.name ++
    match s.effect with
    | .flag _ => ""
    | .valued _ => " <" ++ s.name.map (fun c => if c = '-' then '_' else c.toUpper) ++ ">"

/-- The line of the help page about the setting. -/
def helpEntry (s : Setting σ) : HelpEntry :=
  .long s.label (s.description ++ (s.initial.map fun v => " [default: " ++ v ++ "]").getD "")

/-- A setting as it stands among the arguments: its name and the value after an equals sign. -/
def named? (arg : String) : Option (String × Option String) :=
  match arg.toList with
  | '-' :: '-' :: cs =>
    let name := String.ofList (cs.takeWhile (· ≠ '='))
    match cs.dropWhile (· ≠ '=') with
    | [] => some (name, none)
    | _ :: value => some (name, some (String.ofList value))
  | _ => none

/-- Whether an argument cannot be a value or an operand. A hyphen alone can. -/
def isHyphenated (arg : String) : Bool :=
  match arg.toList with
  | '-' :: _ :: _ => true
  | _ => false

end Setting

/-- Whether an argument is a group of letters after one hyphen, of which the first is `letter`.
That letter decides, and those after it are not looked at. -/
def startsWithLetter (letter : Char) (arg : String) : Bool :=
  match arg.toList with
  | '-' :: c :: _ => c = letter
  | _ => false

/-- The reasons to stop before all arguments are taken. -/
inductive Interruption where
  /-- The arguments are not in order. -/
  | refused
  /-- The help page is asked for. -/
  | help
  deriving DecidableEq, Inhabited

/-- What is known of a command after some of its arguments. -/
structure Progress (σ : Type) where
  options : σ
  /-- The names of the settings so far. -/
  given : List String := []
  operand : Option String := none

variable {σ : Type}

/-- Take an operand, of which there is at most one. -/
def Progress.takeOperand (p : Progress σ) (arg : String) : Except Interruption (Progress σ) :=
  if p.operand.isSome then .error .refused else .ok { p with operand := some arg }

/-- Take a setting with its value, which stands at most once. -/
def Progress.takeValue (p : Progress σ) (name : String) (put : String → σ → Option σ)
    (value : String) : Except Interruption (Progress σ) :=
  if p.given.contains name then .error .refused
  else
    match put value p.options with
    | some options => .ok { p with options, given := name :: p.given }
    | none => .error .refused

/-- Take a flag, which stands at most once. -/
def Progress.takeFlag (p : Progress σ) (name : String) (put : σ → σ) :
    Except Interruption (Progress σ) :=
  p.takeValue name (fun _ options => some (put options)) ""

/-- Take the arguments one after the other. -/
def takeArguments (settings : List (Setting σ)) :
    List String → Progress σ → Except Interruption (Progress σ)
  | [], p => .ok p
  | arg :: rest, p =>
    if arg = "--" then rest.foldlM Progress.takeOperand p
    else
      match Setting.named? arg with
      | none =>
        if startsWithLetter 'h' arg then .error .help
        else if Setting.isHyphenated arg then .error .refused
        else do takeArguments settings rest (← p.takeOperand arg)
      | some ("help", none) => .error .help
      | some (name, attached) =>
        match (settings.find? fun s => s.name = name).map Setting.effect, attached, rest with
        | some (.flag put), none, rest => do
          takeArguments settings rest (← p.takeFlag name put)
        | some (.valued put), some v, rest => do
          takeArguments settings rest (← p.takeValue name put v)
        | some (.valued put), none, v :: rest =>
          if Setting.isHyphenated v then .error .refused
          else do takeArguments settings rest (← p.takeValue name put v)
        | _, _, _ => .error .refused

/-- The options of a command that takes one operand, and the operand. -/
def parseOptions (settings : List (Setting σ)) (default : σ) (args : List String) :
    Except Interruption (String × σ) :=
  match takeArguments settings args { options := default } with
  | .ok p =>
    match p.operand with
    | some operand => .ok (operand, p.options)
    | none => .error .refused
  | .error e => .error e

end Multicore.CommandLine
