import Multicore.Core.Basic
import Multicore.Memory.Basic

/-!
# Events

A machine can keep a journal of what its cores do. `Event.logLine` writes an event as a line of
a log: a level, a message and named values.
-/

namespace Multicore

open Text

/-- Something that a core did. -/
inductive Event where
  | boot (core : Nat) (init : BootState)
  /-- The core is about to execute an instruction. -/
  | execute (core : Nat) (ip : UInt32) (set : String) (instruction : Instruction)
  /-- The core entered the handler of an interrupt. -/
  | interrupt (core : Nat) (index : UInt32) (vector : InterruptVector)
  /-- The core left the handler of an interrupt. -/
  | interruptExit (core : Nat)
  /-- The core is about to die. -/
  | fault (core : Nat) (ip : UInt32) (cause : Fault)
  | halt (core : Nat) (exitCode : UInt32)
  | stateChange (core : Nat) (before after : Lifecycle)
  deriving DecidableEq, Inhabited

/-- A name and a value, as they stand in a log line. -/
def logField (name value : String) : String := " " ++ name ++ "=" ++ value

/-- A quoted text. -/
def quoted (s : String) : String := "\"" ++ s ++ "\""

/-- The line of an event in a log. -/
def Event.logLine : Event → String
  | .boot core init =>
    "INFO core booted" ++ logField "core" (toString core) ++
      logField "cs" (toString init.cs.toNat) ++ logField "ds" (toString init.ds.toNat) ++
      logField "ip" (paddedHex 8 init.ip.toNat) ++ logField "sp" (paddedHex 8 init.sp.toNat) ++
      logField "privileged" (if init.privileged then "true" else "false")
  | .execute core ip set i =>
    "TRACE " ++ i.text ++ logField "core" (toString core) ++
      logField "ip" (paddedHex 8 ip.toNat) ++ logField "set" (quoted set)
  | .interrupt core index vector =>
    "DEBUG interrupt entry" ++ logField "core" (toString core) ++
      logField "index" (hex index.toNat) ++ logField "cs" (toString vector.cs.toNat) ++
      logField "ip" (paddedHex 8 vector.ip.toNat)
  | .interruptExit core => "DEBUG interrupt exit" ++ logField "core" (toString core)
  | .fault core ip cause =>
    "WARN core fault" ++ logField "core" (toString core) ++
      logField "ip" (paddedHex 8 ip.toNat) ++ logField "fault" cause.message
  | .halt core exitCode =>
    "INFO core halted" ++ logField "core" (toString core) ++
      logField "exit_code" (toString exitCode.toNat)
  | .stateChange core before after =>
    "DEBUG state change" ++ logField "core" (toString core) ++
      logField "from" (quoted before.name) ++ logField "to" (quoted after.name)

/-- A record of events, if anybody keeps one. -/
structure Journal where
  recording : Bool := false
  /-- The events, the latest first. -/
  latest : List Event := []
  deriving Inhabited

namespace Journal

/-- The journal after one more event. -/
def record (j : Journal) (e : Event) : Journal :=
  if j.recording then { j with latest := e :: j.latest } else j

/-- The events in the order in which they happened. -/
def events (j : Journal) : List Event := j.latest.reverse

/-- The journal without its events. -/
def clear (j : Journal) : Journal := { j with latest := [] }

end Journal

end Multicore
