import Multicore.CommandLine.Command
import Multicore.Config
import Multicore.Memory.Paged

/-!
# Sessions

`Session.execute` carries a command out and answers with what it prints and its exit code. The
exit code is that of the machine, and at most 255; a command that fails ends with code 1.
-/

namespace Multicore

open Text

/-- What can be read from the file with a name, or the reason why nothing can. -/
abbrev Files := String → Except String (List UInt8)

/-- The reasons for a command to fail. -/
inductive CommandError where
  | unreadable (path reason : String)
  | configuration (error : Json.ReadError)
  | memory (error : MemoryError)
  | control (error : ControlError)
  | run (error : RunError)
  /-- The run has no end. -/
  | endless
  deriving DecidableEq, Inhabited

/-- The wording of the reasons to refuse a text. -/
def Json.ReadError.message : Json.ReadError → String
  | .truncated => "the text ends early"
  | .malformed => "the text is not well-formed"
  | .mistyped => "a value is missing or has the wrong type"

/-- The wording of a failure. -/
def CommandError.message : CommandError → String
  | .unreadable path reason => "cannot read " ++ path ++ ": " ++ reason
  | .configuration e => "invalid configuration: " ++ e.message
  | .memory e => "memory: " ++ e.message
  | .control e => e.message
  | .run e => e.message
  | .endless => "the run does not end"

/-- What a command has printed. -/
structure Transcript where
  output : Array String := #[]
  /-- The lines on the error stream. -/
  errors : Array String := #[]
  /-- The log of the events. -/
  log : List String := []
  deriving Inhabited

/-- What a command does. -/
abbrev Session := EStateM CommandError Transcript

namespace Session

/-- Print a line. -/
def print (line : String) : Session Unit :=
  modify fun t => { t with output := t.output.push line }

/-- Print a line on the error stream. -/
def complain (line : String) : Session Unit :=
  modify fun t => { t with errors := t.errors.push line }

/-- Read a file. -/
def readFile (files : Files) (path : String) : Session (List UInt8) :=
  match files path with
  | .ok bytes => return bytes
  | .error reason => throw (.unreadable path reason)

/-- Read a file that holds text. -/
def readText (files : Files) (path : String) : Session String := do
  match String.fromUTF8? ⟨(← readFile files path).toArray⟩ with
  | some text => return text
  | none => throw (.unreadable path "stream did not contain valid UTF-8")

/-- Read a file that holds a JSON text. -/
def readJson {α : Type} (files : Files) (path : String)
    (read : String → Except Json.ReadError α) : Session α := do
  match read (← readText files path) with
  | .ok a => return a
  | .error e => throw (.configuration e)

/-- Do something with the simulation. -/
def onSimulation {ε β α : Type} (s : Simulation β) (wrap : ε → CommandError)
    (x : EStateM ε (Simulation β) α) : Session (Simulation β) :=
  match x s with
  | .ok _ s => return s
  | .error e _ => throw (wrap e)

/-- Report a core that died: its registers, and a backtrace from the inside out. -/
def reportCore (symbols : SymbolTable) (c : Core) : Session Unit := do
  if let some fault := c.lastFault then
    let stage := if fault.isDecodeFault then "decoding" else "executing"
    complain ("[!] core " ++ toString c.id ++ " died " ++ stage ++ ": " ++ fault.message)
    c.regs.dump.forM fun line => complain ("    " ++ line)
    (c.backtrace symbols).reverse.zipIdx.forM fun (entry, depth) =>
      complain ("    #" ++ toString depth ++ " " ++ entry.text)

/-- Run an image. The answer is the exit code of the machine. -/
def runImage (files : Files) (image : String) (o : RunOptions) : Session UInt32 := do
  let config ← match o.config with
    | some path => readJson files path Config.ofText
    | none => pure {}
  let config := { config with
    general.cores := o.cores.getD config.general.cores
    general.traceInstructions := config.general.traceInstructions || o.trace }
  let symbols ← match o.symbols with
    | some path => readJson files path (SymbolTable.ofText o.init.cs.toUInt32)
    | none => pure {}
  let s : Simulation PagedMemory :=
    .ofConfig config { symbols } (.ofSize config.memorySize) config.general.traceInstructions
  let bytes ← readFile files image
  let s ← onSimulation s .memory (Simulation.load o.imageAddress bytes)
  print ("[*] " ++ image ++ " (" ++ toString bytes.length ++ " bytes) at " ++
    paddedHex 8 o.imageAddress.toNat ++ ", " ++ toString config.general.cores ++
    " core(s), booting " ++ toString o.booted)
  let s ← onSimulation s .control (Simulation.onMachine (Machine.bootFirst o.booted o.initOf))
  let (outcome, s) := s.run o.maxRounds
  modify fun t => { t with log := s.machine.journal.events.map Event.logLine }
  s.machine.cores.forM (reportCore symbols)
  match outcome with
  | some (.ok code) =>
    print ("[*] Exit code " ++ toString code.toNat ++ " after " ++ toString s.rounds ++ " rounds")
    return code
  | some (.error e) => throw (.run e)
  | none => throw .endless

/-- List an image as instructions. -/
def listImage (files : Files) (image : String) (o : ListingOptions) : Session Unit := do
  let bytes ← readFile files image
  (wordsOfBytes bytes).zipIdx.forM fun (w, i) => do
    let a := o.base + 4 * i.toUInt32
    print (paddedHex 8 a.toNat ++ ":  " ++ paddedHexDigits 8 w.toNat ++ "  " ++
      InstructionSets.standard.disassemble o.set w)

/-- Carry a command out. The answer is its exit code. -/
def execute (files : Files) : Command → Session Nat
  | .run image options => do
    return min (← runImage files image options).toNat 255
  | .disassemble image options => do
    listImage files image options
    return 0
  | .showHelp topic => do
    topic.page.lines.forM print
    return 0
  | .showVersion => do
    print versionText
    return 0

/-- Carry a command out from the start. A failure is reported and has the exit code 1. -/
def run (files : Files) (command : Command) : Nat × Transcript :=
  match execute files command {} with
  | .ok code t => (code, t)
  | .error e t => (1, { t with errors := t.errors.push ("[!] " ++ e.message) })

end Session

end Multicore
