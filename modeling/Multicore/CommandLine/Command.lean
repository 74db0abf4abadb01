import Multicore.CommandLine.Setting
import Multicore.Core.Basic
import Multicore.Text.Numeral

/-!
# Commands

The two commands of the program: `run` loads an image, boots cores and runs the machine, and
`disasm` lists an image as instructions. A third one, `help`, shows the help page of a command.
`Command.ofArguments` reads a command line.
-/

namespace Multicore

open Text CommandLine

/-- How an image is run. -/
structure RunOptions where
  /-- The configuration file. -/
  config : Option String := none
  /-- The address of the image, if it is not the start of the code segment. -/
  loadAddress : Option Address := none
  /-- The number of cores, in place of the configured one. -/
  cores : Option Nat := none
  /-- The number of cores that are booted. -/
  booted : Nat := 1
  /-- The state in which the first core boots. -/
  init : BootState := { cs := 1, ds := 2, sp := 0x10000, ip := 0, privileged := true }
  /-- The distance between the stacks of two cores. -/
  stackSize : UInt32 := 0x1000
  /-- The most rounds, in place of the configured limit. -/
  maxRounds : Option Nat := none
  /-- Keep a log of the events. -/
  trace : Bool := false
  /-- The symbol file. -/
  symbols : Option String := none

/-- How an image is listed. -/
structure ListingOptions where
  /-- The number of the instruction set. -/
  set : UInt8 := 0
  /-- The address of the first word. -/
  base : Address := 0

/-- What there is help on. -/
inductive HelpTopic where
  /-- The program as a whole. The detailed page shows ways to call it. -/
  | program (detailed : Bool)
  | run
  | disassemble
  | help
  deriving DecidableEq, Inhabited

/-- A command, and the image that it is about if there is one. -/
inductive Command where
  | run (image : String) (options : RunOptions)
  | disassemble (image : String) (options : ListingOptions)
  | showHelp (topic : HelpTopic)
  | showVersion

namespace RunOptions

/-- The settings of the command `run`. -/
def settings : List (Setting RunOptions) :=
  [.text "config" "JSON configuration file" fun v o => { o with config := some v },
    .of "load-addr" "Physical load address of the image (defaults to the start of the code segment)"
      (anyNumeral? UInt32.size) (fun n o => { o with loadAddress := some n.toUInt32 }) none,
    .of "cores" "Number of cores (overrides the configuration)"
      (numeral? 10 UInt64.size) (fun n o => { o with cores := some n }) none,
    .of "boot" "Number of cores to boot; each gets its own stack below the previous one"
      (numeral? 10 UInt64.size) (fun n o => { o with booted := n }) "1",
    .of "cs" "Code segment"
      (anyNumeral? UInt16.size) (fun n o => { o with init.cs := n.toUInt16 }) "1",
    .of "ds" "Data segment"
      (anyNumeral? UInt16.size) (fun n o => { o with init.ds := n.toUInt16 }) "2",
    .of "sp" "Initial stack pointer of core 0 (DS-relative)"
      (anyNumeral? UInt32.size) (fun n o => { o with init.sp := n.toUInt32 }) "0x10000",
    .of "stack-size" "Bytes of stack reserved per booted core"
      (anyNumeral? UInt32.size) (fun n o => { o with stackSize := n.toUInt32 }) "0x1000",
    .of "ip" "Entry point (CS-relative)"
      (anyNumeral? UInt32.size) (fun n o => { o with init.ip := n.toUInt32 }) "0",
    .flag "unprivileged" "Boot in unprivileged mode" fun o => { o with init.privileged := false },
    .of "max-steps" "Stop after this many scheduler rounds"
      (numeral? 10 UInt64.size) (fun n o => { o with maxRounds := some n }) none,
    .flag "trace" "Trace every executed instruction" fun o => { o with trace := true },
    .text "symbols" "JSON map of symbol names to CS-relative addresses, for backtraces"
      fun v o => { o with symbols := some v }]

/-- The address of the image. -/
def imageAddress (o : RunOptions) : Address :=
  o.loadAddress.getD (segmentAddress o.init.cs.toUInt32 0)

/-- The state in which a core boots. The stack of each core lies below that of the core
before. -/
def initOf (o : RunOptions) (i : Nat) : BootState :=
  { o.init with sp := o.init.sp - o.stackSize * i.toUInt32 }

end RunOptions

/-- The settings of the command `disasm`. -/
def ListingOptions.settings : List (Setting ListingOptions) :=
  [.of "set" "Instruction set id to decode with"
      (signedNumeral? 10 UInt8.size) (fun n o => { o with set := n.toUInt8 }) "0",
    .of "base" "Address printed for the first word"
      (anyNumeral? UInt32.size) (fun n o => { o with base := n.toUInt32 }) "0"]

/-! ## Help -/

namespace HelpTopic

/-- The name of the program. -/
def programName : String := "smpvm"

/-- What a topic is about, in one line. -/
def summary : HelpTopic → String
  | .program _ => "Multi-core 32-bit virtual machine"
  | .run => "Load a raw image and run it until every core halted"
  | .disassemble => "Disassemble a raw image"
  | .help => "Print this message or the help of the given subcommand(s)"

/-- What the program is about, with some ways to call it. -/
def overview : List String :=
  ["Run a raw guest image on a multi-core VM, or disassemble one.", "", "Examples:",
    "  smpvm run prog.bin --cs 1 --ds 2 --sp 0x8000",
    "  smpvm run prog.bin --cores 4 --boot 4 --config vm.json --trace",
    "  smpvm disasm prog.bin"]

/-- The help page of a command that takes settings and an image. -/
def imagePage {σ : Type} (topic : HelpTopic) (name : String) (settings : List (Setting σ)) :
    HelpPage where
  about := [topic.summary]
  usage := programName ++ " " ++ name ++ " [OPTIONS] <IMAGE>"
  sections :=
    [{ title := "Arguments"
       entries := [⟨"<IMAGE>", "Raw image (little-endian instruction words)"⟩] },
      { title := "Options"
        entries := settings.map Setting.helpEntry ++ [⟨"-h, --help", "Print help"⟩] }]

/-- The help page of a topic. -/
def page : HelpTopic → HelpPage
  | .program detailed =>
    let other := if detailed then "see a summary with '-h'" else "see more with '--help'"
    { about := if detailed then overview else [summary (.program false)]
      usage := programName ++ " <COMMAND>"
      sections :=
        [{ title := "Commands"
           entries := [⟨"run", run.summary⟩, ⟨"disasm", disassemble.summary⟩,
             ⟨"help", help.summary⟩] },
          { title := "Options"
            entries := [⟨"-h, --help", "Print help (" ++ other ++ ")"⟩,
              ⟨"-V, --version", "Print version"⟩]
            spacious := detailed }] }
  | .run => imagePage .run "run" RunOptions.settings
  | .disassemble => imagePage .disassemble "disasm" ListingOptions.settings
  | .help =>
    { about := [help.summary]
      usage := programName ++ " help [COMMAND]..."
      sections :=
        [{ title := "Arguments"
           entries := [⟨"[COMMAND]...", "Print help for the subcommand(s)"⟩] }] }

/-- The topic of the command `help`, by the commands that it is given. -/
def ofArguments : List String → Option HelpTopic
  | [] => some (.program true)
  | ["run"] => some .run
  | ["disasm"] => some .disassemble
  | ["help"] => some .help
  | _ => none

end HelpTopic

/-- The name of the program and its version. -/
def versionText : String := HelpTopic.programName ++ " 0.3.0"

/-! ## Command lines -/

namespace Command

/-- The command with an image and options, or the help page that is asked for instead. -/
def ofOptions {σ : Type} (topic : HelpTopic) (settings : List (Setting σ)) (default : σ)
    (command : String → σ → Command) (args : List String) : Option Command :=
  match parseOptions settings default args with
  | .ok (image, options) => some (command image options)
  | .error .help => some (.showHelp topic)
  | .error .refused => none

/-- The command that the arguments of the program ask for, if they are in order. -/
def ofArguments : List String → Option Command
  | [] => none
  | "run" :: args => ofOptions .run RunOptions.settings {} .run args
  | "disasm" :: args => ofOptions .disassemble ListingOptions.settings {} .disassemble args
  | "help" :: args => (HelpTopic.ofArguments args).map .showHelp
  | "--help" :: _ => some (.showHelp (.program true))
  | "--version" :: _ => some .showVersion
  | arg :: _ =>
    if startsWithLetter 'h' arg then some (.showHelp (.program false))
    else if startsWithLetter 'V' arg then some .showVersion
    else none

/-- The files that a command may read. -/
def files : Command → List String
  | .run image o => o.config.toList ++ o.symbols.toList ++ [image]
  | .disassemble image _ => [image]
  | .showHelp _ | .showVersion => []

end Command

end Multicore
