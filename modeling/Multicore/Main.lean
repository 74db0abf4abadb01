import Multicore.CommandLine.Session

/-!
# The program

Reads the files that the command names, carries the command out and prints what it has to say.
-/

namespace Multicore

/-- The bytes of a file, or the reason why they cannot be read. -/
def readBytes (path : String) : IO (Except String (List UInt8)) := do
  match ← (IO.FS.readBinFile path).toBaseIO with
  | .ok bytes => return .ok bytes.toList
  | .error (.noFileOrDirectory ..) => return .error "No such file or directory (os error 2)"
  | .error e => return .error (toString e)

end Multicore

open Multicore in
/-- Carry out the command that the arguments ask for. -/
def main (args : List String) : IO UInt32 := do
  match Command.ofArguments args with
  | none =>
    (HelpTopic.program false).page.lines.forM IO.eprintln
    return 2
  | some command =>
    let contents ← command.files.mapM fun path => return (path, ← readBytes path)
    let files : Files := fun path => (contents.lookup path).getD (.error "not read")
    let (code, transcript) := Session.run files command
    transcript.output.forM IO.println
    transcript.log.forM IO.eprintln
    transcript.errors.forM IO.eprintln
    return code.toUInt32
