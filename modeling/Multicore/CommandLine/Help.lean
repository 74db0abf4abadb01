/-!
# Help pages

A help page says what a command does, how it is called, and what may stand among its arguments.
The entries of a section stand in two columns; in a spacious section each description has a line
of its own below its label.
-/

namespace Multicore.CommandLine

/-- An entry of a help page. -/
structure HelpEntry where
  label : String
  description : String
  deriving DecidableEq, Inhabited

/-- An entry for a setting that has a long name only. Its name stands below other long names. -/
def HelpEntry.long (label description : String) : HelpEntry :=
  { label := "    " ++ label, description }

/-- A titled list of entries. -/
structure HelpSection where
  title : String
  entries : List HelpEntry
  /-- Each description has a line of its own. -/
  spacious : Bool := false
  deriving DecidableEq, Inhabited

/-- A help page. -/
structure HelpPage where
  /-- What the command does, line by line. -/
  about : List String
  usage : String
  sections : List HelpSection
  deriving DecidableEq, Inhabited

namespace HelpSection

/-- The width of the labels. -/
def width (s : HelpSection) : Nat :=
  s.entries.foldl (fun n e => max n e.label.length) 0

/-- The lines of the entries. -/
def body (s : HelpSection) : List String :=
  if s.spacious then
    [""].intercalate (s.entries.map fun e =>
      ["  " ++ e.label, "          " ++ e.description])
  else
    s.entries.map fun e =>
      "  " ++ e.label.pushn ' ' (s.width - e.label.length) ++ "  " ++ e.description

/-- The lines of a section. -/
def lines (s : HelpSection) : List String := (s.title ++ ":") :: s.body

end HelpSection

/-- The lines of a help page. An empty line stands between its parts. -/
def HelpPage.lines (p : HelpPage) : List String :=
  [""].intercalate (p.about :: ["Usage: " ++ p.usage] :: p.sections.map HelpSection.lines)

end Multicore.CommandLine
