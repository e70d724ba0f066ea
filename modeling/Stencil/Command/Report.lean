import Stencil.Command.Arguments
import Stencil.Project.Build

/-!
# Reports of builds

A report names the files that were written and the pages that failed, relative to the root of the
project.  It is written for people, with the failures on a channel of their own, or as one JSON
object.
-/

namespace Stencil.Command

/-- A path as reports show it, which is from the root of the project when it lies below. -/
def shown (root path : Path) : String :=
  ((path.relativeTo? root).getD path).text

/-- The lines of a text, each with a line end. -/
def unlines (lines : List String) : String :=
  String.join (lines.map (· ++ "\n"))

/-- The number of files of a report as its last line tells it. -/
def summary (report : Project.Report) : String :=
  let built := "Built " ++ toString report.written.length ++ " file(s)"
  if report.isOk then built ++ "."
  else built ++ ", " ++ toString report.failures.length ++ " failed."

/-- The lines of a report for people. -/
def reportLines (root : Path) (report : Project.Report) : List String :=
  if report.written.isEmpty && report.failures.isEmpty then ["No build files found."]
  else report.written.map (fun path => "  built " ++ shown root path) ++ [summary report]

/-- The lines about the failures in a report for people. -/
def failureLines (root : Path) (report : Project.Report) : List String :=
  report.failures.map fun failure => "  failed " ++ shown root failure.source

/-- A hexadecimal digit. -/
def hexDigit (value : Nat) : Char :=
  if value < 10 then Char.ofNat (48 + value) else Char.ofNat (87 + value)

/-- A character inside a JSON string. -/
def escaped (c : Char) : List Char :=
  if c = '\x22' then ['\\', '\x22']
  else if c = '\\' then ['\\', '\\']
  else if c = '\n' then ['\\', 'n']
  else if c = '\r' then ['\\', 'r']
  else if c = '\t' then ['\\', 't']
  else if c = '\x08' then ['\\', 'b']
  else if c = '\x0c' then ['\\', 'f']
  else if c.toNat < 32 then
    ['\\', 'u', '0', '0', hexDigit (c.toNat / 16), hexDigit (c.toNat % 16)]
  else [c]

/-- A text as a JSON string. -/
def quoted (text : String) : String :=
  "\"" ++ String.ofList (text.toList.flatMap escaped) ++ "\""

/-- Items between brackets, each on a line of its own, at some depth of indentation. -/
def block (opening closing : String) (depth : Nat) (items : List String) : String :=
  let indent (depth : Nat) := String.join (List.replicate depth "  ")
  if items.isEmpty then opening ++ closing
  else
    opening ++ "\n" ++ ",\n".intercalate (items.map (indent (depth + 1) ++ ·)) ++ "\n" ++
      indent depth ++ closing

/-- A member of a JSON object. -/
def jsonMember (key value : String) : String :=
  quoted key ++ ": " ++ value

/-- A failure as a JSON object. -/
def failureJson (root : Path) (failure : Project.Failure) : String :=
  block "\x7b" "\x7d" 2
    [jsonMember "source" (quoted (shown root failure.source)),
      jsonMember "error" (quoted failure.error.message)]

/-- A report as a JSON object. -/
def reportJson (root : Path) (report : Project.Report) : String :=
  block "\x7b" "\x7d" 0
    [jsonMember "ok" (if report.isOk then "true" else "false"),
      jsonMember "written" (block "[" "]" 1 (report.written.map (quoted <| shown root ·))),
      jsonMember "failures" (block "[" "]" 1 (report.failures.map (failureJson root)))]

end Stencil.Command
