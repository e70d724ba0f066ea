import Stencil.Path.Basic

/-!
# Arguments of the program

The program runs one of three commands, or none.  A few options may stand before the command as
well as after it.
-/

namespace Stencil.Command

/-- How a report is written. -/
inductive Format where
  | text
  | json
deriving DecidableEq, Repr

/-- What the program is asked to do. -/
inductive Task where
  /-- Build the pages at paths, or all pages. -/
  | build (paths : List Path) (out : Option Path) (format : Format)
  /-- Build the pages, and build them again as files change. -/
  | watch (paths : List Path) (out : Option Path)
  /-- Show the output of one page. -/
  | render (file : Path)
deriving DecidableEq, Repr

/-- The arguments of the program. -/
structure Arguments where
  task : Option Task := none
  root : Option Path := none
  verbose : Bool := false
  noColor : Bool := false
deriving DecidableEq, Repr

/-- Why a command line leads to no command. -/
inductive Stop where
  /-- It asks for help. -/
  | help
  /-- It asks for the version. -/
  | version
  | unknownArgument
  | unknownCommand
  | invalidValue
  | missingArgument
  /-- An option that may be given once is given again. -/
  | repeatedArgument
  /-- A value is given to an option without one. -/
  | needlessValue
deriving DecidableEq, Repr

/-- The exit code of a program that stops. -/
def Stop.exitCode : Stop → Nat
  | help | version => 0
  | _ => 2

end Stencil.Command
