import Stencil.Disk.Fault
import Stencil.Path.Place
import Stencil.Settings.Fault

/-!
# Errors

Every failure of the library is one of the causes below.  A cause has a message, and most causes
have a code and a piece of advice as well.

One of the causes is no failure that anyone is told of.  Templates that include themselves are
rendered without end, until the stack is full and the program is ended by the system.
-/

namespace Stencil

/-- The two kinds of composition tags. -/
inductive TagKind where
  | inclusion
  | assignment
deriving DecidableEq, Repr

/-- How composition tags can be nested wrongly. -/
inductive Nesting where
  /-- A variable tag opens inside the variable tag `parent`. -/
  | insideAssignment (tag parent : String)
  /-- A variable tag opens outside every inclusion. -/
  | outsideInclusion (tag : String)
  /-- A closing tag meets an open tag of another name or kind. -/
  | mismatch (kind : TagKind) (tag : String) (openKind : TagKind) (openTag : String)
  /-- A closing tag meets no open tag. -/
  | unopened (kind : TagKind) (tag : String)
deriving DecidableEq, Repr

/-- Why an operation of the library fails. -/
inductive Error where
  | disk (fault : Disk.Fault)
  | templateNotFound (name : String) (attempted : List Path)
  | invalidNesting (nesting : Nesting)
  | unclosedTag (tag : String)
  | settings (fault : Settings.Fault)
  | linkCycle (place : Place)
  /-- There is no room on the stack for the templates inside one another.  It stands for the end of the
  program, and is never part of a report. -/
  | tooDeep
deriving DecidableEq

namespace TagKind

/-- How messages call a kind of tag. -/
def word : TagKind → String
  | inclusion => "template"
  | assignment => "variable"

end TagKind

namespace Nesting

/-- The wording of a wrong nesting. -/
def message : Nesting → String
  | insideAssignment tag parent =>
      "variable tag `<" ++ tag ++ ">` cannot be placed inside variable tag `<" ++ parent ++ ">`"
  | outsideInclusion tag =>
      "variable tag `<" ++ tag ++ ">` must be placed directly inside a template tag"
  | mismatch kind tag openKind openTag =>
      "closing " ++ kind.word ++ " tag `</" ++ tag ++ ">` does not match open " ++
        openKind.word ++ " tag `<" ++ openTag ++ ">`"
  | unopened kind tag =>
      "closing " ++ kind.word ++ " tag `</" ++ tag ++ ">` has no matching open tag"

end Nesting

namespace Error

/-- The wording of an error. -/
def message : Error → String
  | disk fault => fault.message
  | templateNotFound name attempted =>
      "could not find template `" ++ name ++ "` at any of the following locations:\n" ++
        "\n".intercalate (attempted.map Path.text)
  | invalidNesting nesting => "invalid tag nesting: " ++ nesting.message
  | unclosedTag tag => "missing closing tag for `" ++ tag ++ "`"
  | settings fault => "failed to parse config file: " ++ fault.message
  | linkCycle place => "symlink cycle detected at: `" ++ place.text ++ "`"
  | tooDeep => "stack overflow"

/-- Whether an operation comes to an outcome.  The alternative is that the stack is full, and the
program is ended. -/
def ends {α : Type} : Except Error α → Bool
  | .error tooDeep => false
  | _ => true

theorem ends_iff {α : Type} {outcome : Except Error α} :
    ends outcome = true ↔ outcome ≠ .error tooDeep := by
  unfold ends
  split <;> simp_all

/-- The code that stands for the cause of an error. -/
def code? : Error → Option String
  | disk _ => some "haste::io_error"
  | templateNotFound _ _ => some "haste::template_not_found"
  | invalidNesting _ => some "haste::invalid_nesting"
  | unclosedTag _ => some "haste::unclosed_tag"
  | settings _ => some "haste::config_parse"
  | linkCycle _ => some "haste::symlink_cycle"
  | tooDeep => none

/-- What to do about an error. -/
def help? : Error → Option String
  | disk _ => none
  | templateNotFound _ _ => some "create one of the listed files relative to the template root"
  | invalidNesting _ => some "variable tags must be direct children of a template tag"
  | unclosedTag tag =>
      some ("add `</" ++ tag ++ ">` or write the tag as self-closing `<" ++ tag ++ "/>`")
  | settings _ =>
      some "check that haste.toml is valid TOML with [syntax] and/or [build] sections"
  | linkCycle _ => some "remove the circular symlink or exclude this path"
  | tooDeep => none

end Error

end Stencil
