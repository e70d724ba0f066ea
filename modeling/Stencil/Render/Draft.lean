import Stencil.Bindings
import Stencil.Error
import Stencil.Markup.Token
import Stencil.Text.Blank

/-!
# Drafts

While the tokens of a page are read, the tags that are still open form a stack of levels.  Each
level is an inclusion, and at most one variable tag is open directly inside it.  Text goes to the
innermost open tag, or to the output when no tag is open.
-/

namespace Stencil.Render

/-- An inclusion, with what has been read of it. -/
structure Inclusion where
  /-- The full name of the tag. -/
  tag : String
  /-- The name of the template. -/
  name : String
  attributes : Bindings
  /-- The values of the variable tags inside the inclusion. -/
  assignments : Bindings
  /-- The text inside the inclusion, apart from its variable tags. -/
  content : String
deriving DecidableEq

/-- A variable tag, with what has been read of it. -/
structure Assignment where
  /-- The full name of the tag. -/
  tag : String
  key : String
  content : String
deriving DecidableEq, Repr

/-- An open inclusion, and the variable tag that is open directly inside it. -/
structure Level where
  inclusion : Inclusion
  assignment? : Option Assignment
deriving DecidableEq

namespace Level

/-- The kind and name of the innermost open tag of a level. -/
def innermost (level : Level) : TagKind × String :=
  match level.assignment? with
  | none => (.inclusion, level.inclusion.tag)
  | some assignment => (.assignment, assignment.tag)

/-- Add text to the innermost open tag of a level. -/
def append (level : Level) (text : String) : Level :=
  match level.assignment? with
  | none =>
      { level with
        inclusion := { level.inclusion with content := level.inclusion.content ++ text } }
  | some assignment =>
      { level with assignment? := some { assignment with content := assignment.content ++ text } }

end Level

/-- What has been read of a page: the output so far and the open tags, the innermost first. -/
structure Draft where
  output : String
  levels : List Level
deriving DecidableEq

namespace Draft

def empty : Draft := ⟨"", []⟩

instance : Inhabited Draft := ⟨empty⟩

/-- Add text at the current position. -/
def append (draft : Draft) (text : String) : Draft :=
  match draft.levels with
  | [] => { draft with output := draft.output ++ text }
  | level :: outer => { draft with levels := level.append text :: outer }

/-- Open an inclusion. -/
def openInclusion (draft : Draft) (tag name : String) (attributes : Bindings) : Draft :=
  { draft with levels := ⟨⟨tag, name, attributes, ∅, ""⟩, none⟩ :: draft.levels }

/-- Close the innermost open tag, which has to be an inclusion with the given name. -/
def closeInclusion (draft : Draft) (tag : String) : Except Nesting (Inclusion × Draft) :=
  match draft.levels with
  | [] => .error (.unopened .inclusion tag)
  | level :: outer =>
      if level.innermost = (.inclusion, tag) then
        .ok (level.inclusion, { draft with levels := outer })
      else .error (.mismatch .inclusion tag level.innermost.1 level.innermost.2)

/-- Open a variable tag, which has to stand directly inside an inclusion. -/
def openAssignment (draft : Draft) (tag key : String) : Except Nesting Draft :=
  match draft.levels with
  | [] => .error (.outsideInclusion tag)
  | level :: outer =>
      match level.assignment? with
      | some parent => .error (.insideAssignment tag parent.tag)
      | none =>
          .ok { draft with levels := { level with assignment? := some ⟨tag, key, ""⟩ } :: outer }

/-- Close the innermost open tag, which has to be a variable tag with the given name.  Its content
without the blanks around it becomes a variable of the inclusion. -/
def closeAssignment (draft : Draft) (tag : String) : Except Nesting Draft :=
  match draft.levels with
  | [] => .error (.unopened .assignment tag)
  | level :: outer =>
      match level.assignment? with
      | some assignment =>
          if assignment.tag = tag then
            let assignments :=
              level.inclusion.assignments.set assignment.key
                (Text.trim Text.isBlank assignment.content)
            .ok { draft with
              levels := ⟨{ level.inclusion with assignments := assignments }, none⟩ :: outer }
          else .error (.mismatch .assignment tag .assignment assignment.tag)
      | none => .error (.mismatch .assignment tag .inclusion level.inclusion.tag)

/-- The output of a page whose tags are all closed. -/
def finish (draft : Draft) : Except Error String :=
  match draft.levels with
  | [] => .ok draft.output
  | level :: _ => .error (.unclosedTag level.innermost.2)

end Draft

end Stencil.Render
