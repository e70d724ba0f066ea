import Stencil.Dialect
import Stencil.Markup.Token

/-!
# Roles of tokens

A dialect tells composition tags from the rest of a page by the beginning of their names.  Names
of tags are lower-cased when they are read, and so are the prefixes here.
-/

namespace Stencil.Render

/-- What a token means for composition. -/
inductive Role where
  /-- The tag belongs to an inclusion of the template `name`. -/
  | inclusion (tag name : String)
  /-- The tag belongs to a value for the variable `key`. -/
  | assignment (tag key : String)
  /-- The token is copied as it is. -/
  | plain
deriving DecidableEq, Repr

/-- The role of a token.  The prefix of inclusion tags is tried before that of variable tags. -/
def roleOf (dialect : Dialect) (token : Markup.Token) : Role :=
  match token.name? with
  | none => .plain
  | some tag =>
      match token.nameAfter? dialect.tagPrefix.toLower with
      | some name => .inclusion tag name
      | none =>
          match token.nameAfter? dialect.variablePrefix.toLower with
          | some key => .assignment tag key
          | none => .plain

end Stencil.Render
