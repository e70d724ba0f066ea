import Stencil.Render.Page

/-!
# The effect of one token

A token of a page moves the draft on, and it may close an inclusion.  Rendering that inclusion is
the only step that needs the store, so that everything else about a token is said here by a
function of the draft alone.
-/

namespace Stencil.Render

section Roles

variable {dialect : Dialect} {token : Markup.Token}

theorem roleOf_eq_inclusion_iff {tag name : String} :
    roleOf dialect token = .inclusion tag name ↔
      token.name? = some tag ∧ token.nameAfter? dialect.tagPrefix.toLower = some name := by
  unfold roleOf
  cases token.name? with
  | none => simp
  | some found =>
      cases token.nameAfter? dialect.tagPrefix.toLower with
      | some rest => simp
      | none => cases token.nameAfter? dialect.variablePrefix.toLower <;> simp

theorem roleOf_eq_assignment_iff {tag key : String} :
    roleOf dialect token = .assignment tag key ↔
      token.name? = some tag ∧ token.nameAfter? dialect.tagPrefix.toLower = none ∧
        token.nameAfter? dialect.variablePrefix.toLower = some key := by
  unfold roleOf
  cases token.name? with
  | none => simp
  | some found =>
      cases token.nameAfter? dialect.tagPrefix.toLower with
      | some rest => simp
      | none => cases token.nameAfter? dialect.variablePrefix.toLower <;> simp

end Roles

namespace Draft

/-- Read an inclusion tag.  The inclusion that closes is taken out of the draft. -/
def readInclusion (draft : Draft) (opens closes : Bool) (tag name : String)
    (attributes : Bindings) : Except Nesting (Option Inclusion × Draft) :=
  let draft := if opens then draft.openInclusion tag name attributes else draft
  if closes then
    match draft.closeInclusion tag with
    | .error nesting => .error nesting
    | .ok (inclusion, draft) => .ok (some inclusion, draft)
  else .ok (none, draft)

/-- Read a variable tag. -/
def readAssignment (draft : Draft) (opens closes : Bool) (tag key : String) :
    Except Nesting Draft :=
  let opened := if opens then draft.openAssignment tag key else .ok draft
  if closes then opened.bind (·.closeAssignment tag) else opened

end Draft

namespace Composer

variable (composer : Composer)

/-- The name of the template that an inclusion tag asks for, where `name` is the name after the
prefix of the tag. -/
def templateName (scope : Bindings) (token : Markup.Token) (name : String) : String :=
  ((composer.attributesOf scope token).get? composer.dialect.nameAttribute.toLower).getD name

/-- The draft after a token, and the inclusion that the token closes, if any.  The output of that
inclusion is not in the draft yet. -/
def advance (scope : Bindings) (draft : Draft) (token : Markup.Token) :
    Except Nesting (Option Inclusion × Draft) :=
  match roleOf composer.dialect token with
  | .plain => .ok (none, draft.append token.raw)
  | .inclusion tag name =>
      draft.readInclusion token.opens token.closes tag (composer.templateName scope token name)
        (composer.attributesOf scope token)
  | .assignment tag key =>
      match draft.readAssignment token.opens token.closes tag key with
      | .error nesting => .error nesting
      | .ok draft => .ok (none, draft)

theorem advance_congr {composer other : Composer} (same : composer.dialect = other.dialect) :
    composer.advance = other.advance := by
  have attributes : composer.attributesOf = other.attributesOf := by
    funext scope token
    simp only [attributesOf, same]
  funext scope draft token
  simp only [advance, templateName, attributes, same]

/-- Reading a token moves the draft on, and then adds the output of the inclusion that closes. -/
theorem read_eq (scope : Bindings) (expand : Inclusion → Rendering String) (draft : Draft)
    (token : Markup.Token) :
    composer.read scope expand draft token =
      match composer.advance scope draft token with
      | .error nesting => throw (.invalidNesting nesting)
      | .ok (none, draft) => pure draft
      | .ok (some inclusion, draft) => expand inclusion >>= fun text => pure (draft.append text) := by
  unfold read advance
  cases roleOf composer.dialect token with
  | plain => rfl
  | inclusion tag name =>
      dsimp only [Draft.readInclusion, templateName]
      split
      · cases Draft.closeInclusion _ tag <;> rfl
      · rfl
  | assignment tag key =>
      dsimp only [Draft.readAssignment]
      cases (if token.closes = true then _ else _ : Except Nesting Draft) <;> rfl

end Composer

end Stencil.Render
