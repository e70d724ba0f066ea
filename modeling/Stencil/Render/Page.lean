import Stencil.Markup.Reading
import Stencil.Render.Fragment
import Stencil.Render.Role
import Stencil.Render.Store

/-!
# Rendering pages

A page is rendered by reading its tokens from left to right.  When an inclusion closes, its
template is rendered in a scope of its own, and the output takes the place of the inclusion.  At
the end the placeholders of the page are filled in.

Templates may include others, and themselves, and nothing bounds how deep that goes.  Each level
takes room on the stack, however, so a rendering is run with the number of levels that there is room
for.  One that needs more has no outcome: the stack is full, and the program that runs it is ended.
-/

namespace Stencil.Render

/-- What a page is rendered with. -/
structure Composer where
  dialect : Dialect
  library : Template.Library
  /-- Whether templates and fragments that are already in the store are used again. -/
  reuse : Bool := true

/-- The output of a page and the places of the templates it depends on. -/
structure Rendered where
  content : String
  dependencies : Std.ExtTreeSet Place

namespace Composer

variable (composer : Composer)

/-- The attributes of an inclusion tag, filled in from the scope of the page. -/
def attributesOf (scope : Bindings) (token : Markup.Token) : Bindings :=
  Bindings.ofList (token.attributes.map fun given =>
    (given.key, Placeholder.substitute composer.dialect scope given.value))

/-- Read one token.  `expand` renders an inclusion that closes. -/
def read (scope : Bindings) (expand : Inclusion → Rendering String) (draft : Draft)
    (token : Markup.Token) : Rendering Draft :=
  match roleOf composer.dialect token with
  | .plain => return draft.append token.raw
  | .inclusion tag name => do
      let attributes := composer.attributesOf scope token
      let name := (attributes.get? composer.dialect.nameAttribute.toLower).getD name
      let draft := if token.opens then draft.openInclusion tag name attributes else draft
      if token.closes then
        match draft.closeInclusion tag with
        | .error nesting => throw (.invalidNesting nesting)
        | .ok (inclusion, draft) => return draft.append (← expand inclusion)
      else
        return draft
  | .assignment tag key =>
      let opened := if token.opens then draft.openAssignment tag key else .ok draft
      let closed := if token.closes then opened.bind (·.closeAssignment tag) else opened
      match closed with
      | .error nesting => throw (.invalidNesting nesting)
      | .ok draft => return draft

/-- Render an inclusion in the page at `origin`.  `render` renders the body of the template. -/
def expand (render : (origin : Path) → (body : String) → (scope : Bindings) → Rendering String)
    (origin : Path) (scope : Bindings) (inclusion : Inclusion) : Rendering String := do
  let key := inclusion.fragmentKey origin scope
  let store ← get
  match if composer.reuse then store.fragments[key]? else none with
  | some fragment => return fragment
  | none =>
      let template ← locate composer.library composer.reuse inclusion.name
      let (inner, body) := inclusion.enter composer.dialect scope template.content
      let fragment := template.kind.wrap (← render template.place.toPath body inner)
      modify (·.keepFragment key fragment template.place)
      return fragment

/-- Render the body of a page or template, with room for the given number of levels of templates, its
own level included. -/
def renderBody : (levels : Nat) → (origin : Path) → (body : String) → (scope : Bindings) →
    Rendering String
  | 0, _, _, _ => throw .tooDeep
  | levels + 1, origin, body, scope => do
      let expand := composer.expand (renderBody levels) origin scope
      let draft ← (Markup.tokenize body).foldlM (composer.read scope expand) .empty
      match draft.finish with
      | .error error => throw error
      | .ok output => return Placeholder.substitute composer.dialect scope output

/-- Render a page from an empty store, and return the outcome with the store at the end. -/
def run (levels : Nat) (origin : Path) (source : String) (scope : Bindings) :
    Except Error Rendered × Store :=
  let (scope, body) := Preamble.read source scope
  let (outcome, store) := (composer.renderBody levels origin body scope).run Store.empty
  (outcome.map (⟨·, store.dependencies⟩), store)

/-- Render a page, with room for the given number of levels of templates. -/
def render (levels : Nat) (origin : Path) (source : String) (scope : Bindings) :
    Except Error Rendered :=
  (composer.run levels origin source scope).1

end Composer

end Stencil.Render
