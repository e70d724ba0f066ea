import Stencil.Proofs.Bindings
import Stencil.Proofs.Render.Nesting

/-!
# Trees of pages

The tokens of a page that keeps to the grammar form a tree: inclusions hold text, inclusions and
variables, and variables hold text and inclusions.  A page has a meaning by recursion on its tree,
without a stack of open tags.  The meaning of an inclusion is left to a function, so that trees can
be evaluated with or without a store.
-/

namespace Stencil.Render

open Markup (Token)

/-- The ways to derive a phrase, with its tokens at the leaves. -/
inductive Tree (dialect : Dialect) : Phrase → Type
  | nil {mixed : Bool} : Tree dialect (.content mixed)
  | plain {mixed : Bool} (token : Token) (unmarked : markOf? dialect token = none)
      (rest : Tree dialect (.content mixed)) : Tree dialect (.content mixed)
  | inclusion {mixed : Bool} (node : Tree dialect (.element .inclusion))
      (rest : Tree dialect (.content mixed)) : Tree dialect (.content mixed)
  | assignment (node : Tree dialect (.element .assignment))
      (rest : Tree dialect (.content true)) : Tree dialect (.content true)
  | selfClosing {kind : TagKind} {name : String} (token : Token)
      (marked : markOf? dialect token = some (kind, name)) (opens : token.opens = true)
      (closes : token.closes = true) : Tree dialect (.element kind)
  | enclosed {kind : TagKind} {name : String} (opening closing : Token)
      (marked : markOf? dialect opening = some (kind, name)) (opens : opening.opens = true)
      (stays : opening.closes = false) (inner : Tree dialect (.inside kind))
      (markedLast : markOf? dialect closing = some (kind, name)) (staysLast : closing.opens = false)
      (closesLast : closing.closes = true) : Tree dialect (.element kind)

namespace Tree

variable {dialect : Dialect}

/-- The tokens of a phrase. -/
def tokens : {phrase : Phrase} → Tree dialect phrase → List Token
  | _, nil => []
  | _, plain token _ rest => token :: rest.tokens
  | _, inclusion node rest => node.tokens ++ rest.tokens
  | _, assignment node rest => node.tokens ++ rest.tokens
  | _, selfClosing token _ _ _ => [token]
  | _, enclosed opening closing _ _ _ inner _ _ _ => opening :: (inner.tokens ++ [closing])

/-- The tag that opens an element. -/
def opening : {kind : TagKind} → Tree dialect (.element kind) → Token
  | _, selfClosing token _ _ _ => token
  | _, enclosed opening _ _ _ _ _ _ _ _ => opening

theorem derives {phrase : Phrase} (tree : Tree dialect phrase) :
    Derives dialect phrase tree.tokens := by
  induction tree with
  | nil => exact .nil
  | plain token unmarked rest ih => exact .plain unmarked ih
  | inclusion node rest ihNode ihRest => exact .inclusion ihNode ihRest
  | assignment node rest ihNode ihRest => exact .assignment ihNode ihRest
  | selfClosing token marked opens closes => exact .selfClosing marked opens closes
  | enclosed opening closing marked opens stays inner markedLast staysLast closesLast ih =>
      exact .enclosed marked opens stays ih markedLast staysLast closesLast

/-- The trees of a phrase stand for exactly what the grammar derives. -/
theorem derives_iff {phrase : Phrase} {tokens : List Token} :
    Derives dialect phrase tokens ↔ ∃ tree : Tree dialect phrase, tree.tokens = tokens := by
  constructor
  · intro derives
    induction derives with
    | nil => exact ⟨nil, rfl⟩
    | @plain _ token _ unmarked _ ih =>
        rcases ih with ⟨rest, rfl⟩
        exact ⟨plain token unmarked rest, rfl⟩
    | inclusion _ _ ihNode ihRest =>
        rcases ihNode with ⟨node, rfl⟩
        rcases ihRest with ⟨rest, rfl⟩
        exact ⟨inclusion node rest, rfl⟩
    | assignment _ _ ihNode ihRest =>
        rcases ihNode with ⟨node, rfl⟩
        rcases ihRest with ⟨rest, rfl⟩
        exact ⟨assignment node rest, rfl⟩
    | @selfClosing _ _ token marked opens closes =>
        exact ⟨selfClosing token marked opens closes, rfl⟩
    | @enclosed _ _ opening closing _ marked opens stays _ markedLast staysLast closesLast ih =>
        rcases ih with ⟨inner, rfl⟩
        exact ⟨enclosed opening closing marked opens stays inner markedLast staysLast closesLast,
          rfl⟩
  · rintro ⟨tree, rfl⟩
    exact tree.derives

end Tree

/-- What stands inside a tag or page: its text, and its variable tags in order, each with its key
and its value.  Only where variables are allowed can there be any. -/
structure Contents (mixed : Bool) where
  text : String
  values : List (String × String)
  confined : mixed = false → values = []
deriving DecidableEq

namespace Contents

variable {mixed : Bool}

def empty : Contents mixed :=
  ⟨"", [], fun _ => rfl⟩

/-- Put text in front. -/
def prepend (text : String) (contents : Contents mixed) : Contents mixed :=
  { contents with text := text ++ contents.text }

/-- Put a variable tag in front. -/
def prependVariable (given : String × String) (contents : Contents true) : Contents true :=
  ⟨contents.text, given :: contents.values, nofun⟩

end Contents

/-- What a phrase is evaluated to: an inclusion to its output, and a variable to its key and its
value. -/
abbrev Phrase.Value : Phrase → Type
  | content mixed => Contents mixed
  | element .inclusion => String
  | element .assignment => String × String

/-- What stands inside a self-closing tag. -/
def Phrase.nothing : (kind : TagKind) → (Phrase.inside kind).Value
  | .inclusion => Contents.empty
  | .assignment => Contents.empty

namespace Composer

variable (composer : Composer) (scope : Bindings)

/-- The inclusion that an opening tag and what stands inside it stand for. -/
def inclusionOf (opening : Token) (contents : Contents true) : Inclusion where
  tag := opening.name?.getD ""
  name := composer.askedName scope opening
  attributes := composer.attributesOf scope opening
  assignments := Bindings.ofList contents.values
  content := contents.text

/-- The variable that an opening tag and the text inside it stand for. -/
def variableOf (opening : Token) (contents : Contents false) : String × String :=
  ((opening.nameAfter? composer.dialect.variablePrefix.toLower).getD "",
    Text.trim Text.isBlank contents.text)

variable {m : Type → Type} [Monad m] (expand : Inclusion → m String)

/-- Evaluate an element from what stands inside it. -/
def close : (kind : TagKind) → (opening : Token) → (Phrase.inside kind).Value →
    m (Phrase.element kind).Value
  | .inclusion, opening, contents => expand (composer.inclusionOf scope opening contents)
  | .assignment, opening, contents => pure (composer.variableOf opening contents)

/-- Evaluate a phrase from left to right, and what stands inside a tag before the tag.  All
attributes are filled in from the one scope. -/
def evaluate : {phrase : Phrase} → Tree composer.dialect phrase → m phrase.Value
  | _, .nil => pure Contents.empty
  | _, .plain token _ rest => do
      let contents ← evaluate rest
      return contents.prepend token.raw
  | _, .inclusion node rest => do
      let output ← evaluate node
      let contents ← evaluate rest
      return contents.prepend output
  | _, .assignment node rest => do
      let given ← evaluate node
      let contents ← evaluate rest
      return contents.prependVariable given
  | _, @Tree.selfClosing _ kind _ token _ _ _ =>
      composer.close scope expand kind token (Phrase.nothing kind)
  | _, @Tree.enclosed _ kind _ opening _ _ _ _ inner _ _ _ => do
      let contents ← evaluate inner
      composer.close scope expand kind opening contents

/-- Evaluate what stands inside an element. -/
def collect : {kind : TagKind} → Tree composer.dialect (.element kind) →
    m (Phrase.inside kind).Value
  | kind, .selfClosing _ _ _ _ => pure (Phrase.nothing kind)
  | _, .enclosed _ _ _ _ _ inner _ _ _ => composer.evaluate scope expand inner

end Composer

end Stencil.Render
