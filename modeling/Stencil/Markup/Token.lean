import Stencil.Text.Search

/-!
# Tokens of a page

A page is split into text, comments and tags.  Every token keeps the exact characters it was read
from, so the tokens of a page, written one after the other, are the page itself.
-/

namespace Stencil.Markup

/-- A key and a value written in a tag. -/
structure Attribute where
  key : String
  value : String
deriving DecidableEq, Repr, Inhabited

namespace Attribute

/-- Give `key` a value.  A key that was written before keeps its place and loses its old value. -/
def put (key value : String) : List Attribute → List Attribute
  | [] => [⟨key, value⟩]
  | first :: rest =>
      if first.key = key then ⟨key, value⟩ :: rest else first :: put key value rest

@[simp]
theorem put_nil (key value : String) : put key value [] = [⟨key, value⟩] := rfl

theorem keys_put (key value : String) (attributes : List Attribute) :
    (put key value attributes).map Attribute.key =
      if key ∈ attributes.map Attribute.key then attributes.map Attribute.key
      else attributes.map Attribute.key ++ [key] := by
  induction attributes with
  | nil => simp
  | cons first rest ih =>
      by_cases h : first.key = key
      · simp [put, h]
      · by_cases member : key ∈ rest.map Attribute.key <;>
          simp_all [put, Ne.symm h]

end Attribute

/-- A piece of a page.  Only start tags and self-closing tags carry attributes, and only tags have
a name. -/
inductive Token where
  | text (raw : String)
  | comment (raw : String)
  | startTag (raw name : String) (attributes : List Attribute)
  | endTag (raw name : String)
  | selfClosingTag (raw name : String) (attributes : List Attribute)
deriving DecidableEq, Repr, Inhabited

namespace Token

/-- The characters that the token was read from. -/
def raw : Token → String
  | text raw | comment raw | startTag raw _ _ | endTag raw _ | selfClosingTag raw _ _ => raw

/-- The lower-cased name of a tag. -/
def name? : Token → Option String
  | text _ | comment _ => none
  | startTag _ name _ | endTag _ name | selfClosingTag _ name _ => some name

def attributes : Token → List Attribute
  | startTag _ _ attributes | selfClosingTag _ _ attributes => attributes
  | text _ | comment _ | endTag _ _ => []

/-- Whether the token opens an element. -/
def opens : Token → Bool
  | startTag _ _ _ | selfClosingTag _ _ _ => true
  | text _ | comment _ | endTag _ _ => false

/-- Whether the token closes an element. -/
def closes : Token → Bool
  | endTag _ _ | selfClosingTag _ _ _ => true
  | text _ | comment _ | startTag _ _ _ => false

/-- The part of a tag's name after `start`, when the name begins with it. -/
def nameAfter? (token : Token) (start : String) : Option String :=
  token.name?.bind (Text.dropPrefix? · start)

end Token

end Stencil.Markup
