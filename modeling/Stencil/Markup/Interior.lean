import Stencil.Markup.Lexeme
import Stencil.Markup.Token

/-!
# The interior of a tag

The interior of a tag runs from its name to the sign that ends it.  A small machine reads the
lexemes and collects the attributes: a key may stand alone, be followed by an equals sign and a
quoted value, or by an unquoted value that goes on to the next gap.  An interior whose end is
never found is no interior at all.
-/

namespace Stencil.Markup

/-- What has been read of the interior of a tag since the last complete attribute. -/
inductive Progress where
  /-- A key or the end of the tag comes next. -/
  | between
  /-- A key was read, and an equals sign may follow. -/
  | afterKey (key : String)
  /-- A key and an equals sign were read. -/
  | beforeValue (key : String)
  /-- The beginning of an unquoted value was read. -/
  | unquoted (key value : String)
deriving DecidableEq, Repr

/-- The effect of one lexeme: the tag goes on, or it ends. -/
inductive Advance where
  | goOn (progress : Progress) (attributes : List Attribute)
  | stop (selfClosing : Bool) (attributes : List Attribute)
deriving DecidableEq, Repr

namespace Progress

/-- A key begins with `lexeme`, whatever it is. -/
def keyOf (lexeme : Lexeme) : Progress :=
  .afterKey (String.ofList lexeme.text).toLower

/-- Read one lexeme.  A slash directly before the end belongs to an unquoted value. -/
def advance (attributes : List Attribute) : Progress → Lexeme → Advance
  | between, .gap _ | between, .slash => .goOn between attributes
  | between, .close => .stop false attributes
  | between, .selfClose => .stop true attributes
  | between, lexeme => .goOn (keyOf lexeme) attributes
  | afterKey key, .gap _ => .goOn (afterKey key) attributes
  | afterKey key, .equals => .goOn (beforeValue key) attributes
  | afterKey key, .close => .stop false (Attribute.put key "" attributes)
  | afterKey key, .selfClose => .stop true (Attribute.put key "" attributes)
  | afterKey key, .slash => .goOn between (Attribute.put key "" attributes)
  | afterKey key, lexeme => .goOn (keyOf lexeme) (Attribute.put key "" attributes)
  | beforeValue key, .gap _ => .goOn (beforeValue key) attributes
  | beforeValue key, .quoted _ body =>
      .goOn between (Attribute.put key (String.ofList body) attributes)
  | beforeValue key, .close => .stop false (Attribute.put key "" attributes)
  | beforeValue key, .selfClose => .stop true (Attribute.put key "" attributes)
  | beforeValue key, lexeme => .goOn (unquoted key (String.ofList lexeme.text)) attributes
  | unquoted key value, .gap _ => .goOn between (Attribute.put key value attributes)
  | unquoted key value, .close => .stop false (Attribute.put key value attributes)
  | unquoted key value, .selfClose => .stop false (Attribute.put key (value ++ "/") attributes)
  | unquoted key value, lexeme =>
      .goOn (unquoted key (value ++ String.ofList lexeme.text)) attributes

end Progress

/-- The interior of a tag, up to and including the sign that ends it, and the text after it. -/
structure Interior where
  raw : List Char
  selfClosing : Bool
  attributes : List Attribute
  rest : List Char
deriving DecidableEq, Repr

namespace Interior

/-- Read on from `source`.  The characters already read stand in `taken`, the latest first. -/
def readFrom? (progress : Progress) (attributes : List Attribute) (taken source : List Char) :
    Option Interior :=
  match _h : Lexeme.next? source with
  | none => none
  | some (lexeme, rest) =>
      match progress.advance attributes lexeme with
      | .stop selfClosing attributes =>
          some ⟨(lexeme.text.reverseAux taken).reverse, selfClosing, attributes, rest⟩
      | .goOn progress attributes =>
          readFrom? progress attributes (lexeme.text.reverseAux taken) rest
termination_by source.length
decreasing_by exact Lexeme.length_lt_of_next? _h

/-- The interior at the beginning of `source`, when it ends there at all. -/
def read? (source : List Char) : Option Interior :=
  readFrom? .between [] [] source

/-- Reading moves characters from the source to the interior and loses none. -/
theorem readFrom?_append {progress : Progress} {attributes : List Attribute}
    {taken source : List Char} {interior : Interior}
    (h : readFrom? progress attributes taken source = some interior) :
    interior.raw ++ interior.rest = taken.reverse ++ source := by
  fun_induction readFrom? progress attributes taken source with
  | case1 => simp at h
  | case2 progress attributes taken source lexeme rest found selfClosing attributes' stopped =>
      obtain rfl := Option.some.inj h
      simp [← Lexeme.next?_eq_some found]
  | case3 progress attributes taken source lexeme rest found progress' attributes' goesOn ih =>
      simp [ih h, ← Lexeme.next?_eq_some found]

theorem read?_append {source : List Char} {interior : Interior}
    (h : read? source = some interior) : interior.raw ++ interior.rest = source := by
  simpa using readFrom?_append h

end Interior

end Stencil.Markup
