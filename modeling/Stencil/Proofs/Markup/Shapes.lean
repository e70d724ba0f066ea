import Stencil.Proofs.Markup.Attributes
import Stencil.Proofs.Markup.RawText

/-!
# The shape of tokens

Every token of a page is made in the same way, whatever is wrong with the page.  Tags stand between
their signs, names and keys are in lower case, and the attributes of a tag are gathered from all the
places at which its keys occur.  A text can only begin like a tag when it is raw text, or when the
tag never ends and the page is over.
-/

namespace Stencil.Markup

namespace Token

/-- What is written of a tag behind its name. -/
def inner : Token → List Char
  | text _ | comment _ => []
  | startTag raw _ _ | selfClosingTag raw _ _ =>
      (raw.toList.drop (tagMark false).length).dropWhile (!isNameEnd ·)
  | endTag raw _ => (raw.toList.drop (tagMark true).length).dropWhile (!isNameEnd ·)

/-- The lexemes of a tag. -/
def lexemes (token : Token) : List Lexeme :=
  Lexeme.lexemes token.inner

/-- The occurrences of keys in a tag.  What is written in an end tag does not count. -/
def occurrences (token : Token) : List Attribute :=
  match token with
  | startTag _ _ _ | selfClosingTag _ _ _ => Lexeme.occurrences token.lexemes
  | text _ | comment _ | endTag _ _ => []

/-- How a token of a page is made. -/
structure WellMade (token : Token) : Prop where
  /-- Only tags that open an element have attributes. -/
  attributes_eq_nil : token.opens = false → token.attributes = []
  /-- Texts and comments have no name. -/
  name?_eq_none : token.opens = false → token.closes = false → token.name? = none
  /-- Names have no capital letters, -/
  small_name : ∀ name, token.name? = some name → Text.MadeOf (·.isUpper = false) name
  /-- and neither have keys. -/
  small_key : ∀ given ∈ token.attributes, Text.MadeOf (·.isUpper = false) given.key
  /-- A tag stands between its signs. -/
  enclosed : ∀ name, token.name? = some name →
    token.raw.toList.head? = some '<' ∧ token.raw.toList.getLast? = some '>'
  /-- All that is written behind the name of a tag is read as lexemes. -/
  spelled : token.lexemes.flatMap Lexeme.text = token.inner
  /-- All keys are different, each stands at the place of its first occurrence, and has the value of
  its last. -/
  gathers : Attribute.Gathers token.occurrences token.attributes

variable {token : Token}

theorem wellMade_of_untagged (untagged : token.name? = none) : token.WellMade := by
  have nothing : token.inner = [] ∧ token.occurrences = [] ∧ token.attributes = [] := by
    cases token with
    | text | comment => exact ⟨rfl, rfl, rfl⟩
    | startTag | endTag | selfClosingTag => cases untagged
  obtain ⟨inner, occurrences, attributes⟩ := nothing
  constructor
  case attributes_eq_nil => exact fun _ => attributes
  case name?_eq_none => exact fun _ _ => untagged
  case small_name => simp [untagged]
  case small_key => simp [attributes]
  case enclosed => simp [untagged]
  case spelled => simp [lexemes, inner]
  case gathers =>
    rw [occurrences, attributes]
    exact Attribute.gathers_gather []

/-- A tag is well made when its attributes are gathered from the lexemes behind its name. -/
theorem IsTag.wellMade {raw name : String} {attributes : List Attribute} {closing : Bool}
    {inner : List Char} (isTag : IsTag raw name attributes closing token)
    (small : Text.MadeOf (·.isUpper = false) name)
    (enclosed : raw.toList.head? = some '<' ∧ raw.toList.getLast? = some '>')
    (behind : (raw.toList.drop (tagMark closing).length).dropWhile (!isNameEnd ·) = inner)
    (spelled : (Lexeme.lexemes inner).flatMap Lexeme.text = inner)
    (gathers : Attribute.Gathers (Lexeme.occurrences (Lexeme.lexemes inner)) attributes) :
    token.WellMade := by
  subst behind
  have named : ∀ other, some name = some other → Text.MadeOf (·.isUpper = false) other :=
    fun other same => Option.some.inj same ▸ small
  have smallKey : ∀ given ∈ attributes, Text.MadeOf (·.isUpper = false) given.key :=
    fun given member => Lexeme.small_of_mem_occurrences (gathers.mem member)
  cases isTag with
  | startTag => exact ⟨nofun, nofun, named, smallKey, fun _ _ => enclosed, spelled, gathers⟩
  | selfClosingTag => exact ⟨nofun, nofun, named, smallKey, fun _ _ => enclosed, spelled, gathers⟩
  | endTag =>
      exact ⟨fun _ => rfl, nofun, named, nofun, fun _ _ => enclosed, spelled,
        Attribute.gathers_gather []⟩

end Token

namespace Reading

variable {source : List Char}

theorem wellMade_tag (closing : Bool) (source : List Char) :
    (tag (tagMark closing) closing source).token.WellMade := by
  cases found : Interior.read? (source.dropWhile (!isNameEnd ·)) with
  | none =>
      rw [tag_of_unended found]
      exact Token.wellMade_of_untagged rfl
  | some interior =>
      obtain ⟨-, inner⟩ := split_raw found
      have last : interior.raw.getLast? = some '>' := Interior.getLast?_raw_of_readFrom? found
      apply (isTag_tag found).wellMade (Text.small_toLower _)
      case behind => rw [String.toList_ofList, List.append_assoc, List.drop_left, inner]
      case enclosed =>
        rw [String.toList_ofList, List.getLast?_append, last]
        cases closing <;> exact ⟨rfl, rfl⟩
      case spelled => exact Interior.flatMap_text_lexemes (Interior.read?_raw found) rfl
      case gathers => exact Interior.gathers_read? found

theorem wellMade_of_next? {inside : Option String} {reading : Reading}
    (found : next? inside source = some reading) : reading.token.WellMade := by
  rcases begins_of_next? found with begins | ⟨-, -, -, raw, rest, rfl⟩
  · cases begins with
    | tag closing letter => exact wellMade_tag closing _
    | comment | sign | text => exact Token.wellMade_of_untagged rfl
  · exact Token.wellMade_of_untagged rfl

end Reading

/-! ## Texts that begin like a tag -/

/-- A text begins with the sign of a start tag or an end tag and a letter. -/
def opensTag : List Char → Bool
  | '<' :: '/' :: c :: _ => c.isAlpha
  | '<' :: c :: _ => c.isAlpha
  | _ => false

/-- The tokens that come behind others begin with raw text: the last of the others is the start tag of
an element with raw text, and the element is not closed at once. -/
def InRawText (before after : List Token) : Prop :=
  ∃ element, before.getLast?.bind Token.inside = some element ∧
    ¬ Closes element (after.flatMap (·.raw.toList))

namespace Reading

variable {source : List Char} {reading : Reading}

/-- Where a text begins like a tag outside of raw text, it goes on to the end of the page. -/
theorem Begins.rest_eq_nil {raw : String} (begins : Begins source reading)
    (text : reading.token = .text raw) (opens : opensTag raw.toList = true) :
    reading.rest = [] := by
  cases begins with
  | comment body => cases text
  | @tag closing c rest letter =>
      cases found : Interior.read? ((c :: rest).dropWhile (!isNameEnd ·)) with
      | none =>
          rw [tag_of_unended found]
          rfl
      | some interior =>
          have isTag := @isTag_tag _ (tagMark closing) closing _ found
          rw [text] at isTag
          cases isTag
  | sign plain =>
      obtain rfl := Token.text.inj text
      cases opens
  | @text c rest plain =>
      obtain rfl := Token.text.inj text
      rw [String.toList_ofList, List.takeWhile_cons_of_pos (by simpa using plain)] at opens
      simp [opensTag, plain] at opens

end Reading

/-- Every token of a page is well made.  A text that begins like a tag is the last token, unless it
is raw text. -/
theorem tokenize_wellMade {page : String} {before after : List Token} {token : Token}
    (tokens : tokenize page = before ++ token :: after) :
    token.WellMade ∧
      ∀ raw, token = .text raw → opensTag raw.toList = true → ¬ InRawText before (token :: after) →
        after = [] := by
  obtain ⟨rest, reading, found, rfl, behind, -⟩ := exists_reading_of_split tokens
  refine ⟨Reading.wellMade_of_next? found, fun raw text opens outside => ?_⟩
  rcases Reading.begins_of_next? found with begins | ⟨element, inside, unclosed, -⟩
  · rw [← behind, begins.rest_eq_nil text opens, tokensFrom_nil]
  · refine absurd ⟨element, ?_, ?_⟩ outside
    · rw [← inside]
      cases before.getLast? <;> rfl
    · have whole : (reading.token :: after).flatMap (·.raw.toList) = rest := by
        rw [List.flatMap_cons, ← behind, flatMap_raw_tokensFrom]
        exact Reading.whole_of_next? found
      rw [whole, ← closesElement_iff, unclosed]
      exact Bool.false_ne_true

/-- A script with what looks like a tag in it, a tag in which a key occurs twice and an equals sign
stands alone, and a tag that never ends. -/
theorem tokenize_wellMade_repeated :
    let script := [Token.startTag "<script>" "script" []]
    let closing := Token.endTag "</SCRIPT b=1>" "script"
    let tag := Token.selfClosingTag "<T:P A=1 = b=/c A='2>'/>" "t:p"
      [⟨"a", "2>"⟩, ⟨"=", ""⟩, ⟨"b", "/c"⟩]
    let last := Token.text "<p x='/>"
    let page := "<script></a></SCRIPT b=1><T:P A=1 = b=/c A='2>'/><p x='/>"
    tokenize page = script ++ .text "</a>" :: [closing, tag, last] ∧
      InRawText script [.text "</a>", closing, tag, last] ∧
      tokenize page = (script ++ [.text "</a>", closing]) ++ tag :: [last] ∧ tag.WellMade ∧
      tag.occurrences = [⟨"a", "1"⟩, ⟨"=", ""⟩, ⟨"b", "/c"⟩, ⟨"a", "2>"⟩] ∧
      tokenize page = (script ++ [.text "</a>", closing, tag]) ++ last :: [] ∧ last.WellMade := by
  intro script closing tag last page
  have tokens : tokenize page = script ++ .text "</a>" :: [closing, tag, last] := by decide +kernel
  have third : tokenize page = (script ++ [.text "</a>", closing]) ++ tag :: [last] := tokens
  have final : tokenize page = (script ++ [.text "</a>", closing, tag]) ++ last :: [] := tokens
  have raw : InRawText script [.text "</a>", closing, tag, last] := by
    by_contra outside
    cases (tokenize_wellMade tokens).2 "</a>" rfl (by decide) outside
  exact ⟨tokens, raw, third, (tokenize_wellMade third).1, by decide +kernel, final,
    (tokenize_wellMade final).1⟩

end Stencil.Markup
