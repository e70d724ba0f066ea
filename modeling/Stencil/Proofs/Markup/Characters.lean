import Stencil.Markup.Reading
import Stencil.Proofs.Text.Characters

/-!
# The characters of tokens

All that a token carries is written in the page, apart from the letter case of names and keys.  So
a property of characters that holds throughout a page, and is kept by lower-casing, holds
throughout its tokens.
-/

namespace Stencil.Markup

open Text (MadeOf)

variable {p : Char → Prop}

/-- The key and the value of an attribute are made of characters with the property `p`. -/
def Attribute.IsMadeOf (p : Char → Prop) (given : Attribute) : Prop :=
  MadeOf p given.key ∧ MadeOf p given.value

theorem Attribute.isMadeOf_put {key value : String} {attributes : List Attribute}
    (keyMade : MadeOf p key) (valueMade : MadeOf p value)
    (made : ∀ given ∈ attributes, given.IsMadeOf p) :
    ∀ given ∈ Attribute.put key value attributes, given.IsMadeOf p := by
  induction attributes with
  | nil => simpa using ⟨keyMade, valueMade⟩
  | cons first rest ih =>
      rw [List.forall_mem_cons] at made
      unfold Attribute.put
      split
      · exact List.forall_mem_cons.mpr ⟨⟨keyMade, valueMade⟩, made.2⟩
      · exact List.forall_mem_cons.mpr ⟨made.1, ih made.2⟩

/-- Every text that a token carries is made of characters with the property `p`. -/
structure Token.IsMadeOf (p : Char → Prop) (token : Token) : Prop where
  raw : MadeOf p token.raw
  name : ∀ name, token.name? = some name → MadeOf p name
  attributes : ∀ given ∈ token.attributes, given.IsMadeOf p

namespace Progress

/-- What has been read since the last attribute is made of characters with the property `p`. -/
def IsMadeOf (p : Char → Prop) : Progress → Prop
  | between => True
  | afterKey key | beforeValue key => MadeOf p key
  | unquoted key value => MadeOf p key ∧ MadeOf p value

end Progress

/-- What a tag goes on with, or ends with, is made of characters with the property `p`. -/
def Advance.IsMadeOf (p : Char → Prop) : Advance → Prop
  | goOn progress attributes => progress.IsMadeOf p ∧ ∀ given ∈ attributes, given.IsMadeOf p
  | stop _ attributes => ∀ given ∈ attributes, given.IsMadeOf p

variable (lower : ∀ c, p c → p c.toLower)

include lower

theorem Progress.isMadeOf_keyOf {lexeme : Lexeme} (made : ∀ c ∈ lexeme.text, p c) :
    (keyOf lexeme).IsMadeOf p :=
  MadeOf.toLower lower (Text.madeOf_ofList.mpr made)

theorem Progress.isMadeOf_advance {progress : Progress} {attributes : List Attribute}
    {lexeme : Lexeme} (made : ∀ c ∈ lexeme.text, p c) (progressMade : progress.IsMadeOf p)
    (attributesMade : ∀ given ∈ attributes, given.IsMadeOf p) :
    (progress.advance attributes lexeme).IsMadeOf p := by
  have key := isMadeOf_keyOf lower made
  have written := Text.madeOf_ofList.mpr made
  have put : ∀ {key value : String}, MadeOf p key → MadeOf p value →
      ∀ given ∈ Attribute.put key value attributes, given.IsMadeOf p :=
    fun keyMade valueMade => Attribute.isMadeOf_put keyMade valueMade attributesMade
  have empty : MadeOf p "" := Text.madeOf_empty
  cases progress with
  | between =>
      cases lexeme with
      | gap | slash => exact ⟨trivial, attributesMade⟩
      | close | selfClose => exact attributesMade
      | equals | quoted | word => exact ⟨key, attributesMade⟩
  | afterKey name =>
      cases lexeme with
      | gap | equals => exact ⟨progressMade, attributesMade⟩
      | close | selfClose => exact put progressMade empty
      | slash => exact ⟨trivial, put progressMade empty⟩
      | quoted | word => exact ⟨key, put progressMade empty⟩
  | beforeValue name =>
      cases lexeme with
      | gap => exact ⟨progressMade, attributesMade⟩
      | close | selfClose => exact put progressMade empty
      | quoted mark body =>
          have bodyMade : ∀ c ∈ body, p c := fun c member => made c (by simp [Lexeme.text, member])
          exact ⟨trivial, put progressMade (Text.madeOf_ofList.mpr bodyMade)⟩
      | slash | equals | word => exact ⟨⟨progressMade, written⟩, attributesMade⟩
  | unquoted name value =>
      cases lexeme with
      | gap => exact ⟨trivial, put progressMade.1 progressMade.2⟩
      | close => exact put progressMade.1 progressMade.2
      | selfClose =>
          have slash : MadeOf p "/" := by simpa [MadeOf] using made '/' (by simp [Lexeme.text])
          exact put progressMade.1 (Text.madeOf_append.mpr ⟨progressMade.2, slash⟩)
      | slash | equals | quoted | word =>
          exact ⟨⟨progressMade.1, Text.madeOf_append.mpr ⟨progressMade.2, written⟩⟩, attributesMade⟩

theorem Interior.isMadeOf_readFrom? {progress : Progress} {attributes : List Attribute}
    {taken source : List Char} {interior : Interior} (made : ∀ c ∈ source, p c)
    (progressMade : progress.IsMadeOf p) (attributesMade : ∀ given ∈ attributes, given.IsMadeOf p)
    (found : readFrom? progress attributes taken source = some interior) :
    ∀ given ∈ interior.attributes, given.IsMadeOf p := by
  fun_induction readFrom? progress attributes taken source with
  | case1 => simp at found
  | case2 progress attributes taken source lexeme rest read selfClosing final stopped =>
      obtain rfl := Option.some.inj found
      rw [← Lexeme.next?_eq_some read, List.forall_mem_append] at made
      have ends := Progress.isMadeOf_advance lower made.1 progressMade attributesMade
      rw [stopped] at ends
      exact ends
  | case3 progress attributes taken source lexeme rest read next middle goesOn ih =>
      rw [← Lexeme.next?_eq_some read, List.forall_mem_append] at made
      have on := Progress.isMadeOf_advance lower made.1 progressMade attributesMade
      rw [goesOn] at on
      exact ih made.2 on.1 on.2 found

theorem Interior.isMadeOf_read? {source : List Char} {interior : Interior}
    (made : ∀ c ∈ source, p c) (found : read? source = some interior) :
    ∀ given ∈ interior.attributes, given.IsMadeOf p := by
  have start : Progress.between.IsMadeOf p := trivial
  exact isMadeOf_readFrom? lower made start (by simp) found

namespace Reading

theorem isMadeOf_tag {mark : List Char} {closing : Bool} {source : List Char}
    (made : ∀ c ∈ source, p c) :
    (∀ name, (tag mark closing source).token.name? = some name → MadeOf p name) ∧
      ∀ given ∈ (tag mark closing source).token.attributes, given.IsMadeOf p := by
  have written : MadeOf p (String.ofList (source.takeWhile (!isNameEnd ·))).toLower :=
    MadeOf.toLower lower (Text.madeOf_ofList.mpr fun c member =>
      made c ((List.takeWhile_sublist _).mem member))
  unfold tag
  split
  · simp [toEnd, Token.name?, Token.attributes]
  next interior found =>
    have inner : ∀ c ∈ source.dropWhile (!isNameEnd ·), p c :=
      fun c member => made c ((List.dropWhile_sublist _).mem member)
    have attributes := Interior.isMadeOf_read? lower inner found
    dsimp only
    split
    · simp [Token.name?, Token.attributes, written]
    · split <;> exact ⟨by simp [Token.name?, written], attributes⟩

theorem isMadeOf_markup? {source : List Char} {reading : Reading} (made : ∀ c ∈ source, p c)
    (found : markup? source = some reading) :
    (∀ name, reading.token.name? = some name → MadeOf p name) ∧
      ∀ given ∈ reading.token.attributes, given.IsMadeOf p := by
  have untagged : ∀ raw : String, (∀ name, (Token.text raw).name? = some name → MadeOf p name) ∧
      ∀ given ∈ (Token.text raw).attributes, given.IsMadeOf p := fun _ => ⟨nofun, nofun⟩
  unfold markup? at found
  split at found
  · simp at found
  · obtain rfl := Option.some.inj found
    exact ⟨nofun, nofun⟩
  · split at found <;> obtain rfl := Option.some.inj found
    · exact isMadeOf_tag lower fun c member => made c (by simp [member])
    · exact untagged _
  · split at found <;> obtain rfl := Option.some.inj found
    · exact isMadeOf_tag lower fun c member => made c (by simp [member])
    · exact untagged _
  · obtain rfl := Option.some.inj found
    exact untagged _
  · obtain rfl := Option.some.inj found
    exact untagged _

/-- The next token and what comes after it are made of the characters of the page. -/
theorem isMadeOf_next? {inside : Option String} {source : List Char} {reading : Reading}
    (made : ∀ c ∈ source, p c) (found : next? inside source = some reading) :
    reading.token.IsMadeOf p ∧ ∀ c ∈ reading.rest, p c := by
  have parts : (∀ name, reading.token.name? = some name → MadeOf p name) ∧
      ∀ given ∈ reading.token.attributes, given.IsMadeOf p := by
    unfold next? at found
    split at found
    · exact isMadeOf_markup? lower made found
    · split at found
      · exact isMadeOf_markup? lower made found
      · obtain rfl := Option.some.inj found
        exact ⟨nofun, nofun⟩
  rw [← whole_of_next? found, whole, List.forall_mem_append] at made
  exact ⟨⟨made.1, parts.1, parts.2⟩, made.2⟩

end Reading

theorem isMadeOf_tokensFrom {inside : Option String} {source : List Char}
    (made : ∀ c ∈ source, p c) : ∀ token ∈ tokensFrom inside source, token.IsMadeOf p := by
  fun_induction tokensFrom inside source with
  | case1 => exact nofun
  | case2 inside source reading found ih =>
      obtain ⟨token, rest⟩ := Reading.isMadeOf_next? lower made found
      exact List.forall_mem_cons.mpr ⟨token, ih rest⟩

/-- The tokens of a page are made of the characters of the page. -/
theorem isMadeOf_tokenize {page : String} (made : MadeOf p page) :
    ∀ token ∈ tokenize page, token.IsMadeOf p :=
  isMadeOf_tokensFrom lower made

end Stencil.Markup
