import Stencil.Markup.Reading

/-!
# How a text begins

A text that is searched for tags begins with a comment, with a tag, with a sign that opens neither,
or with other text.  Which of these it is can be told from a few characters at its beginning.
-/

namespace Stencil.Markup

/-- The signs that a tag begins with. -/
def tagMark (closing : Bool) : List Char :=
  if closing then ['<', '/'] else ['<']

/-- A comment or a tag begins with `<` and these characters. -/
def opensMarkup : List Char → Bool
  | '!' :: rest => ['-', '-'].isPrefixOf rest
  | '/' :: rest => rest.head?.any Char.isAlpha
  | c :: _ => c.isAlpha
  | [] => false

theorem opensMarkup_of_ne {c : Char} {rest : List Char} (bang : c ≠ '!') (slash : c ≠ '/') :
    opensMarkup (c :: rest) = c.isAlpha :=
  opensMarkup.eq_3 c rest bang slash

namespace Token

/-- The tags with given characters, name and attributes.  End tags forget their attributes. -/
inductive IsTag (raw name : String) (attributes : List Attribute) : (closing : Bool) → Token → Prop
  | startTag : IsTag raw name attributes false (startTag raw name attributes)
  | selfClosingTag : IsTag raw name attributes false (selfClosingTag raw name attributes)
  | endTag : IsTag raw name attributes true (endTag raw name)

theorem IsTag.raw_eq {raw name : String} {attributes : List Attribute} {closing : Bool}
    {token : Token} (isTag : IsTag raw name attributes closing token) : token.raw = raw := by
  cases isTag <;> rfl

end Token

namespace Reading

/-- What is read at the beginning of a text that is searched for tags. -/
inductive Begins : List Char → Reading → Prop
  | comment (body : List Char) : Begins ('<' :: '!' :: '-' :: '-' :: body) (comment body)
  | tag (closing : Bool) {c : Char} {rest : List Char} (letter : c.isAlpha = true) :
      Begins (tagMark closing ++ c :: rest) (tag (tagMark closing) closing (c :: rest))
  | sign {rest : List Char} (plain : opensMarkup rest = false) :
      Begins ('<' :: rest) ⟨.text "<", rest, none⟩
  | text {c : Char} {rest : List Char} (plain : c ≠ '<') :
      Begins (c :: rest) ⟨.text (String.ofList ((c :: rest).takeWhile (· != '<'))),
        (c :: rest).dropWhile (· != '<'), none⟩

variable {source rest : List Char} {reading : Reading} {c : Char}

/-- A tag without an end is text up to the end of the page. -/
theorem tag_of_unended {mark : List Char} {closing : Bool}
    (unended : Interior.read? (source.dropWhile (!isNameEnd ·)) = none) :
    tag mark closing source = toEnd (mark ++ source) := by
  unfold tag
  rw [unended]

/-- A tag that has an end is read as a tag. -/
theorem isTag_tag {mark : List Char} {closing : Bool} {interior : Interior}
    (found : Interior.read? (source.dropWhile (!isNameEnd ·)) = some interior) :
    Token.IsTag (String.ofList (mark ++ source.takeWhile (!isNameEnd ·) ++ interior.raw))
      (String.ofList (source.takeWhile (!isNameEnd ·))).toLower interior.attributes closing
      (tag mark closing source).token := by
  unfold tag
  rw [found]
  dsimp only
  cases closing with
  | true => exact .endTag
  | false =>
      cases interior.selfClosing with
      | true => exact .selfClosingTag
      | false => exact .startTag

theorem markup?_opening (closing : c ≠ '/') (comment : ¬ ['-', '-'] <+: rest ∨ c ≠ '!') :
    markup? ('<' :: c :: rest) =
      if c.isAlpha then some (tag ['<'] false (c :: rest))
      else some ⟨.text "<", c :: rest, none⟩ := by
  unfold markup?
  split <;> simp_all

theorem markup?_tag (closing : Bool) (letter : c.isAlpha = true) :
    markup? (tagMark closing ++ c :: rest) =
      some (tag (tagMark closing) closing (c :: rest)) := by
  have apart : ∀ sign : Char, sign.isAlpha = false → c ≠ sign := by
    rintro _ other rfl
    cases other.symm.trans letter
  cases closing with
  | true => exact if_pos letter
  | false =>
      exact (markup?_opening (apart '/' (by decide)) (.inr (apart '!' (by decide)))).trans
        (if_pos letter)

theorem markup?_sign (plain : opensMarkup rest = false) :
    markup? ('<' :: rest) = some ⟨.text "<", rest, none⟩ := by
  unfold opensMarkup at plain
  split at plain
  next rest =>
    rw [← Bool.not_eq_true, List.isPrefixOf_iff_prefix] at plain
    exact (markup?_opening (by decide) (.inl plain)).trans (if_neg (by decide))
  next rest =>
    cases rest with
    | nil => rfl
    | cons d rest => exact if_neg (by simpa using plain)
  next c rest bang slash =>
    exact (markup?_opening slash (.inr bang)).trans (if_neg (by simp [plain]))
  · rfl

theorem markup?_text (plain : c ≠ '<') :
    markup? (c :: rest) =
      some ⟨.text (String.ofList ((c :: rest).takeWhile (· != '<'))),
        (c :: rest).dropWhile (· != '<'), none⟩ := by
  unfold markup?
  split <;> simp_all

theorem Begins.markup? (begins : Begins source reading) : markup? source = some reading := by
  cases begins with
  | comment body => rfl
  | tag closing letter => exact markup?_tag closing letter
  | sign plain => exact markup?_sign plain
  | text plain => exact markup?_text plain

theorem begins_of_markup? (found : Reading.markup? source = some reading) :
    Begins source reading := by
  unfold Reading.markup? at found
  split at found
  · cases found
  · exact Option.some.inj found ▸ .comment _
  next c rest =>
    split at found
    next letter => exact Option.some.inj found ▸ .tag true letter
    next letter =>
      exact Option.some.inj found ▸ .sign (by simpa [opensMarkup] using letter)
  next c rest comment closing =>
    split at found
    next letter => exact Option.some.inj found ▸ .tag false letter
    next letter =>
      refine Option.some.inj found ▸ .sign ?_
      unfold opensMarkup
      split
      next rest whole =>
        obtain ⟨rfl, rfl⟩ := List.cons.inj whole
        rw [← Bool.not_eq_true, List.isPrefixOf_iff_prefix]
        rintro ⟨body, rfl⟩
        exact comment body rfl rfl
      next rest whole =>
        obtain ⟨rfl, rfl⟩ := List.cons.inj whole
        cases rest with
        | nil => rfl
        | cons d rest => exact absurd rfl (closing d rest rfl)
      next whole =>
        obtain ⟨rfl, rfl⟩ := List.cons.inj whole
        exact (Bool.not_eq_true _).mp letter
      next whole => cases whole
  · exact Option.some.inj found ▸ .sign rfl
  next empty _ _ opening single =>
    rcases source with _ | ⟨c, rest⟩
    · exact absurd rfl empty
    · refine Option.some.inj found ▸ .text ?_
      rintro rfl
      rcases rest with _ | ⟨c, rest⟩
      · exact single rfl
      · exact opening c rest rfl

end Reading

end Stencil.Markup
