import Stencil.Proofs.Markup.Seams
import Stencil.Proofs.Text.LetterCase

/-!
# Tags in another letter case

The name of a tag and the keys of its attributes are read without regard to letter case.  The
spelling of a token says which of its characters belong to them, and a token that is written in
another way that its spelling allows is read as the same token.  The tokens around it stay as they
are, since nothing else in a page is found by the case of a letter.
-/

namespace Stencil.Markup

open Text (Allows Caseless Recased Spelling)

namespace Progress

/-- A lexeme is read as a key: a word or a quoted value where no value is expected, or an equals sign
without a key before it. -/
def readsKey : Progress → Lexeme → Bool
  | between, .word _ | between, .quoted _ _ | between, .equals => true
  | between, .close | between, .selfClose | between, .slash | between, .gap _ => false
  | afterKey _, .word _ | afterKey _, .quoted _ _ => true
  | afterKey _, .close | afterKey _, .selfClose | afterKey _, .slash | afterKey _, .equals
  | afterKey _, .gap _ => false
  | beforeValue _, _ | unquoted _ _, _ => false

end Progress

/-- The spelling of the interior of a tag.  Its keys are free. -/
def Interior.spellingFrom (progress : Progress) (attributes : List Attribute)
    (source : List Char) : Spelling :=
  match _h : Lexeme.next? source with
  | none => Text.fixed source
  | some (lexeme, rest) =>
      lexeme.text.map (·, progress.readsKey lexeme) ++
        match progress.advance attributes lexeme with
        | .stop _ _ => Text.fixed rest
        | .goOn progress attributes => spellingFrom progress attributes rest
termination_by source.length
decreasing_by exact Lexeme.length_lt_of_next? _h

/-- The spelling of a tag.  Its name and its keys are free. -/
def tagSpelling (closing : Bool) (raw : List Char) : Spelling :=
  let behind := raw.drop (tagMark closing).length
  Text.fixed (tagMark closing) ++ (Text.free (behind.takeWhile (!isNameEnd ·)) ++
    Interior.spellingFrom .between [] (behind.dropWhile (!isNameEnd ·)))

namespace Token

/-- The spelling of a token.  In texts and comments nothing is free. -/
def spelling : Token → Spelling
  | text raw | comment raw => Text.fixed raw.toList
  | startTag raw _ _ | selfClosingTag raw _ _ => tagSpelling false raw.toList
  | endTag raw _ => tagSpelling true raw.toList

/-- The token, read from other characters. -/
def withRaw (raw : String) : Token → Token
  | text _ => text raw
  | comment _ => comment raw
  | startTag _ name attributes => startTag raw name attributes
  | endTag _ name => endTag raw name
  | selfClosingTag _ name attributes => selfClosingTag raw name attributes

@[simp]
theorem withRaw_raw (token : Token) : token.withRaw token.raw = token := by
  cases token <;> rfl

@[simp]
theorem withRaw_withRaw (token : Token) (raw other : String) :
    (token.withRaw other).withRaw raw = token.withRaw raw := by
  cases token <;> rfl

@[simp]
theorem name?_withRaw (token : Token) (raw : String) : (token.withRaw raw).name? = token.name? := by
  cases token <;> rfl

@[simp]
theorem attributes_withRaw (token : Token) (raw : String) :
    (token.withRaw raw).attributes = token.attributes := by
  cases token <;> rfl

@[simp]
theorem opens_withRaw (token : Token) (raw : String) : (token.withRaw raw).opens = token.opens := by
  cases token <;> rfl

@[simp]
theorem closes_withRaw (token : Token) (raw : String) :
    (token.withRaw raw).closes = token.closes := by
  cases token <;> rfl

end Token

/-! ## Lexemes -/

theorem caseless_isNameEnd : Caseless isNameEnd :=
  (Text.caseless_isGap.or (Text.caseless_sign (by decide))).or (Text.caseless_sign (by decide))

namespace Lexeme

variable {lexeme : Lexeme} {text rest others : List Char}

theorem caseless_isQuote : Caseless isQuote :=
  (Text.caseless_sign (by decide)).or (Text.caseless_sign (by decide))

theorem caseless_isWord : Caseless isWord :=
  (((Text.caseless_isGap.or caseless_isQuote).or (Text.caseless_sign (by decide))).or
    (Text.caseless_sign (by decide))).or (Text.caseless_sign (by decide)) |>.not

theorem caseless_takes (lexeme : Lexeme) : Caseless lexeme.takes := by
  cases lexeme with
  | gap => exact Text.caseless_isGap
  | word => exact caseless_isWord
  | slash => exact Text.caseless_sign (by decide)
  | close | selfClose | equals | quoted => exact fun _ _ _ => rfl

theorem toNat_lt_of_isQuote {mark : Char} (quote : isQuote mark = true) : mark.toNat < 65 := by
  simp only [isQuote, Bool.or_eq_true, beq_iff_eq] at quote
  rcases quote with rfl | rfl <;> decide

/-- A lexeme of the same kind can be written with letters in another case. -/
theorem WellFormed.exists_recased (formed : lexeme.WellFormed) (recased : Recased lexeme.text text) :
    ∃ other : Lexeme, other.text = text ∧ other.WellFormed ∧ other.takes = lexeme.takes ∧
      ∀ progress : Progress, progress.readsKey other = progress.readsKey lexeme := by
  cases lexeme with
  | close => exact ⟨.close, (recased.eq_of_signs (by decide)).symm, trivial, rfl, fun _ => rfl⟩
  | selfClose =>
      exact ⟨.selfClose, (recased.eq_of_signs (by decide)).symm, trivial, rfl, fun _ => rfl⟩
  | slash => exact ⟨.slash, (recased.eq_of_signs (by decide)).symm, trivial, rfl, fun _ => rfl⟩
  | equals => exact ⟨.equals, (recased.eq_of_signs (by decide)).symm, trivial, rfl, fun _ => rfl⟩
  | gap blank =>
      refine ⟨.gap text, rfl, ⟨recased.ne_nil formed.1, ?_⟩, rfl,
        fun progress => by cases progress <;> rfl⟩
      exact (recased.all_eq Text.caseless_isGap).trans formed.2
  | word word =>
      refine ⟨.word text, rfl, ⟨recased.ne_nil formed.1, ?_⟩, rfl,
        fun progress => by cases progress <;> rfl⟩
      exact (recased.all_eq caseless_isWord).trans formed.2
  | quoted mark body =>
      obtain ⟨quote, free⟩ := formed
      have below := toNat_lt_of_isQuote quote
      obtain ⟨first, last, rfl, front, back⟩ := Recased.exists_append recased
      obtain ⟨d, inner, rfl, lower, inside⟩ := front.exists_cons
      obtain rfl : d = mark := by simpa using Text.caseless_sign below mark d lower
      obtain rfl := back.eq_of_signs (by simpa using below)
      have pass : body.all (!· == d) = true := by
        rw [List.all_eq_true]
        intro c member
        rw [Bool.not_eq_true', beq_eq_false_iff_ne]
        rintro rfl
        exact free member
      have passOther := (inside.all_eq (Text.caseless_sign below).not).trans pass
      refine ⟨.quoted d inner, rfl, ⟨quote, fun member => ?_⟩, rfl,
        fun progress => by cases progress <;> rfl⟩
      simpa using List.all_eq_true.mp passOther d member

end Lexeme

namespace Progress

variable {progress : Progress} {lexeme other : Lexeme} {text rest others : List Char}

/-- The attributes when a key is read.  A key that stands before it has no value. -/
def settle (attributes : List Attribute) : Progress → List Attribute
  | afterKey key => Attribute.put key "" attributes
  | between | beforeValue _ | unquoted _ _ => attributes

theorem advance_of_readsKey (key : progress.readsKey lexeme = true) (attributes : List Attribute) :
    progress.advance attributes lexeme = .goOn (keyOf lexeme) (progress.settle attributes) := by
  cases progress with
  | between => cases lexeme <;> first | rfl | cases key
  | afterKey => cases lexeme <;> first | rfl | cases key
  | beforeValue => cases key
  | unquoted => cases key

/-- What a lexeme does it also does with the letters of a key in another case. -/
theorem exists_respelled (stands : lexeme.StandsBefore rest) (recased : Recased rest others)
    (allows : Allows (lexeme.text.map (·, progress.readsKey lexeme)) text) :
    ∃ other : Lexeme, other.text = text ∧ other.StandsBefore others ∧
      ∀ attributes, progress.advance attributes other = progress.advance attributes lexeme := by
  have ends := recased.head?_of_caseless lexeme.caseless_takes stands.ends
  cases key : progress.readsKey lexeme with
  | false =>
      rw [key] at allows
      obtain rfl := Text.allows_fixed_iff.mp allows
      exact ⟨lexeme, rfl, ⟨stands.wellFormed, ends⟩, fun _ => rfl⟩
  | true =>
      rw [key] at allows
      have letters := Text.allows_free_iff.mp allows
      obtain ⟨other, rfl, formed, takes, reads⟩ := stands.wellFormed.exists_recased letters
      refine ⟨other, rfl, ⟨formed, takes ▸ ends⟩, fun attributes => ?_⟩
      rw [advance_of_readsKey key, advance_of_readsKey ((reads progress).trans key), keyOf, keyOf,
        letters.toLower_ofList]

end Progress

/-! ## Interiors -/

namespace Interior

variable {progress : Progress} {attributes : List Attribute} {taken source other : List Char}
  {interior : Interior}

theorem map_fst_spellingFrom (progress : Progress) (attributes : List Attribute)
    (source : List Char) : (spellingFrom progress attributes source).map Prod.fst = source := by
  fun_induction spellingFrom progress attributes source with
  | case1 => exact Text.map_fst_fixed _
  | case2 progress attributes source lexeme rest read ih =>
      have behind : (match progress.advance attributes lexeme with
          | .stop _ _ => Text.fixed rest
          | .goOn progress attributes => spellingFrom progress attributes rest).map Prod.fst =
            rest := by
        split
        · exact Text.map_fst_fixed rest
        · exact ih _ _
      rw [List.map_append, behind, ← Lexeme.next?_eq_some read]
      simp [Function.comp_def]

theorem spellingFrom_of_next? {rest : List Char} {lexeme : Lexeme}
    (found : Lexeme.next? source = some (lexeme, rest)) :
    spellingFrom progress attributes source =
      lexeme.text.map (·, progress.readsKey lexeme) ++
        match progress.advance attributes lexeme with
        | .stop _ _ => Text.fixed rest
        | .goOn progress attributes => spellingFrom progress attributes rest := by
  rw [spellingFrom]
  split
  next none =>
    rw [found] at none
    cases none
  next read =>
    obtain ⟨rfl, rfl⟩ := Prod.mk.inj (Option.some.inj (found.symm.trans read))
    rfl

/-- An interior with keys in another letter case has the same attributes. -/
theorem readFrom?_of_allows (found : readFrom? progress attributes taken source = some interior)
    (whole : interior.rest = []) (allows : Allows (spellingFrom progress attributes source) other)
    (before : List Char) :
    readFrom? progress attributes before other =
      some ⟨before.reverse ++ other, interior.selfClosing, interior.attributes, []⟩ := by
  fun_induction readFrom? progress attributes taken source generalizing other before with
  | case1 => cases found
  | case2 progress attributes taken source lexeme rest read selfClosing final stopped =>
      obtain rfl := Option.some.inj found
      obtain rfl : rest = [] := whole
      rw [spellingFrom_of_next? read, stopped] at allows
      obtain ⟨text, last, rfl, here, nothing⟩ := Text.allows_append_iff.mp allows
      obtain rfl := Text.allows_fixed_iff.mp nothing
      obtain ⟨-, stands⟩ := Lexeme.next?_eq_some_iff.mp read
      obtain ⟨other, rfl, standsOther, same⟩ := Progress.exists_respelled stands (.refl []) here
      rw [readFrom?_of_next? (Lexeme.next?_eq_some_iff.mpr ⟨rfl, standsOther⟩), same, stopped]
      simp
  | case3 progress attributes taken source lexeme rest read next middle goesOn ih =>
      rw [spellingFrom_of_next? read, goesOn] at allows
      obtain ⟨text, others, rfl, here, behind⟩ := Text.allows_append_iff.mp allows
      -- A lexeme ends before the same character, in whichever case that is written.
      have recased := behind.recased
      rw [map_fst_spellingFrom] at recased
      obtain ⟨-, stands⟩ := Lexeme.next?_eq_some_iff.mp read
      obtain ⟨other, rfl, standsOther, same⟩ := Progress.exists_respelled stands recased here
      rw [readFrom?_of_next? (Lexeme.next?_eq_some_iff.mpr ⟨rfl, standsOther⟩), same, goesOn]
      simp [ih found behind]

/-- What follows the interior of a tag does not matter either. -/
theorem read?_of_allows (found : read? source = some interior)
    (allows : Allows (spellingFrom .between [] interior.raw) other) (more : List Char) :
    read? (other ++ more) = some ⟨other, interior.selfClosing, interior.attributes, more⟩ := by
  exact read?_append_of_eq_some (readFrom?_of_allows (read?_raw found) rfl allows []) more

end Interior

/-! ## Readings -/

theorem closesElement_recased (element : String) {source other : List Char}
    (recased : Recased source other) : closesElement element other = closesElement element source := by
  unfold closesElement
  dsimp only
  rw [recased.take, (recased.drop _).head?_all_eq caseless_isNameEnd]

theorem opensMarkup_recased {source other : List Char} (recased : Recased source other) :
    opensMarkup other = opensMarkup source := by
  cases source with
  | nil => rw [recased.eq_nil]
  | cons c rest =>
      obtain ⟨d, others, rfl, lower, behind⟩ := recased.exists_cons
      have sign : ∀ sign : Char, sign.toNat < 65 → (d = sign ↔ c = sign) := by
        intro sign below
        have same := Text.caseless_sign below c d lower
        rw [Bool.eq_iff_iff, beq_iff_eq, beq_iff_eq] at same
        exact same.symm
      by_cases bang : c = '!'
      · rw [bang, (sign '!' (by decide)).mpr bang]
        exact behind.isPrefixOf_eq (by decide)
      by_cases slash : c = '/'
      · rw [slash, (sign '/' (by decide)).mpr slash]
        cases rest with
        | nil => rw [behind.eq_nil]
        | cons e rest =>
            obtain ⟨f, others, rfl, lower, -⟩ := behind.exists_cons
            exact (Text.caseless_isAlpha e f lower).symm
      rw [opensMarkup_of_ne bang slash, opensMarkup_of_ne (bang ∘ (sign '!' (by decide)).mp)
        (slash ∘ (sign '/' (by decide)).mp), Text.caseless_isAlpha c d lower]

namespace Reading

variable {source rest others raw : List Char} {reading : Reading} {closing : Bool}

/-- What is read when the token and the text behind it are written in another way. -/
def withRaw (reading : Reading) (raw rest : List Char) : Reading :=
  ⟨reading.token.withRaw (String.ofList raw), rest, reading.inside⟩

section Tag

variable {interior : Interior}
  (found : Interior.read? (source.dropWhile (!isNameEnd ·)) = some interior)

include found

/-- The spelling of a tag that ends. -/
theorem spelling_tag :
    (tag (tagMark closing) closing source).token.spelling =
      Text.fixed (tagMark closing) ++ (Text.free (source.takeWhile (!isNameEnd ·)) ++
        Interior.spellingFrom .between [] interior.raw) := by
  obtain ⟨name, inner⟩ := split_raw found
  have spelling : tagSpelling closing
      (tagMark closing ++ source.takeWhile (!isNameEnd ·) ++ interior.raw) =
        Text.fixed (tagMark closing) ++ (Text.free (source.takeWhile (!isNameEnd ·)) ++
          Interior.spellingFrom .between [] interior.raw) := by
    rw [tagSpelling, List.append_assoc, List.drop_left, name, inner]
  unfold tag
  rw [found]
  dsimp only
  cases closing <;> cases interior.selfClosing <;>
    exact (congrArg _ String.toList_ofList).trans spelling

/-- A tag with its name in another letter case, and with an interior that is read alike, is read as
the same tag. -/
theorem tag_of_recased {written inner : List Char}
    (recased : Recased (source.takeWhile (!isNameEnd ·)) written)
    (allows : Allows (Interior.spellingFrom .between [] interior.raw) inner) :
    tag (tagMark closing) closing (written ++ (inner ++ rest)) =
      (tag (tagMark closing) closing source).withRaw (tagMark closing ++ written ++ inner) rest := by
  have pass : ∀ c ∈ written, isNameEnd c = false := by
    have all := recased.all_eq caseless_isNameEnd.not
    rw [List.all_takeWhile, List.all_eq_true] at all
    intro c member
    simpa using all c member
  have ends : ∀ c, (inner ++ rest).head? = some c → isNameEnd c = true := by
    have same := allows.recased
    rw [Interior.map_fst_spellingFrom] at same
    obtain ⟨c, first, isEnd⟩ := head?_raw found
    obtain ⟨others, whole⟩ := List.head?_eq_some_iff.mp first
    rw [whole] at same
    obtain ⟨d, others, rfl, lower, -⟩ := same.exists_cons
    intro other same
    rw [← Option.some.inj same, ← caseless_isNameEnd c d lower, isEnd]
  have name := recased.toLower_ofList
  unfold tag
  rw [takeWhile_name pass ends, dropWhile_name pass ends, Interior.read?_of_allows found allows,
    found]
  dsimp only
  rw [name]
  cases closing <;> cases interior.selfClosing <;> rfl

end Tag

theorem map_fst_spelling_tag (closing : Bool) (source : List Char) :
    (tag (tagMark closing) closing source).token.spelling.map Prod.fst =
      (tag (tagMark closing) closing source).token.raw.toList := by
  cases found : Interior.read? (source.dropWhile (!isNameEnd ·)) with
  | none =>
      rw [tag_of_unended found]
      exact Text.map_fst_fixed _
  | some interior =>
      rw [spelling_tag found, List.map_append, List.map_append, Text.map_fst_fixed,
        Text.map_fst_free, Interior.map_fst_spellingFrom, (isTag_tag found).raw_eq,
        String.toList_ofList, List.append_assoc]

/-- The spelling of what is read has its characters. -/
theorem map_fst_spelling {inside : Option String} (found : next? inside source = some reading) :
    reading.token.spelling.map Prod.fst = reading.token.raw.toList := by
  rcases begins_of_next? found with begins | ⟨-, -, -, raw, rest, rfl⟩
  · cases begins with
    | tag closing letter => exact map_fst_spelling_tag closing _
    | comment | sign | text => exact Text.map_fst_fixed _
  · exact Text.map_fst_fixed _

theorem comment_of_splitWhere {body before ending : List Char}
    (split : Text.splitWhere (['-', '-', '>'].isPrefixOf ·) body = (before, ending)) :
    comment body =
      ⟨.comment (String.ofList ('<' :: '!' :: '-' :: '-' :: before ++ ending.take 3)),
        ending.drop 3, none⟩ := by
  rw [comment, split]

/-- A comment ends at the same place. -/
theorem comment_of_recased {body : List Char} (recased : Recased (comment body).rest rest) :
    Begins ((comment body).token.raw.toList ++ rest)
      ((comment body).withRaw (comment body).token.raw.toList rest) := by
  rcases split : Text.splitWhere (['-', '-', '>'].isPrefixOf ·) body with ⟨before, ending⟩
  rw [comment_of_splitWhere split] at recased ⊢
  have others : Recased ending (ending.take 3 ++ rest) := by
    conv => lhs; rw [← List.take_append_drop 3 ending]
    exact (Recased.refl _).append recased
  have splitOther := Recased.splitWhere_of_recased split others fun _ _ recased =>
    recased.isPrefixOf_eq (by decide)
  have parts : (ending.take 3 ++ rest).take 3 = ending.take 3 ∧
      (ending.take 3 ++ rest).drop 3 = rest := by
    by_cases long : 3 ≤ ending.length
    · have three : (ending.take 3).length = 3 := by simp [long]
      exact ⟨List.take_left' three, List.drop_left' three⟩
    · dsimp only at recased
      rw [List.drop_of_length_le (by omega)] at recased
      obtain rfl := recased.eq_nil
      simp [List.take_take]
  have begins := Begins.comment (before ++ (ending.take 3 ++ rest))
  rw [comment_of_splitWhere splitOther, parts.1, parts.2] at begins
  simpa [withRaw, Token.withRaw, Token.raw] using begins

theorem tag_of_allows {c : Char} {behind : List Char} (letter : c.isAlpha = true)
    (allows : Allows (tag (tagMark closing) closing (c :: behind)).token.spelling raw)
    (recased : Recased (tag (tagMark closing) closing (c :: behind)).rest rest) :
    Begins (raw ++ rest) ((tag (tagMark closing) closing (c :: behind)).withRaw raw rest) := by
  cases found : Interior.read? ((c :: behind).dropWhile (!isNameEnd ·)) with
  | none =>
      have begins := @Begins.tag closing _ behind letter
      rw [tag_of_unended found] at allows recased begins ⊢
      obtain rfl := Text.allows_fixed_iff.mp allows
      obtain rfl := recased.eq_nil
      simpa [withRaw, toEnd, Token.withRaw] using begins
  | some interior =>
      rw [spelling_tag found] at allows
      obtain ⟨mark, more, rfl, same, allows⟩ := Text.allows_append_iff.mp allows
      obtain ⟨written, inner, rfl, letters, inside⟩ := Text.allows_append_iff.mp allows
      obtain rfl := Text.allows_fixed_iff.mp same
      have name := Text.allows_free_iff.mp letters
      have begin : isNameEnd c = false :=
        not_isNameEnd_of_isLower_toLower ((Text.isLower_toLower c).trans letter)
      have first := name
      rw [List.takeWhile_cons_of_pos (by simpa using begin)] at first
      obtain ⟨d, others, rfl, lower, -⟩ := first.exists_cons
      have letterOther : d.isAlpha = true := by rw [← Text.caseless_isAlpha c d lower, letter]
      have begins := @Begins.tag closing _ (others ++ (inner ++ rest)) letterOther
      rw [← List.cons_append, tag_of_recased found name inside] at begins
      simpa using begins

/-- A text is read alike in another way that the spelling of its first token allows, when it goes on
in another letter case. -/
theorem Begins.of_allows (begins : Begins source reading)
    (allows : Allows reading.token.spelling raw) (recased : Recased reading.rest rest) :
    Begins (raw ++ rest) (reading.withRaw raw rest) := by
  cases begins with
  | comment body =>
      obtain rfl := Text.allows_fixed_iff.mp allows
      exact comment_of_recased recased
  | tag closing letter => exact tag_of_allows letter allows recased
  | sign plain =>
      obtain rfl := Text.allows_fixed_iff.mp allows
      exact .sign ((opensMarkup_recased recased).trans plain)
  | @text c behind plain =>
      obtain rfl := Text.allows_fixed_iff.mp allows
      have pass : ∀ d ∈ (c :: behind).takeWhile (· != '<'), (d != '<') = true :=
        fun d member => List.all_eq_true.mp List.all_takeWhile d member
      have ends : ∀ d, rest.head? = some d → (d != '<') = false :=
        recased.head?_of_caseless (Text.caseless_sign (by decide)).not
          fun _ first => @Text.not_head?_dropWhile _ (· != '<') _ _ first
      have begins := @Begins.text _ (behind.takeWhile (· != '<') ++ rest) plain
      rw [← List.cons_append, ← List.takeWhile_cons_of_pos (by simpa using plain),
        Text.takeWhile_append_of_ends pass ends, Text.dropWhile_append_of_ends pass ends] at begins
      simpa [withRaw, Token.withRaw, Token.raw] using begins

/-- What is read of a page stays as it is. -/
theorem next?_of_allows {inside : Option String} (found : next? inside source = some reading)
    (allows : Allows reading.token.spelling raw) (recased : Recased reading.rest rest) :
    next? inside (raw ++ rest) = some (reading.withRaw raw rest) := by
  cases inside with
  | none => exact ((begins_of_markup? found).of_allows allows recased).markup?
  | some element =>
      have whole : Recased source (raw ++ rest) := by
        have token := allows.recased
        rw [map_fst_spelling found] at token
        rw [← whole_of_next? found]
        exact token.append recased
      have caseless : ∀ source other, Recased source other →
          closesElement element other = closesElement element source :=
        fun _ _ => closesElement_recased element
      rw [next?_inside] at found ⊢
      dsimp only at found ⊢
      by_cases empty : (Text.splitWhere (closesElement element) source).1 = []
      · have same := (whole.splitWhere caseless).1
        rw [empty] at same
        rw [if_pos empty] at found
        rw [if_pos same.eq_nil]
        exact ((begins_of_markup? found).of_allows allows recased).markup?
      · rw [if_neg empty] at found
        obtain rfl := Option.some.inj found
        obtain rfl := Text.allows_fixed_iff.mp allows
        have split := Recased.splitWhere_of_recased (Prod.eta _).symm recased caseless
        rw [String.toList_ofList, split, if_neg empty]
        rfl

end Reading

end Stencil.Markup
