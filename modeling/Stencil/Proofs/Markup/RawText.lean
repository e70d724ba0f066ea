import Stencil.Proofs.Markup.Seams
import Stencil.Proofs.Text.LetterCase

/-!
# Raw text

After the start tag of an element such as `script` a page is not searched for markup until the
element is closed.  All up to the first place at which its closing tag begins is one text.  The
closing tag comes next when it has an end, and otherwise the rest of the page is text as well.

So the start tags of these elements are the only tags that have a say in how the text after them is
read.
-/

namespace Stencil.Markup

/-! ## Closing tags -/

/-- The characters after two signs are a name in any letter case and what comes after it.  The name
ends with the text or at a character that ends names. -/
structure Names (element : String) (written after : List Char) : Prop where
  named : (String.ofList written).toLower = element
  ends : ∀ c, after.head? = some c → isNameEnd c = true

/-- The closing tag of an element begins a text. -/
def Closes (element : String) (source : List Char) : Prop :=
  ∃ written after, '<' :: '/' :: (written ++ after) = source ∧ Names element written after

variable {element : String} {source body written after : List Char}

theorem Names.map_toLower (names : Names element written after) :
    written.map Char.toLower = element.toList := by
  rw [← names.named, Text.toList_toLower, String.toList_ofList]

theorem not_closes_nil : ¬ Closes element [] := by
  rintro ⟨written, after, whole, -⟩
  cases whole

/-- What is looked for at a place of the raw text of an element is its closing tag. -/
theorem closesElement_iff : closesElement element source = true ↔ Closes element source := by
  simp only [closesElement, Bool.and_eq_true, beq_iff_eq, Option.all_eq_true]
  constructor
  · rintro ⟨begins, ends⟩
    obtain ⟨first, chars, taken, less, rest⟩ := List.map_eq_cons_iff.mp begins
    obtain ⟨second, written, rfl, slash, lower⟩ := List.map_eq_cons_iff.mp rest
    obtain rfl := Text.eq_of_toLower less (by decide)
    obtain rfl := Text.eq_of_toLower slash (by decide)
    refine ⟨written, _, ?_, ?_, ends⟩
    · rw [← List.cons_append, ← List.cons_append, ← taken, List.take_append_drop]
    · rw [← String.toList_inj, Text.toList_toLower, String.toList_ofList, lower]
  · rintro ⟨written, after, rfl, names⟩
    have lower := names.map_toLower
    have long : ('<' :: '/' :: written).length = ('<' :: '/' :: element.toList).length := by
      rw [← lower]
      simp
    rw [← List.cons_append, ← List.cons_append, List.take_left' long, List.drop_left' long,
      List.map_cons, List.map_cons, lower]
    exact ⟨rfl, names.ends⟩

/-- Raw text ends where the closing tag of its element begins for the first time. -/
structure Encloses (element : String) (source body written after : List Char) : Prop where
  whole : body ++ '<' :: '/' :: (written ++ after) = source
  names : Names element written after
  first : ∀ offset < body.length, ¬ Closes element (source.drop offset)

theorem not_closes_of_lt {offset : Nat}
    (before : offset < (Text.splitWhere (closesElement element) source).1.length) :
    ¬ Closes element (source.drop offset) := by
  rw [← closesElement_iff, Text.test_drop_of_lt_splitWhere before]
  exact Bool.false_ne_true

/-- Raw text that has an end is split there. -/
theorem encloses_of_splitWhere
    (stops : (Text.splitWhere (closesElement element) source).2 ≠ []) :
    ∃ written after, (Text.splitWhere (closesElement element) source).2 =
        '<' :: '/' :: (written ++ after) ∧
      Encloses element source (Text.splitWhere (closesElement element) source).1 written after := by
  obtain ⟨written, after, closing, names⟩ := closesElement_iff.mp (Text.test_splitWhere stops)
  refine ⟨written, after, closing.symm, ?_, names, fun _ => not_closes_of_lt⟩
  rw [closing, Text.splitWhere_append]

/-- Raw text that has no end is not split. -/
theorem not_closes_of_splitWhere (endless : (Text.splitWhere (closesElement element) source).2 = [])
    (offset : Nat) : ¬ Closes element (source.drop offset) := by
  have whole := Text.splitWhere_fst_of_endless endless
  by_cases before : offset < source.length
  · exact not_closes_of_lt (whole.symm ▸ before)
  · rw [List.drop_eq_nil_of_le (Nat.le_of_not_lt before)]
    exact not_closes_nil

/-! ## The tokens after a start tag -/

/-- A text as tokens, of which there are none when it is empty. -/
def textTokens (source : List Char) : List Token :=
  if source.isEmpty then [] else [.text (String.ofList source)]

theorem textTokens_of_ne_nil (filled : source ≠ []) :
    textTokens source = [.text (String.ofList source)] :=
  if_neg (by simpa using filled)

/-- The tokens of a text that begins in the raw text of an element. -/
inductive RawText (element : String) (source : List Char) : List Token → Prop
  /-- Without a closing tag all is one text. -/
  | unclosed (absent : ∀ offset, ¬ Closes element (source.drop offset)) :
      RawText element source (textTokens source)
  /-- A closing tag that never ends is text. -/
  | endless {body written after : List Char} (encloses : Encloses element source body written after)
      (unended : Interior.read? after = none) :
      RawText element source
        (textTokens body ++ [.text (String.ofList ('<' :: '/' :: (written ++ after)))])
  /-- After the closing tag the page is read on as markup. -/
  | closed {body written after : List Char} {interior : Interior}
      (encloses : Encloses element source body written after)
      (ended : Interior.read? after = some interior) :
      RawText element source
        (textTokens body ++
          .endTag (String.ofList ('<' :: '/' :: (written ++ interior.raw))) element ::
            tokensFrom none interior.rest)

/-- What a page is read as where a closing tag begins. -/
theorem markup?_of_names (known : element ∈ rawTextElements) (names : Names element written after) :
    Reading.markup? ('<' :: '/' :: (written ++ after)) =
      some (match Interior.read? after with
        | none => .toEnd ('<' :: '/' :: (written ++ after))
        | some interior =>
            ⟨.endTag (String.ofList ('<' :: '/' :: (written ++ interior.raw))) element,
              interior.rest, none⟩) := by
  obtain ⟨filled, letters⟩ := isLower_of_mem_rawTextElements known
  have lower := names.map_toLower
  have small : ∀ c ∈ written, c.toLower.isLower = true := by
    intro c member
    apply letters
    rw [← lower]
    exact List.mem_map_of_mem member
  have pass : ∀ c ∈ written, isNameEnd c = false :=
    fun c member => Reading.not_isNameEnd_of_isLower_toLower (small c member)
  have tag : Reading.markup? ('<' :: '/' :: (written ++ after)) =
      some (.tag ['<', '/'] true (written ++ after)) := by
    obtain ⟨c, rest, rfl⟩ : ∃ c rest, written = c :: rest := by
      apply List.exists_cons_of_ne_nil
      rintro rfl
      exact filled (String.toList_eq_nil_iff.mp lower.symm)
    simp [Reading.markup?, ← Text.isLower_toLower, small c List.mem_cons_self]
  rw [tag, Reading.tag, Reading.takeWhile_name pass names.ends,
    Reading.dropWhile_name pass names.ends]
  cases Interior.read? after with
  | none => rfl
  | some interior => simp [names.named]

theorem rawText_of_encloses (known : element ∈ rawTextElements)
    (encloses : Encloses element source body written after) :
    RawText element source
      (textTokens body ++ tokensFrom none ('<' :: '/' :: (written ++ after))) := by
  have found := markup?_of_names known encloses.names
  cases ended : Interior.read? after with
  | none =>
      rw [ended] at found
      rw [@tokensFrom_of_next? none _ _ found]
      simpa [Reading.toEnd] using RawText.endless encloses ended
  | some interior =>
      rw [ended] at found
      rw [@tokensFrom_of_next? none _ _ found]
      exact .closed encloses ended

theorem tokensFrom_congr {first second : Option String}
    (same : Reading.next? first source = Reading.next? second source) :
    tokensFrom first source = tokensFrom second source := by
  cases found : Reading.next? second source with
  | none => rw [Reading.next?_eq_none found, tokensFrom_nil, tokensFrom_nil]
  | some reading => rw [tokensFrom_of_next? found, tokensFrom_of_next? (same.trans found)]

/-- Raw text is one text up to the place where it is split. -/
theorem tokensFrom_inside (element : String) (source : List Char) :
    tokensFrom (some element) source =
      textTokens (Text.splitWhere (closesElement element) source).1 ++
        tokensFrom none (Text.splitWhere (closesElement element) source).2 := by
  have next := Reading.next?_inside element source
  dsimp only at next
  by_cases empty : (Text.splitWhere (closesElement element) source).1 = []
  · have parts := Text.splitWhere_append (closesElement element) source
    rw [empty, List.nil_append] at parts
    rw [if_pos empty] at next
    rw [empty, parts]
    exact tokensFrom_congr next
  · rw [if_neg empty] at next
    rw [tokensFrom_of_next? next, textTokens_of_ne_nil empty]
    rfl

theorem rawText_tokensFrom (known : element ∈ rawTextElements) (source : List Char) :
    RawText element source (tokensFrom (some element) source) := by
  rw [tokensFrom_inside]
  by_cases endless : (Text.splitWhere (closesElement element) source).2 = []
  · rw [endless, Text.splitWhere_fst_of_endless endless, tokensFrom_nil, List.append_nil]
    exact .unclosed (not_closes_of_splitWhere endless)
  · obtain ⟨written, after, closing, encloses⟩ := encloses_of_splitWhere endless
    rw [closing]
    exact rawText_of_encloses known encloses

theorem mem_textTokens {token : Token} (member : token ∈ textTokens source) :
    ∃ raw, token = .text raw := by
  unfold textTokens at member
  split at member
  · cases member
  · exact ⟨_, List.mem_singleton.mp member⟩

/-- A token is the end tag of an element. -/
def Token.ends (element : String) : Token → Bool
  | endTag _ name => name == element
  | text _ | comment _ | startTag _ _ _ | selfClosingTag _ _ _ => false

/-- Nothing but text comes before the end tag of an element with raw text. -/
theorem RawText.plain {tokens : List Token} (rawText : RawText element source tokens) :
    ∀ token ∈ tokens.takeWhile (!·.ends element), ∃ raw, token = .text raw := by
  intro token member
  cases rawText with
  | unclosed => exact mem_textTokens ((List.takeWhile_sublist _).mem member)
  | endless =>
      rcases List.mem_append.mp ((List.takeWhile_sublist _).mem member) with inside | closing
      · exact mem_textTokens inside
      · exact ⟨_, List.mem_singleton.mp closing⟩
  | @closed body written after interior encloses ended =>
      have pass : ∀ token ∈ textTokens body, (!token.ends element) = true := by
        intro token inside
        obtain ⟨raw, rfl⟩ := mem_textTokens inside
        rfl
      rw [Text.takeWhile_append_of_ends pass] at member
      · exact mem_textTokens member
      · intro token first
        obtain rfl := Option.some.inj first
        simp [Token.ends]

/-- What is read where a token of a text begins.  It is read as the token before it says. -/
theorem exists_reading_of_split {inside : Option String} {before after : List Token} {token : Token}
    (tokens : tokensFrom inside source = before ++ token :: after) :
    ∃ rest reading,
      Reading.next? (before.getLast?.elim inside Token.inside) rest = some reading ∧
        reading.token = token ∧ tokensFrom reading.inside reading.rest = after ∧
        before.flatMap (·.raw.toList) ++ rest = source := by
  induction before generalizing inside source with
  | nil =>
      obtain ⟨reading, found, same, behind⟩ := exists_reading_of_tokensFrom tokens
      exact ⟨source, reading, found, same, behind, rfl⟩
  | cons first before ih =>
      obtain ⟨reading, found, rfl, others⟩ := exists_reading_of_tokensFrom tokens
      obtain ⟨rest, next, read, same, behind, parts⟩ := ih others
      refine ⟨rest, next, ?_, same, behind, ?_⟩
      · rw [Reading.inside_of_next? found] at read
        cases before with
        | nil => exact read
        | cons second before => rwa [List.getLast?_cons_cons]
      · rw [List.flatMap_cons, List.append_assoc, parts]
        exact Reading.whole_of_next? found

/-- After the start tag of an element with raw text stands its raw text. -/
theorem rawText_of_split {page : String} {before after : List Token} {raw name : String}
    {attributes : List Attribute} (tokens : tokenize page = before ++ .startTag raw name attributes :: after)
    (known : name ∈ rawTextElements)
    (whole : before.flatMap (·.raw.toList) ++ raw.toList ++ source = page.toList) :
    RawText name source after := by
  obtain ⟨rest, reading, found, token, behind, parts⟩ := exists_reading_of_split tokens
  have inside : reading.inside = some name := by
    rw [Reading.inside_of_next? found, token]
    exact if_pos known
  obtain rfl : reading.rest = source := by
    have taken := Reading.whole_of_next? found
    rw [Reading.whole, token] at taken
    rw [← parts, ← taken, List.append_assoc] at whole
    exact (List.append_cancel_left (List.append_cancel_left whole)).symm
  rw [← behind, inside]
  exact rawText_tokensFrom known reading.rest

/-- After the start tag of an element with raw text, all up to the first place at which the closing
tag of the element begins is one text.  Then comes the end tag of that name, or one text with all
the rest when the tag never ends.  Where no closing tag begins, all is one text.  So nothing but
text comes before the end tag of the element. -/
theorem tokenize_rawText {page : String} {before after : List Token} {raw name : String}
    {attributes : List Attribute} {source : List Char}
    (tokens : tokenize page = before ++ .startTag raw name attributes :: after)
    (known : name ∈ rawTextElements)
    (whole : before.flatMap (·.raw.toList) ++ raw.toList ++ source = page.toList) :
    RawText name source after ∧
      ∀ token ∈ after.takeWhile (!·.ends name), ∃ raw, token = .text raw :=
  have rawText := rawText_of_split tokens known whole
  ⟨rawText, rawText.plain⟩

/-- A closing tag in capital letters ends a script, a longer name and a comment in it do not, and
what is written after it is markup again. -/
theorem tokenize_rawText_script :
    tokenize "<p><script>a</scripts><!--</SCRIPT x><b>" =
        [.startTag "<p>" "p" []] ++ .startTag "<script>" "script" [] ::
          [.text "a</scripts><!--", .endTag "</SCRIPT x>" "script", .startTag "<b>" "b" []] ∧
      "script" ∈ rawTextElements ∧
      [Token.startTag "<p>" "p" []].flatMap (·.raw.toList) ++ "<script>".toList ++
          "a</scripts><!--</SCRIPT x><b>".toList =
        "<p><script>a</scripts><!--</SCRIPT x><b>".toList ∧
      RawText "script" "a</scripts><!--</SCRIPT x><b>".toList
        [.text "a</scripts><!--", .endTag "</SCRIPT x>" "script", .startTag "<b>" "b" []] := by
  have tokens : tokenize "<p><script>a</scripts><!--</SCRIPT x><b>" =
      [.startTag "<p>" "p" []] ++ .startTag "<script>" "script" [] ::
        [.text "a</scripts><!--", .endTag "</SCRIPT x>" "script", .startTag "<b>" "b" []] := by
    decide +kernel
  have whole : [Token.startTag "<p>" "p" []].flatMap (·.raw.toList) ++ "<script>".toList ++
      "a</scripts><!--</SCRIPT x><b>".toList =
        "<p><script>a</scripts><!--</SCRIPT x><b>".toList := by
    decide +kernel
  exact ⟨tokens, by decide +kernel, whole, (tokenize_rawText tokens (by decide +kernel) whole).1⟩

/-! ## Texts that are put together -/

/-- The last tag of a page lets every text be read after it as if it stood alone just when it is not
the start tag of an element with raw text. -/
theorem tokenize_append_iff {page name : String} {token : Token}
    (last : (tokenize page).getLast? = some token) (tag : token.name? = some name) :
    (∀ more, tokenize (page ++ more) = tokenize page ++ tokenize more) ↔ token.Completes := by
  constructor
  · intro apart
    cases token with
    | text | comment => cases tag
    | endTag | selfClosingTag => trivial
    | startTag raw element attributes =>
        intro known
        obtain ⟨front, tokens⟩ := List.getLast?_eq_some_iff.mp last
        -- In the raw text of the element this tag is no tag.
        have next : tokenize "<a>" = [.startTag "<a>" "a" []] := by decide +kernel
        have both : tokenize (page ++ "<a>") =
            front ++ .startTag raw element attributes :: [.startTag "<a>" "a" []] := by
          rw [apart, tokens, next, List.append_assoc]
          rfl
        have whole : front.flatMap (·.raw.toList) ++ raw.toList ++ "<a>".toList =
            (page ++ "<a>").toList := by
          have parts := flatMap_raw_tokensFrom none page.toList
          rw [← tokenize, tokens, List.flatMap_append, List.flatMap_singleton] at parts
          rw [String.toList_append, ← parts]
          rfl
        obtain ⟨_, text⟩ := (rawText_of_split both known whole).plain _ List.mem_cons_self
        cases text
  · intro completes more
    exact tokenize_append ⟨token, last, completes⟩

/-- An element that is closed at once may stand before anything, and a script that is left open may
not. -/
theorem tokenize_append_iff_selfClosing :
    (tokenize "x<i a='>'/>").getLast? = some (.selfClosingTag "<i a='>'/>" "i" [⟨"a", ">"⟩]) ∧
      (Token.selfClosingTag "<i a='>'/>" "i" [⟨"a", ">"⟩]).name? = some "i" ∧
      tokenize ("x<i a='>'/>" ++ "/><!--") = tokenize "x<i a='>'/>" ++ tokenize "/><!--" ∧
      (tokenize "<script>").getLast? = some (.startTag "<script>" "script" []) ∧
      ¬ ∀ more, tokenize ("<script>" ++ more) = tokenize "<script>" ++ tokenize more := by
  have last : (tokenize "x<i a='>'/>").getLast? =
      some (.selfClosingTag "<i a='>'/>" "i" [⟨"a", ">"⟩]) := by decide +kernel
  have opened : (tokenize "<script>").getLast? = some (.startTag "<script>" "script" []) := by
    decide +kernel
  refine ⟨last, rfl, (tokenize_append_iff last rfl).mpr trivial _, opened, fun apart => ?_⟩
  exact (tokenize_append_iff opened rfl).mp apart (by decide +kernel)

end Stencil.Markup
