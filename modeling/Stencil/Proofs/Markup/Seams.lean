import Stencil.Proofs.Markup.Lexemes
import Stencil.Proofs.Markup.Openings

/-!
# Seams

What follows a tag does not change how the page before it is read.  So a page that ends with a tag
may be followed by any text, and the tokens of the two come one after the other.  Only the start tag
of an element with raw text has a say in how the text after it is read.
-/

namespace Stencil.Markup

namespace Lexeme

variable {source rest more : List Char} {lexeme : Lexeme}

/-- A lexeme that something follows, or that ends a tag, is read alike whatever follows. -/
theorem next?_append (found : next? source = some (lexeme, rest))
    (ends : rest ≠ [] ∨ lexeme = .close ∨ lexeme = .selfClose) :
    next? (source ++ more) = some (lexeme, rest ++ more) := by
  obtain ⟨rfl, formed, stops⟩ := next?_eq_some_iff.mp found
  refine next?_eq_some_iff.mpr ⟨(List.append_assoc ..).symm, formed, fun c first => ?_⟩
  rcases ends with filled | rfl | rfl
  · obtain ⟨next, others, rfl⟩ := List.exists_cons_of_ne_nil filled
    exact stops c first
  · rfl
  · rfl

end Lexeme

/-- Only the two signs that end tags end a tag. -/
theorem Progress.advance_eq_stop {progress : Progress} {attributes final : List Attribute}
    {lexeme : Lexeme} {selfClosing : Bool}
    (stopped : progress.advance attributes lexeme = .stop selfClosing final) :
    lexeme = .close ∨ lexeme = .selfClose := by
  cases progress <;> cases lexeme <;> simp [advance] at stopped ⊢

namespace Interior

theorem readFrom?_nil (progress : Progress) (attributes : List Attribute) (taken : List Char) :
    readFrom? progress attributes taken [] = none := by
  rw [readFrom?]
  rfl

theorem readFrom?_of_next? {progress : Progress} {attributes : List Attribute}
    {taken source rest : List Char} {lexeme : Lexeme}
    (found : Lexeme.next? source = some (lexeme, rest)) :
    readFrom? progress attributes taken source =
      match progress.advance attributes lexeme with
      | .stop selfClosing attributes =>
          some ⟨(lexeme.text.reverseAux taken).reverse, selfClosing, attributes, rest⟩
      | .goOn progress attributes =>
          readFrom? progress attributes (lexeme.text.reverseAux taken) rest := by
  rw [readFrom?]
  split
  next none =>
    rw [found] at none
    cases none
  next read =>
    obtain ⟨rfl, rfl⟩ := Prod.mk.inj (Option.some.inj (found.symm.trans read))
    rfl

/-- The interior of a tag is read alike whatever follows. -/
theorem readFrom?_append_of_eq_some {progress : Progress} {attributes : List Attribute}
    {taken source : List Char} {interior : Interior}
    (found : readFrom? progress attributes taken source = some interior) (more : List Char) :
    readFrom? progress attributes taken (source ++ more) =
      some { interior with rest := interior.rest ++ more } := by
  fun_induction readFrom? progress attributes taken source with
  | case1 => cases found
  | case2 progress attributes taken source lexeme rest read selfClosing final stopped =>
      obtain rfl := Option.some.inj found
      have ends := Progress.advance_eq_stop stopped
      rw [readFrom?_of_next? (Lexeme.next?_append read (.inr ends)), stopped]
  | case3 progress attributes taken source lexeme rest read next middle goesOn ih =>
      have stops : rest ≠ [] := by
        rintro rfl
        rw [readFrom?_nil] at found
        cases found
      rw [readFrom?_of_next? (Lexeme.next?_append read (.inl stops)), goesOn]
      exact ih found

/-- The interior of a tag ends with the sign of a tag's end. -/
theorem getLast?_raw_of_readFrom? {progress : Progress} {attributes : List Attribute}
    {taken source : List Char} {interior : Interior}
    (found : readFrom? progress attributes taken source = some interior) :
    interior.raw.getLast? = some '>' := by
  fun_induction readFrom? progress attributes taken source with
  | case1 => cases found
  | case2 progress attributes taken source lexeme rest read selfClosing final stopped =>
      obtain rfl := Option.some.inj found
      rcases Progress.advance_eq_stop stopped with rfl | rfl <;> simp [Lexeme.text]
  | case3 progress attributes taken source lexeme rest read next middle goesOn ih => exact ih found

theorem read?_append_of_eq_some {source : List Char} {interior : Interior}
    (found : read? source = some interior) (more : List Char) :
    read? (source ++ more) = some { interior with rest := interior.rest ++ more } :=
  readFrom?_append_of_eq_some found more

/-- The interior of a tag is read alike by itself. -/
theorem exists_raw_of_readFrom? {progress : Progress} {attributes : List Attribute}
    {taken source : List Char} {interior : Interior}
    (found : readFrom? progress attributes taken source = some interior) :
    ∃ raw, raw ≠ [] ∧ interior.raw = taken.reverse ++ raw ∧ raw ++ interior.rest = source ∧
      ∀ before, readFrom? progress attributes before raw =
        some ⟨before.reverse ++ raw, interior.selfClosing, interior.attributes, []⟩ := by
  fun_induction readFrom? progress attributes taken source with
  | case1 => cases found
  | case2 progress attributes taken source lexeme rest read selfClosing final stopped =>
      obtain rfl := Option.some.inj found
      obtain ⟨whole, formed, -⟩ := Lexeme.next?_eq_some_iff.mp read
      have alone : Lexeme.next? lexeme.text = some (lexeme, []) :=
        Lexeme.next?_eq_some_iff.mpr ⟨List.append_nil _, formed, fun c first => by cases first⟩
      refine ⟨lexeme.text, Lexeme.text_ne_nil read, by simp, whole, fun before => ?_⟩
      rw [readFrom?_of_next? alone, stopped]
      simp
  | case3 progress attributes taken source lexeme rest read next middle goesOn ih =>
      obtain ⟨raw, filled, all, parts, alone⟩ := ih found
      obtain ⟨whole, formed, ends⟩ := Lexeme.next?_eq_some_iff.mp read
      have first : raw.head? = rest.head? := by
        obtain ⟨c, others, rfl⟩ := List.exists_cons_of_ne_nil filled
        rw [← parts]
        rfl
      have here : Lexeme.next? (lexeme.text ++ raw) = some (lexeme, raw) :=
        Lexeme.next?_eq_some_iff.mpr ⟨rfl, formed, first ▸ ends⟩
      refine ⟨lexeme.text ++ raw, by simp [filled], by simp [all], ?_, fun before => ?_⟩
      · rw [List.append_assoc, parts, whole]
      · rw [readFrom?_of_next? here, goesOn]
        simp [alone]

theorem read?_raw {source : List Char} {interior : Interior}
    (found : read? source = some interior) :
    read? interior.raw = some ⟨interior.raw, interior.selfClosing, interior.attributes, []⟩ := by
  obtain ⟨raw, -, same, -, alone⟩ := exists_raw_of_readFrom? found
  rw [List.reverse_nil, List.nil_append] at same
  rw [same]
  exact alone []

end Interior

/-! ## Readings -/

/-- A tag after which a page is read on as markup, and not as the raw text of an element. -/
def Token.Completes : Token → Prop
  | endTag _ _ | selfClosingTag _ _ _ => True
  | startTag _ name _ => name ∉ rawTextElements
  | text _ | comment _ => False

/-- The element whose raw text begins behind a token. -/
def Token.inside : Token → Option String
  | startTag _ name _ => if name ∈ rawTextElements then some name else none
  | endTag _ _ | selfClosingTag _ _ _ | text _ | comment _ => none

theorem Token.Completes.inside {token : Token} (completes : token.Completes) :
    token.inside = none := by
  cases token with
  | startTag raw name attributes => exact if_neg completes
  | _ => rfl

/-- The names of the elements with raw text are made of small letters. -/
theorem isLower_of_mem_rawTextElements {element : String} (known : element ∈ rawTextElements) :
    element ≠ "" ∧ ∀ c ∈ element.toList, c.isLower = true := by
  have letters : (rawTextElements.all fun element =>
      element != "" && element.toList.all Char.isLower) = true := by decide +kernel
  have both := List.all_eq_true.mp letters element known
  rw [Bool.and_eq_true, bne_iff_ne, List.all_eq_true] at both
  exact both

/-- No sign stands in such a name. -/
theorem Token.not_mem_of_inside {token : Token} {element : String}
    (raw : token.inside = some element) : '>' ∉ element.toList := by
  intro sign
  cases token with
  | startTag _ name _ =>
      rw [inside, Option.ite_none_right_eq_some] at raw
      obtain ⟨known, same⟩ := raw
      obtain rfl := Option.some.inj same
      cases (isLower_of_mem_rawTextElements known).2 '>' sign
  | endTag | selfClosingTag | text | comment => cases raw

namespace Reading

/-- A reading of the same token in a text that goes on. -/
def followedBy (reading : Reading) (more : List Char) : Reading :=
  { reading with rest := reading.rest ++ more }

/-- A reading after which the page goes on, or can go on as markup. -/
def Stops (reading : Reading) : Prop :=
  reading.rest ≠ [] ∨ reading.token.Completes

variable {source more : List Char}

theorem not_stops_toEnd : ¬ (toEnd source).Stops := by
  simp [Stops, toEnd, Token.Completes]

theorem comment_append (stops : (comment source).Stops) :
    comment (source ++ more) = (comment source).followedBy more := by
  let test : List Char → Bool := (['-', '-', '>'].isPrefixOf ·)
  have found : (Text.splitWhere test source).2 ≠ [] := by
    intro missing
    simp [Stops, comment, Token.Completes, missing, test] at stops
  have long : ['-', '-', '>'].length ≤ (Text.splitWhere test source).2.length :=
    (List.isPrefixOf_iff_prefix.mp (Text.test_splitWhere found)).length_le
  have split : Text.splitWhere test (source ++ more) =
      ((Text.splitWhere test source).1, (Text.splitWhere test source).2 ++ more) := by
    apply Text.splitWhere_append_of_stops found
    intro rest _ within
    exact Text.isPrefixOf_append (Nat.le_trans long within.length_le)
  have three : 3 ≤ (Text.splitWhere test source).2.length := long
  simp only [comment, followedBy, test] at split three ⊢
  rw [split, List.take_append_of_le_length three, List.drop_append_of_le_length three]

/-- No letter ends the name of a tag. -/
theorem not_isNameEnd_of_isLower_toLower {c : Char} (lower : c.toLower.isLower = true) :
    isNameEnd c = false := by
  rw [← Bool.not_eq_true]
  intro ends
  simp only [isNameEnd, Text.isGap, Bool.or_eq_true, beq_iff_eq] at ends
  rcases ends with (((((rfl | rfl) | rfl) | rfl) | rfl) | rfl) | rfl <;> cases lower

section Name

variable {written after : List Char} (pass : ∀ c ∈ written, isNameEnd c = false)
  (ends : ∀ c, after.head? = some c → isNameEnd c = true)

include pass ends

/-- The name of a tag is read up to a character that ends names. -/
theorem takeWhile_name : (written ++ after).takeWhile (!isNameEnd ·) = written :=
  Text.takeWhile_append_of_ends (fun c member => congrArg not (pass c member))
    fun c first => congrArg not (ends c first)

theorem dropWhile_name : (written ++ after).dropWhile (!isNameEnd ·) = after :=
  Text.dropWhile_append_of_ends (fun c member => congrArg not (pass c member))
    fun c first => congrArg not (ends c first)

end Name

section Written

variable {interior : Interior}
  (found : Interior.read? (source.dropWhile (!isNameEnd ·)) = some interior)

include found

/-- The name of a tag ends where its interior begins. -/
theorem head?_raw : ∃ c, interior.raw.head? = some c ∧ isNameEnd c = true := by
  obtain ⟨raw, filled, same, whole, -⟩ := Interior.exists_raw_of_readFrom? found
  obtain ⟨c, others, rfl⟩ := List.exists_cons_of_ne_nil filled
  have first : (source.dropWhile (!isNameEnd ·)).head? = some c := by
    rw [← whole]
    rfl
  refine ⟨c, by rw [same]; rfl, ?_⟩
  simpa using Text.not_head?_dropWhile first

/-- The name and the interior of a tag are found again in what they are written in. -/
theorem split_raw :
    (source.takeWhile (!isNameEnd ·) ++ interior.raw).takeWhile (!isNameEnd ·) =
        source.takeWhile (!isNameEnd ·) ∧
      (source.takeWhile (!isNameEnd ·) ++ interior.raw).dropWhile (!isNameEnd ·) =
        interior.raw := by
  have pass : ∀ c ∈ source.takeWhile (!isNameEnd ·), isNameEnd c = false := by
    intro c member
    simpa using List.all_eq_true.mp List.all_takeWhile c member
  have ends : ∀ c, interior.raw.head? = some c → isNameEnd c = true := by
    obtain ⟨c, first, isEnd⟩ := head?_raw found
    intro other same
    rwa [← Option.some.inj (first.symm.trans same)]
  exact ⟨takeWhile_name pass ends, dropWhile_name pass ends⟩

end Written

/-- A tag with an end is read alike whatever follows. -/
theorem tag_append {mark : List Char} {closing : Bool} (stops : (tag mark closing source).Stops) :
    tag mark closing (source ++ more) = (tag mark closing source).followedBy more := by
  unfold tag at stops ⊢
  cases read : Interior.read? (source.dropWhile (!isNameEnd ·)) with
  | none =>
      rw [read] at stops
      exact absurd stops not_stops_toEnd
  | some interior =>
      have named : source.dropWhile (!isNameEnd ·) ≠ [] := by
        intro missing
        rw [missing, Interior.read?, Interior.readFrom?_nil] at read
        cases read
      rw [Text.takeWhile_append_of_stops named, Text.dropWhile_append_of_stops named,
        Interior.read?_append_of_eq_some read]
      dsimp only
      cases closing <;> cases interior.selfClosing <;> rfl

/-- What begins behind a sign is seen alike whatever follows the end of a tag. -/
theorem opensMarkup_append (ends : source.getLast? = some '>') :
    opensMarkup (source ++ more) = opensMarkup source := by
  rcases source with _ | ⟨c, _ | ⟨d, rest⟩⟩
  · cases ends
  · obtain rfl : c = '>' := by simpa using ends
    rfl
  · -- One of the two dashes may be missing, and then the tag ends in its place.
    have dashes : ['-', '-'].isPrefixOf (d :: rest ++ more) = ['-', '-'].isPrefixOf (d :: rest) := by
      cases rest with
      | nil =>
          obtain rfl : d = '>' := by simpa using ends
          rfl
      | cons e rest => exact Text.isPrefixOf_append (by simp)
    unfold opensMarkup
    split
    next whole =>
      obtain ⟨rfl, rfl⟩ := List.cons.inj whole
      exact dashes
    next whole =>
      obtain ⟨rfl, rfl⟩ := List.cons.inj whole
      rfl
    next bang slash whole =>
      obtain ⟨rfl, rfl⟩ := List.cons.inj whole
      split <;> simp_all
    next whole => cases whole

/-- The text of a page that ends with the end of a tag is split into markup alike whatever
follows. -/
theorem markup?_append {reading : Reading} (found : markup? source = some reading)
    (stops : reading.Stops) (ends : source.getLast? = some '>') :
    markup? (source ++ more) = some (reading.followedBy more) := by
  cases begins_of_markup? found with
  | comment body => exact congrArg some (comment_append stops)
  | tag closing letter =>
      rw [List.append_assoc, ← tag_append stops]
      exact markup?_tag closing letter
  | @sign rest plain =>
      have last : rest.getLast? = some '>' := by
        cases rest with
        | nil => simp at ends
        | cons c rest => rwa [List.getLast?_cons_cons] at ends
      exact markup?_sign ((opensMarkup_append last).trans plain)
  | text plain =>
      have goesOn := stops.resolve_right id
      rw [List.cons_append, markup?_text plain, ← List.cons_append,
        Text.takeWhile_append_of_stops goesOn, Text.dropWhile_append_of_stops goesOn]
      rfl

theorem length_of_closesElement {element : String} (closes : closesElement element source = true) :
    ('<' :: '/' :: element.toList).length ≤ source.length := by
  simp only [closesElement, Bool.and_eq_true, beq_iff_eq] at closes
  rw [← closes.1, List.length_map, List.length_take]
  exact Nat.min_le_right _ _

/-- Whether an element is closed at some place is not changed by what follows the end of a tag. -/
theorem closesElement_append {element : String}
    (long : ('<' :: '/' :: element.toList).length ≤ source.length)
    (ends : source.getLast? = some '>') (free : '>' ∉ element.toList) :
    closesElement element (source ++ more) = closesElement element source := by
  unfold closesElement
  dsimp only
  rw [List.take_append_of_le_length long, List.drop_append_of_le_length long]
  cases after : source.drop ('<' :: '/' :: element.toList).length with
  | cons c rest => rfl
  | nil =>
      have whole : source.take ('<' :: '/' :: element.toList).length = source :=
        List.take_of_length_le (List.drop_eq_nil_iff.mp after)
      have sign : '>' ∈ source.map Char.toLower :=
        List.mem_map.mpr ⟨'>', List.mem_of_getLast? ends, rfl⟩
      have other : (source.map Char.toLower == '<' :: '/' :: element.toList) = false := by
        apply beq_eq_false_iff_ne.mpr
        intro same
        rw [same] at sign
        simp [free] at sign
      rw [whole, other, Bool.false_and, Bool.false_and]

theorem next?_inside (element : String) (source : List Char) :
    next? (some element) source =
      let parts := Text.splitWhere (closesElement element) source
      if parts.1 = [] then markup? source
      else some ⟨.text (String.ofList parts.1), parts.2, none⟩ := by
  unfold next?
  dsimp only
  rcases Text.splitWhere (closesElement element) source with ⟨_ | ⟨c, body⟩, rest⟩ <;> rfl

/-- The raw text of an element ends where it did, whatever follows the end of a tag. -/
theorem splitWhere_closesElement_append {element : String}
    (left : (Text.splitWhere (closesElement element) source).2 ≠ [])
    (ends : source.getLast? = some '>') (free : '>' ∉ element.toList) :
    Text.splitWhere (closesElement element) (source ++ more) =
      ((Text.splitWhere (closesElement element) source).1,
        (Text.splitWhere (closesElement element) source).2 ++ more) := by
  apply Text.splitWhere_append_of_stops left
  intro rest inside within
  have long := length_of_closesElement (Text.test_splitWhere left)
  have nonempty : rest ≠ [] := by
    rintro rfl
    exact left (List.suffix_nil.mp within)
  apply closesElement_append (Nat.le_trans long within.length_le) _ free
  obtain ⟨before, rfl⟩ := inside
  rwa [List.getLast?_append, List.getLast?_eq_some_getLast nonempty, Option.some_or,
    ← List.getLast?_eq_some_getLast nonempty] at ends

/-- A page that ends with the end of a tag is read alike whatever follows. -/
theorem next?_append {inside : Option String} {reading : Reading}
    (found : next? inside source = some reading) (stops : reading.Stops)
    (ends : source.getLast? = some '>')
    (free : ∀ element, inside = some element → '>' ∉ element.toList) :
    next? inside (source ++ more) = some (reading.followedBy more) := by
  cases inside with
  | none => exact markup?_append found stops ends
  | some element =>
      rw [next?_inside] at found ⊢
      dsimp only at found ⊢
      have parts := Text.splitWhere_append (closesElement element) source
      by_cases empty : (Text.splitWhere (closesElement element) source).1 = []
      · rw [if_pos empty] at found
        have left : (Text.splitWhere (closesElement element) source).2 ≠ [] := by
          intro missing
          rw [empty, missing] at parts
          simp [← parts] at ends
        rw [splitWhere_closesElement_append left ends (free element rfl), if_pos empty]
        exact markup?_append found stops ends
      · rw [if_neg empty] at found
        obtain rfl := Option.some.inj found
        have left := stops.resolve_right id
        rw [splitWhere_closesElement_append left ends (free element rfl), if_neg empty]
        rfl

theorem getLast?_raw_of_tag {mark : List Char} {closing : Bool} {name : String}
    (named : (tag mark closing source).token.name? = some name) :
    (tag mark closing source).token.raw.toList.getLast? = some '>' := by
  cases read : Interior.read? (source.dropWhile (!isNameEnd ·)) with
  | none =>
      rw [tag_of_unended read] at named
      cases named
  | some interior =>
      have ends : interior.raw.getLast? = some '>' := Interior.getLast?_raw_of_readFrom? read
      rw [(isTag_tag read).raw_eq, String.toList_ofList, List.getLast?_append, ends]
      rfl

theorem inside_of_tag (mark : List Char) (closing : Bool) (source : List Char) :
    (tag mark closing source).inside = (tag mark closing source).token.inside := by
  unfold tag
  cases Interior.read? (source.dropWhile (!isNameEnd ·)) with
  | none => rfl
  | some interior =>
      dsimp only
      cases closing <;> cases interior.selfClosing <;> rfl

/-- What is read is at the beginning of a text that is searched for tags, or it is raw text of an
element that is not closed there. -/
theorem begins_of_next? {inside : Option String} {reading : Reading}
    (found : next? inside source = some reading) :
    Begins source reading ∨
      ∃ element, inside = some element ∧ closesElement element source = false ∧
        ∃ raw rest, reading = ⟨.text raw, rest, none⟩ := by
  cases inside with
  | none => exact .inl (begins_of_markup? found)
  | some element =>
      rw [next?_inside] at found
      dsimp only at found
      split at found
      · exact .inl (begins_of_markup? found)
      next filled =>
        have body : 0 < (Text.splitWhere (closesElement element) source).1.length :=
          List.length_pos_iff.mpr filled
        exact .inr ⟨element, rfl, Text.test_drop_of_lt_splitWhere body, _, _,
          (Option.some.inj found).symm⟩

/-- Every tag ends with the sign of a tag's end. -/
theorem getLast?_raw_of_next? {inside : Option String} {reading : Reading} {name : String}
    (found : next? inside source = some reading) (named : reading.token.name? = some name) :
    reading.token.raw.toList.getLast? = some '>' := by
  rcases begins_of_next? found with begins | ⟨-, -, -, raw, rest, rfl⟩
  · cases begins with
    | tag closing letter => exact getLast?_raw_of_tag named
    | comment | sign | text => cases named
  · cases named

/-- What a page is read as after a token is up to the token. -/
theorem inside_of_next? {inside : Option String} {reading : Reading}
    (found : next? inside source = some reading) : reading.inside = reading.token.inside := by
  rcases begins_of_next? found with begins | ⟨-, -, -, raw, rest, rfl⟩
  · cases begins with
    | tag closing letter => exact inside_of_tag _ closing _
    | comment | sign | text => rfl
  · rfl

/-- Only at its end nothing is left to be read of a page. -/
theorem next?_eq_none {inside : Option String} (nothing : next? inside source = none) :
    source = [] := by
  have markup : markup? source = none → source = [] := by
    intro nothing
    unfold markup? at nothing
    split at nothing
    · rfl
    · cases nothing
    · split at nothing <;> cases nothing
    · split at nothing <;> cases nothing
    · cases nothing
    · cases nothing
  cases inside with
  | none => exact markup nothing
  | some element =>
      rw [next?_inside] at nothing
      dsimp only at nothing
      split at nothing
      · exact markup nothing
      · cases nothing

end Reading

/-- A page is its tokens, written one after the other. -/
theorem flatMap_raw_tokensFrom (inside : Option String) (source : List Char) :
    (tokensFrom inside source).flatMap (·.raw.toList) = source := by
  fun_induction tokensFrom inside source with
  | case1 inside source nothing => rw [Reading.next?_eq_none nothing, List.flatMap_nil]
  | case2 inside source reading found ih =>
      rw [List.flatMap_cons, ih]
      exact Reading.whole_of_next? found

theorem tokensFrom_of_next? {inside : Option String} {source : List Char} {reading : Reading}
    (found : Reading.next? inside source = some reading) :
    tokensFrom inside source = reading.token :: tokensFrom reading.inside reading.rest := by
  rw [tokensFrom]
  split
  next nothing => cases nothing.symm.trans found
  next other read => rw [Option.some.inj (read.symm.trans found)]

@[simp]
theorem tokensFrom_nil (inside : Option String) : tokensFrom inside [] = [] := by
  rw [tokensFrom]
  split
  · rfl
  next reading found => exact absurd (Reading.length_rest_lt found) (Nat.not_lt_zero _)

/-- The first token of a text is what is read at its beginning. -/
theorem exists_reading_of_tokensFrom {inside : Option String} {source : List Char} {token : Token}
    {after : List Token} (tokens : tokensFrom inside source = token :: after) :
    ∃ reading, Reading.next? inside source = some reading ∧ reading.token = token ∧
      tokensFrom reading.inside reading.rest = after := by
  cases found : Reading.next? inside source with
  | none =>
      rw [Reading.next?_eq_none found, tokensFrom_nil] at tokens
      cases tokens
  | some reading =>
      rw [tokensFrom_of_next? found] at tokens
      obtain ⟨same, behind⟩ := List.cons.inj tokens
      exact ⟨reading, rfl, same, behind⟩

/-- The last token of a text completes. -/
def EndsComplete (inside : Option String) (source : List Char) : Prop :=
  ∃ token, (tokensFrom inside source).getLast? = some token ∧ token.Completes

theorem Token.Completes.exists_name {token : Token} (completes : token.Completes) :
    ∃ name, token.name? = some name := by
  cases token with
  | text | comment => cases completes
  | startTag _ name | endTag _ name | selfClosingTag _ name => exact ⟨name, rfl⟩

theorem getLast?_raw_of_mem_tokensFrom {inside : Option String} {source : List Char}
    {token : Token} {name : String} (member : token ∈ tokensFrom inside source)
    (named : token.name? = some name) : token.raw.toList.getLast? = some '>' := by
  fun_induction tokensFrom inside source with
  | case1 => cases member
  | case2 inside source reading found ih =>
      rcases List.mem_cons.mp member with rfl | member
      · exact Reading.getLast?_raw_of_next? found named
      · exact ih member

/-- A text whose last token is a tag ends with the sign of a tag's end. -/
theorem EndsComplete.getLast? {inside : Option String} {source : List Char}
    (ends : EndsComplete inside source) : source.getLast? = some '>' := by
  obtain ⟨token, last, completes⟩ := ends
  obtain ⟨name, named⟩ := completes.exists_name
  have sign := getLast?_raw_of_mem_tokensFrom (List.mem_of_getLast? last) named
  obtain ⟨front, whole⟩ := List.getLast?_eq_some_iff.mp last
  rw [← flatMap_raw_tokensFrom inside source, whole, List.flatMap_append, List.flatMap_singleton,
    List.getLast?_append, sign, Option.some_or]

/-- After a completing tag a page is read on as if it began there. -/
theorem tokensFrom_append {inside : Option String} {source : List Char}
    (ends : EndsComplete inside source)
    (free : ∀ element, inside = some element → '>' ∉ element.toList) (more : List Char) :
    tokensFrom inside (source ++ more) = tokensFrom inside source ++ tokensFrom none more := by
  fun_induction tokensFrom inside source with
  | case1 inside source nothing =>
      obtain ⟨token, last, _⟩ := ends
      rw [tokensFrom, nothing] at last
      cases last
  | case2 inside source reading found ih =>
      have sign := ends.getLast?
      obtain ⟨token, last, completes⟩ := ends
      rw [tokensFrom_of_next? found] at last
      rw [List.cons_append]
      cases others : tokensFrom reading.inside reading.rest with
      | nil =>
          have rest : reading.rest = [] := by
            rw [← flatMap_raw_tokensFrom reading.inside reading.rest, others, List.flatMap_nil]
          rw [others] at last
          obtain rfl := Option.some.inj last
          have outside := (Reading.inside_of_next? found).trans completes.inside
          rw [tokensFrom_of_next? (Reading.next?_append found (.inr completes) sign free)]
          simp [Reading.followedBy, rest, outside]
      | cons next further =>
          have rest : reading.rest ≠ [] := by
            intro rest
            rw [rest, tokensFrom_nil] at others
            cases others
          rw [others, List.getLast?_cons_cons, ← others] at last
          have signless : ∀ element, reading.inside = some element → '>' ∉ element.toList :=
            fun _ raw => Token.not_mem_of_inside ((Reading.inside_of_next? found).symm.trans raw)
          rw [tokensFrom_of_next? (Reading.next?_append found (.inl rest) sign free), ← others,
            ← ih ⟨token, last, completes⟩ signless]
          rfl

/-- The tokens of two texts, of which the first ends with a completing tag, come one after the
other. -/
theorem tokenize_append {page more : String} (ends : EndsComplete none page.toList) :
    tokenize (page ++ more) = tokenize page ++ tokenize more := by
  rw [tokenize, String.toList_append, tokensFrom_append ends nofun]
  rfl

end Stencil.Markup
