import Stencil.Markup.Interior

/-!
# Reading a page

A page is read one token at a time.  Reading is forgiving: whatever cannot be read as a comment or
a tag is text, and a tag that never ends turns the rest of the page into text.  The body of some
elements, such as `script`, is text up to the tag that closes the element.
-/

namespace Stencil.Markup

/-- The elements whose body is not searched for tags. -/
def rawTextElements : List String :=
  ["script", "style", "textarea", "title", "xmp", "iframe", "noembed", "noframes"]

/-- The characters that end the name of a tag. -/
def isNameEnd (c : Char) : Bool :=
  Text.isGap c || c == '/' || c == '>'

/-- Whether the closing tag of `element`, in any letter case, begins `source`.  Its name ends with
the source or at a character that ends names. -/
def closesElement (element : String) (source : List Char) : Bool :=
  let closing := '<' :: '/' :: element.toList
  (source.take closing.length).map Char.toLower == closing &&
    ((source.drop closing.length).head?.all isNameEnd)

/-- One token, the text after it, and the element whose raw text begins there, if any. -/
structure Reading where
  token : Token
  rest : List Char
  inside : Option String
deriving DecidableEq, Repr

namespace Reading

/-- Everything up to the end of the page is text. -/
def toEnd (source : List Char) : Reading :=
  ⟨.text (String.ofList source), [], none⟩

/-- A comment ends after the next `-->`, or with the page. -/
def comment (body : List Char) : Reading :=
  let (before, ending) := Text.splitWhere (['-', '-', '>'].isPrefixOf ·) body
  let raw := '<' :: '!' :: '-' :: '-' :: before ++ ending.take 3
  ⟨.comment (String.ofList raw), ending.drop 3, none⟩

/-- The tag whose name follows `mark`, which is `<` or `</`. -/
def tag (mark : List Char) (closing : Bool) (source : List Char) : Reading :=
  let written := source.takeWhile (!isNameEnd ·)
  match Interior.read? (source.dropWhile (!isNameEnd ·)) with
  | none => toEnd (mark ++ source)
  | some interior =>
      let raw := String.ofList (mark ++ written ++ interior.raw)
      let name := (String.ofList written).toLower
      if closing then ⟨.endTag raw name, interior.rest, none⟩
      else if interior.selfClosing then
        ⟨.selfClosingTag raw name interior.attributes, interior.rest, none⟩
      else
        ⟨.startTag raw name interior.attributes, interior.rest,
          if name ∈ rawTextElements then some name else none⟩

/-- The token at the beginning of a text that is searched for tags. -/
def markup? : List Char → Option Reading
  | [] => none
  | '<' :: '!' :: '-' :: '-' :: body => some (comment body)
  | '<' :: '/' :: c :: rest =>
      if c.isAlpha then some (tag ['<', '/'] true (c :: rest))
      else some ⟨.text "<", '/' :: c :: rest, none⟩
  | '<' :: c :: rest =>
      if c.isAlpha then some (tag ['<'] false (c :: rest))
      else some ⟨.text "<", c :: rest, none⟩
  | ['<'] => some ⟨.text "<", [], none⟩
  | source =>
      some ⟨.text (String.ofList (source.takeWhile (· != '<'))), source.dropWhile (· != '<'), none⟩

/-- The next token of a page.  Inside an element with raw text the token is the element's body,
unless the closing tag follows at once. -/
def next? (inside : Option String) (source : List Char) : Option Reading :=
  match inside with
  | none => markup? source
  | some element =>
      match Text.splitWhere (closesElement element) source with
      | ([], _) => markup? source
      | (body, rest) => some ⟨.text (String.ofList body), rest, none⟩

/-- What a reading stands for: the characters of its token and those still to be read. -/
def whole (reading : Reading) : List Char :=
  reading.token.raw.toList ++ reading.rest

@[simp]
theorem whole_toEnd (source : List Char) : (toEnd source).whole = source := by
  simp [toEnd, whole, Token.raw]

theorem whole_comment (body : List Char) :
    (comment body).whole = '<' :: '!' :: '-' :: '-' :: body := by
  have parts := Text.splitWhere_append (['-', '-', '>'].isPrefixOf ·) body
  simp only [comment, whole, Token.raw, String.toList_ofList, List.cons_append,
    List.append_assoc, List.take_append_drop]
  rw [parts]

theorem whole_tag (mark : List Char) (closing : Bool) (source : List Char) :
    (tag mark closing source).whole = mark ++ source := by
  unfold tag
  split
  · simp
  next interior found =>
    have parts := Interior.read?_append found
    have name := List.takeWhile_append_dropWhile (p := (!isNameEnd ·)) (l := source)
    have joined : mark ++ source.takeWhile (!isNameEnd ·) ++ interior.raw ++ interior.rest =
        mark ++ source := by
      rw [List.append_assoc, List.append_assoc, parts, name]
    split
    · simpa [whole, Token.raw] using joined
    · split <;> simpa [whole, Token.raw] using joined

theorem whole_of_markup? {source : List Char} {reading : Reading}
    (h : markup? source = some reading) : reading.whole = source := by
  unfold markup? at h
  split at h
  · simp at h
  · obtain rfl := Option.some.inj h
    exact whole_comment _
  · split at h <;> obtain rfl := Option.some.inj h
    · simp [whole_tag]
    · simp [whole, Token.raw]
  · split at h <;> obtain rfl := Option.some.inj h
    · simp [whole_tag]
    · simp [whole, Token.raw]
  · obtain rfl := Option.some.inj h
    simp [whole, Token.raw]
  · obtain rfl := Option.some.inj h
    simp [whole, Token.raw]

/-- Reading loses no character. -/
theorem whole_of_next? {inside : Option String} {source : List Char} {reading : Reading}
    (h : next? inside source = some reading) : reading.whole = source := by
  unfold next? at h
  split at h
  · exact whole_of_markup? h
  next element =>
    have parts := Text.splitWhere_append (closesElement element) source
    split at h
    · exact whole_of_markup? h
    next body rest _ split =>
      obtain rfl := Option.some.inj h
      simpa [whole, Token.raw, split] using parts

theorem raw_tag_ne_empty {mark : List Char} (closing : Bool) (source : List Char)
    (h : mark ≠ []) : (tag mark closing source).token.raw ≠ "" := by
  unfold tag
  repeat' split
  all_goals simp [toEnd, Token.raw, String.ofList_eq_empty_iff, h]

theorem raw_ne_empty_of_markup? {source : List Char} {reading : Reading}
    (h : markup? source = some reading) : reading.token.raw ≠ "" := by
  unfold markup? at h
  split at h
  · simp at h
  · obtain rfl := Option.some.inj h
    simp [comment, Token.raw, String.ofList_eq_empty_iff]
  · split at h <;> obtain rfl := Option.some.inj h
    · exact raw_tag_ne_empty _ _ (by simp)
    · simp [Token.raw]
  · split at h <;> obtain rfl := Option.some.inj h
    · exact raw_tag_ne_empty _ _ (by simp)
    · simp [Token.raw]
  · obtain rfl := Option.some.inj h
    simp [Token.raw]
  · obtain rfl := Option.some.inj h
    rcases source with _ | ⟨first, _ | ⟨second, rest⟩⟩ <;>
      simp_all [Token.raw, String.ofList_eq_empty_iff, List.takeWhile_cons]

theorem raw_ne_empty_of_next? {inside : Option String} {source : List Char} {reading : Reading}
    (h : next? inside source = some reading) : reading.token.raw ≠ "" := by
  unfold next? at h
  split at h
  · exact raw_ne_empty_of_markup? h
  · split at h
    · exact raw_ne_empty_of_markup? h
    next body rest nonempty _ =>
      obtain rfl := Option.some.inj h
      simp only [Token.raw, ne_eq, String.ofList_eq_empty_iff]
      exact nonempty

theorem length_rest_lt {inside : Option String} {source : List Char} {reading : Reading}
    (h : next? inside source = some reading) : reading.rest.length < source.length := by
  have nonempty : reading.token.raw.toList ≠ [] := by
    simpa using raw_ne_empty_of_next? h
  have positive := List.length_pos_iff.mpr nonempty
  have whole := congrArg List.length (whole_of_next? h)
  simp only [Reading.whole, List.length_append] at whole
  omega

end Reading

/-- The tokens of a text that begins inside the raw text of an element, or in plain markup. -/
def tokensFrom (inside : Option String) (source : List Char) : List Token :=
  match _h : Reading.next? inside source with
  | none => []
  | some reading => reading.token :: tokensFrom reading.inside reading.rest
termination_by source.length
decreasing_by exact Reading.length_rest_lt _h

/-- The tokens of a page. -/
def tokenize (page : String) : List Token :=
  tokensFrom none page.toList

end Stencil.Markup
