import Stencil.Text.Blank

/-!
# Lexemes of a tag

After its name a tag is read as a sequence of lexemes: the two ways to end it, slashes, equals
signs, gaps, quoted values and words.  A quotation mark without a partner in the rest of the page
is no lexeme, so a tag that holds one never ends.
-/

namespace Stencil.Markup

/-- A part of a tag after its name. -/
inductive Lexeme where
  | close
  | selfClose
  | slash
  | equals
  | gap (text : List Char)
  | quoted (mark : Char) (body : List Char)
  | word (text : List Char)
deriving DecidableEq, Repr

namespace Lexeme

/-- The characters that the lexeme was read from. -/
def text : Lexeme → List Char
  | close => ['>']
  | selfClose => ['/', '>']
  | slash => ['/']
  | equals => ['=']
  | gap text | word text => text
  | quoted mark body => mark :: body ++ [mark]

/-- The two quotation marks. -/
def isQuote (c : Char) : Bool :=
  c == '\x22' || c == '\x27'

/-- The characters of a word: all but gaps, quotation marks and the signs with a meaning. -/
def isWord (c : Char) : Bool :=
  !(Text.isGap c || isQuote c || c == '/' || c == '=' || c == '>')

/-- The quoted value that follows `mark`, when the mark occurs again. -/
def quoted? (mark : Char) (source : List Char) : Option (Lexeme × List Char) :=
  match source.dropWhile (· != mark) with
  | [] => none
  | _ :: rest => some (quoted mark (source.takeWhile (· != mark)), rest)

/-- The first lexeme of a tag's interior and the text after it. -/
def next? : List Char → Option (Lexeme × List Char)
  | [] => none
  | '>' :: rest => some (close, rest)
  | '/' :: '>' :: rest => some (selfClose, rest)
  | '/' :: rest => some (slash, rest)
  | '=' :: rest => some (equals, rest)
  | c :: rest =>
      if isQuote c then quoted? c rest
      else if Text.isGap c then
        some (gap (c :: rest.takeWhile Text.isGap), rest.dropWhile Text.isGap)
      else some (word (c :: rest.takeWhile isWord), rest.dropWhile isWord)

theorem quoted?_eq_some {mark : Char} {source rest : List Char} {lexeme : Lexeme}
    (h : quoted? mark source = some (lexeme, rest)) : lexeme.text ++ rest = mark :: source := by
  unfold quoted? at h
  split at h
  · simp at h
  next found after split =>
    have hfound : found = mark := by
      have := List.head?_dropWhile_not (· != mark) source
      rw [split] at this
      simpa using this
    have whole := List.takeWhile_append_dropWhile (p := (· != mark)) (l := source)
    simp only [Option.some.injEq, Prod.mk.injEq] at h
    obtain ⟨rfl, rfl⟩ := h
    rw [split, hfound] at whole
    simp [text, whole]

/-- A lexeme and the text after it are the text that was read. -/
theorem next?_eq_some {source rest : List Char} {lexeme : Lexeme}
    (h : next? source = some (lexeme, rest)) : lexeme.text ++ rest = source := by
  unfold next? at h
  split at h <;> grind [text, quoted?_eq_some, List.takeWhile_append_dropWhile]

theorem text_ne_nil {source rest : List Char} {lexeme : Lexeme}
    (h : next? source = some (lexeme, rest)) : lexeme.text ≠ [] := by
  unfold next? quoted? at h
  split at h <;> grind [text]

theorem length_lt_of_next? {source rest : List Char} {lexeme : Lexeme}
    (h : next? source = some (lexeme, rest)) : rest.length < source.length := by
  have nonempty := List.length_pos_iff.mpr (text_ne_nil h)
  rw [← next?_eq_some h, List.length_append]
  omega

end Lexeme

end Stencil.Markup
