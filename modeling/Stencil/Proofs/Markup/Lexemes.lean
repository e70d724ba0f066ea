import Stencil.Markup.Lexeme
import Stencil.Proofs.Text.Splits

/-!
# What is read as a lexeme

Each kind of lexeme has its own characters, and goes on as far as these do.  So a text begins with a
lexeme just when the lexeme is well formed and the text behind it does not make it longer.  All that
the text behind has to say about this is its first character.
-/

namespace Stencil.Markup.Lexeme

/-- The characters of a lexeme are those of its kind. -/
def WellFormed : Lexeme → Prop
  | gap text => text ≠ [] ∧ text.all Text.isGap = true
  | word text => text ≠ [] ∧ text.all isWord = true
  | quoted mark body => isQuote mark = true ∧ mark ∉ body
  | close | selfClose | slash | equals => True

/-- The characters that make a lexeme longer when they come next. -/
def takes : Lexeme → Char → Bool
  | gap _ => Text.isGap
  | word _ => isWord
  | slash => (· == '>')
  | close | selfClose | equals | quoted _ _ => fun _ => false

/-- A lexeme that is read as it was written when `rest` comes next. -/
structure StandsBefore (lexeme : Lexeme) (rest : List Char) : Prop where
  wellFormed : lexeme.WellFormed
  ends : ∀ c, rest.head? = some c → lexeme.takes c = false

variable {source rest : List Char} {lexeme : Lexeme} {mark c : Char}

theorem isWord_of_isGap (gap : Text.isGap c = true) : isWord c = false := by
  rw [isWord, gap]
  rfl

/-- A word begins where a gap ends. -/
theorem isGap_of_isWord (word : isWord c = true) : Text.isGap c = false := by
  cases gap : Text.isGap c with
  | false => rfl
  | true => exact absurd word (Bool.eq_false_iff.mp (isWord_of_isGap gap))

theorem isGap_of_isQuote (quote : isQuote c = true) : Text.isGap c = false := by
  simp only [isQuote, Bool.or_eq_true, beq_iff_eq] at quote
  rcases quote with rfl | rfl <;> decide

/-- A character that is no sign begins a quoted value, a gap or a word. -/
theorem next?_of_plain (plain : c ≠ '>' ∧ c ≠ '/' ∧ c ≠ '=') :
    next? (c :: rest) =
      if isQuote c then quoted? c rest
      else if Text.isGap c then
        some (gap (c :: rest.takeWhile Text.isGap), rest.dropWhile Text.isGap)
      else some (word (c :: rest.takeWhile isWord), rest.dropWhile isWord) := by
  simp [next?, plain]

/-! ## Reading what is written -/

/-- A gap is read up to its end. -/
theorem next?_gap (filled : source ≠ []) (blank : source.all Text.isGap = true)
    (ends : ∀ c, rest.head? = some c → Text.isGap c = false) :
    next? (source ++ rest) = some (gap source, rest) := by
  obtain ⟨c, others, rfl⟩ := List.exists_cons_of_ne_nil filled
  obtain ⟨first, pass⟩ := List.forall_mem_cons.mp (List.all_eq_true.mp blank)
  have plain : (c ≠ '>' ∧ c ≠ '/' ∧ c ≠ '=') ∧ isQuote c = false := by
    simp only [Text.isGap, Bool.or_eq_true, beq_iff_eq] at first
    rcases first with (((rfl | rfl) | rfl) | rfl) | rfl <;> decide
  rw [List.cons_append, next?_of_plain plain.1, plain.2, if_neg Bool.false_ne_true, if_pos first,
    Text.takeWhile_append_of_ends pass ends, Text.dropWhile_append_of_ends pass ends]

/-- A word is read up to its end. -/
theorem next?_word (filled : source ≠ []) (words : source.all isWord = true)
    (ends : ∀ c, rest.head? = some c → isWord c = false) :
    next? (source ++ rest) = some (word source, rest) := by
  obtain ⟨c, others, rfl⟩ := List.exists_cons_of_ne_nil filled
  obtain ⟨first, pass⟩ := List.forall_mem_cons.mp (List.all_eq_true.mp words)
  simp only [isWord, Bool.not_eq_true', Bool.or_eq_false_iff, beq_eq_false_iff_ne] at first
  obtain ⟨⟨⟨⟨blank, quote⟩, slash⟩, equals⟩, close⟩ := first
  rw [List.cons_append, next?_of_plain ⟨close, slash, equals⟩, quote, blank,
    if_neg Bool.false_ne_true, if_neg Bool.false_ne_true,
    Text.takeWhile_append_of_ends pass ends, Text.dropWhile_append_of_ends pass ends]

/-- A quoted value is read up to its second mark. -/
theorem next?_quoted (quote : isQuote mark = true) (free : mark ∉ source) :
    next? (mark :: (source ++ mark :: rest)) = some (quoted mark source, rest) := by
  have plain : mark ≠ '>' ∧ mark ≠ '/' ∧ mark ≠ '=' := by
    simp only [isQuote, Bool.or_eq_true, beq_iff_eq] at quote
    rcases quote with rfl | rfl <;> decide
  have pass : ∀ c ∈ source, (c != mark) = true := by
    intro c member
    rw [bne_iff_ne]
    rintro rfl
    exact free member
  have ends : ∀ c, (mark :: rest).head? = some c → (c != mark) = false := by
    intro c first
    obtain rfl := Option.some.inj first
    exact bne_self_eq_false mark
  rw [next?_of_plain plain, if_pos quote, quoted?, Text.takeWhile_append_of_ends pass ends,
    Text.dropWhile_append_of_ends pass ends]

/-- A slash is read by itself unless it ends the tag with the sign behind it. -/
theorem next?_slash (ends : ∀ c, rest.head? = some c → (c == '>') = false) :
    next? ('/' :: rest) = some (slash, rest) := by
  cases rest with
  | nil => rfl
  | cons c rest =>
      have other : c ≠ '>' := by simpa using ends c rfl
      simp [next?, other]

theorem StandsBefore.next? (stands : lexeme.StandsBefore rest) :
    next? (lexeme.text ++ rest) = some (lexeme, rest) := by
  obtain ⟨formed, ends⟩ := stands
  cases lexeme with
  | close | selfClose | equals => rfl
  | slash => exact next?_slash ends
  | gap text => exact next?_gap formed.1 formed.2 ends
  | word text => exact next?_word formed.1 formed.2 ends
  | quoted mark body =>
      rw [text, List.append_assoc]
      exact next?_quoted formed.1 formed.2

/-! ## What is read -/

theorem standsBefore_of_quoted? (quote : isQuote mark = true)
    (found : quoted? mark source = some (lexeme, rest)) : lexeme.StandsBefore rest := by
  unfold quoted? at found
  split at found
  · cases found
  next ending after left =>
    obtain ⟨rfl, rfl⟩ := Prod.mk.inj (Option.some.inj found)
    refine ⟨⟨quote, fun member => ?_⟩, fun _ _ => rfl⟩
    simpa using List.all_eq_true.mp List.all_takeWhile mark member

theorem standsBefore_of_next? (found : next? source = some (lexeme, rest)) :
    lexeme.StandsBefore rest := by
  unfold next? at found
  split at found
  · cases found
  · obtain ⟨rfl, rfl⟩ := Prod.mk.inj (Option.some.inj found)
    exact ⟨trivial, fun _ _ => rfl⟩
  · obtain ⟨rfl, rfl⟩ := Prod.mk.inj (Option.some.inj found)
    exact ⟨trivial, fun _ _ => rfl⟩
  next after other =>
    obtain ⟨rfl, rfl⟩ := Prod.mk.inj (Option.some.inj found)
    refine ⟨trivial, fun c first => beq_eq_false_iff_ne.mpr ?_⟩
    rintro rfl
    obtain ⟨rest, rfl⟩ := List.head?_eq_some_iff.mp first
    exact other rest rfl
  · obtain ⟨rfl, rfl⟩ := Prod.mk.inj (Option.some.inj found)
    exact ⟨trivial, fun _ _ => rfl⟩
  next c after close selfClose slash equals =>
    split at found
    next quote => exact standsBefore_of_quoted? quote found
    next quote =>
      split at found
      next gap =>
        obtain ⟨rfl, rfl⟩ := Prod.mk.inj (Option.some.inj found)
        refine ⟨⟨by simp, ?_⟩, fun _ => Text.not_head?_dropWhile⟩
        rw [List.all_cons, gap, List.all_takeWhile]
        rfl
      next gap =>
        obtain ⟨rfl, rfl⟩ := Prod.mk.inj (Option.some.inj found)
        have plain : c ≠ '>' ∧ c ≠ '/' ∧ c ≠ '=' := ⟨close, slash, equals⟩
        have word : isWord c = true := by simp [isWord, gap, quote, plain]
        refine ⟨⟨by simp, ?_⟩, fun _ => Text.not_head?_dropWhile⟩
        rw [List.all_cons, word, List.all_takeWhile]
        rfl

/-- A text begins with a lexeme just when the lexeme can stand before what is left of the text. -/
theorem next?_eq_some_iff :
    next? source = some (lexeme, rest) ↔ lexeme.text ++ rest = source ∧ lexeme.StandsBefore rest := by
  constructor
  · exact fun found => ⟨next?_eq_some found, standsBefore_of_next? found⟩
  · rintro ⟨rfl, stands⟩
    exact stands.next?

end Stencil.Markup.Lexeme
