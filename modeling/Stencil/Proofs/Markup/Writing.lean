import Stencil.Proofs.Markup.Attributes
import Stencil.Proofs.Text.Characters

/-!
# Written tags

A tag is written as its name and its attributes, each behind a gap and with its value between
quotation marks that the value does not hold.  Reading gives back what was written, whatever signs
stand in the values and whatever follows the tag.
-/

namespace Stencil.Markup

/-- A way to write an attribute: a gap, the key, an equals sign between two gaps that may be empty,
and the value between two marks. -/
structure WrittenAttribute where
  gap : List Char
  key : List Char
  behindKey : List Char
  beforeValue : List Char
  mark : Char
  value : List Char
  gap_ne_nil : gap ≠ []
  isGap_gap : gap.all Text.isGap = true
  key_ne_nil : key ≠ []
  isWord_key : key.all Lexeme.isWord = true
  small_key : key.all (!·.isUpper) = true
  isGap_behindKey : behindKey.all Text.isGap = true
  isGap_beforeValue : beforeValue.all Text.isGap = true
  isQuote_mark : Lexeme.isQuote mark = true
  mark_not_mem : mark ∉ value

namespace WrittenAttribute

variable (given : WrittenAttribute)

/-- What is written of an attribute behind its key. -/
def charsOfValue : List Char :=
  given.behindKey ++ '=' :: (given.beforeValue ++ given.mark :: (given.value ++ [given.mark]))

/-- The characters of a written attribute. -/
def chars : List Char :=
  given.gap ++ (given.key ++ given.charsOfValue)

/-- The attribute that is written. -/
def toAttribute : Attribute :=
  ⟨String.ofList given.key, String.ofList given.value⟩

end WrittenAttribute

/-- A way to write a tag.  Its name is a small letter and characters that end no name, and its keys
are all different. -/
structure WrittenTag where
  first : Char
  others : List Char
  attributes : List WrittenAttribute
  selfClosing : Bool
  isLower_first : first.isLower = true
  small_others : others.all (!·.isUpper) = true
  isNameEnd_others : others.all (!isNameEnd ·) = true
  distinct : (attributes.map (·.toAttribute.key)).Nodup

namespace WrittenTag

variable (tag : WrittenTag)

/-- The signs that end a tag. -/
def ending (selfClosing : Bool) : List Char :=
  if selfClosing then ['/', '>'] else ['>']

/-- The characters of a written tag behind its name. -/
def inner : List Char :=
  tag.attributes.flatMap (·.chars) ++ ending tag.selfClosing

/-- A written tag as a text. -/
def text : String :=
  String.ofList ('<' :: (tag.first :: tag.others ++ tag.inner))

/-- The name that is written. -/
def name : String :=
  String.ofList (tag.first :: tag.others)

/-- The token that is written. -/
def token : Token :=
  let attributes := tag.attributes.map (·.toAttribute)
  if tag.selfClosing then .selfClosingTag tag.text tag.name attributes
  else .startTag tag.text tag.name attributes

end WrittenTag

/-! ## Attributes -/

namespace Interior

variable {progress : Progress} {attributes : List Attribute} {taken rest : List Char}

/-- Reading goes on behind a lexeme that ends nothing. -/
theorem readFrom?_goOn {source : List Char} {lexeme : Lexeme} {next : Progress}
    {middle : List Attribute} (found : Lexeme.next? source = some (lexeme, rest))
    (goesOn : progress.advance attributes lexeme = .goOn next middle) :
    readFrom? progress attributes taken source =
      readFrom? next middle (lexeme.text.reverse ++ taken) rest := by
  rw [readFrom?_of_next? found, goesOn, List.reverseAux_eq]

/-- A gap, which may be empty, is passed where it ends nothing. -/
theorem readFrom?_gap {gap : List Char}
    (waits : ∀ text, progress.advance attributes (.gap text) = .goOn progress attributes)
    (blank : gap.all Text.isGap = true)
    (ends : ∀ c, rest.head? = some c → Text.isGap c = false) :
    readFrom? progress attributes taken (gap ++ rest) =
      readFrom? progress attributes (gap.reverse ++ taken) rest := by
  by_cases empty : gap = []
  · subst empty
    rfl
  · exact readFrom?_goOn (Lexeme.next?_gap empty blank ends) (waits gap)

variable (given : WrittenAttribute)

/-- A key is read behind a gap. -/
theorem readFrom?_key (ends : ∀ c, rest.head? = some c → Lexeme.isWord c = false) :
    readFrom? .between attributes taken (given.gap ++ (given.key ++ rest)) =
      readFrom? (.afterKey given.toAttribute.key) attributes
        (given.key.reverse ++ (given.gap.reverse ++ taken)) rest := by
  have small : (String.ofList given.key).toLower = String.ofList given.key :=
    Text.toLower_ofList_of_all given.small_key
  have gapEnds : ∀ c, (given.key ++ rest).head? = some c → Text.isGap c = false := by
    intro c first
    obtain ⟨letter, others, whole⟩ := List.exists_cons_of_ne_nil given.key_ne_nil
    have word := List.all_eq_true.mp given.isWord_key letter (whole ▸ List.mem_cons_self)
    rw [whole] at first
    exact Option.some.inj first ▸ Lexeme.isGap_of_isWord word
  rw [readFrom?_gap (fun _ => rfl) given.isGap_gap gapEnds,
    readFrom?_goOn (Lexeme.next?_word given.key_ne_nil given.isWord_key ends) rfl, Progress.keyOf,
    Lexeme.text, small]
  rfl

/-- A value is read behind an equals sign. -/
theorem readFrom?_value (key : String) :
    readFrom? (.afterKey key) attributes taken (given.charsOfValue ++ rest) =
      readFrom? .between (Attribute.put key given.toAttribute.value attributes)
        (given.charsOfValue.reverse ++ taken) rest := by
  have equalsEnds : ∀ tail : List Char, ∀ c,
      ('=' :: tail).head? = some c → Text.isGap c = false := by
    intro tail c first
    exact Option.some.inj first ▸ by decide
  have markEnds : ∀ tail : List Char, ∀ c,
      (given.mark :: tail).head? = some c → Text.isGap c = false := by
    intro tail c first
    exact Option.some.inj first ▸ Lexeme.isGap_of_isQuote given.isQuote_mark
  have equals : ∀ tail : List Char, Lexeme.next? ('=' :: tail) = some (.equals, tail) := fun _ => rfl
  simp only [WrittenAttribute.charsOfValue, List.append_assoc, List.cons_append, List.nil_append]
  rw [readFrom?_gap (fun _ => rfl) given.isGap_behindKey (equalsEnds _),
    readFrom?_goOn (equals _) rfl,
    readFrom?_gap (fun _ => rfl) given.isGap_beforeValue (markEnds _),
    readFrom?_goOn (Lexeme.next?_quoted given.isQuote_mark given.mark_not_mem) rfl]
  simp [Lexeme.text, WrittenAttribute.toAttribute]

/-- A written attribute is read as one. -/
theorem readFrom?_attribute :
    readFrom? .between attributes taken (given.chars ++ rest) =
      readFrom? .between (Attribute.put given.toAttribute.key given.toAttribute.value attributes)
        (given.chars.reverse ++ taken) rest := by
  have ends : ∀ c, (given.charsOfValue ++ rest).head? = some c → Lexeme.isWord c = false := by
    intro c first
    rw [WrittenAttribute.charsOfValue] at first
    cases gap : given.behindKey with
    | nil =>
        rw [gap] at first
        exact Option.some.inj first ▸ by decide
    | cons blank others =>
        rw [gap] at first
        have behind := List.all_eq_true.mp given.isGap_behindKey blank (gap ▸ List.mem_cons_self)
        exact Option.some.inj first ▸ Lexeme.isWord_of_isGap behind
  rw [WrittenAttribute.chars, List.append_assoc, List.append_assoc, readFrom?_key given ends,
    readFrom?_value]
  simp

/-- Written attributes are read one after the other. -/
theorem readFrom?_attributes (all : List WrittenAttribute) :
    readFrom? .between attributes taken (all.flatMap (·.chars) ++ rest) =
      readFrom? .between (Attribute.gather attributes (all.map (·.toAttribute)))
        ((all.flatMap (·.chars)).reverse ++ taken) rest := by
  induction all generalizing attributes taken with
  | nil => rfl
  | cons given others ih =>
      rw [List.flatMap_cons, List.append_assoc, readFrom?_attribute, ih, List.map_cons,
        Attribute.gather_cons, List.reverse_append, List.append_assoc]

/-- Behind complete attributes the signs of a tag's end end it. -/
theorem readFrom?_ending (selfClosing : Bool) :
    readFrom? .between attributes taken (WrittenTag.ending selfClosing ++ rest) =
      some ⟨taken.reverse ++ WrittenTag.ending selfClosing, selfClosing, attributes, rest⟩ := by
  cases selfClosing with
  | false =>
      have close : Lexeme.next? (WrittenTag.ending false ++ rest) = some (.close, rest) := rfl
      rw [readFrom?_of_next? close]
      simp [Progress.advance, Lexeme.text, WrittenTag.ending]
  | true =>
      have selfClose : Lexeme.next? (WrittenTag.ending true ++ rest) = some (.selfClose, rest) := rfl
      rw [readFrom?_of_next? selfClose]
      simp [Progress.advance, Lexeme.text, WrittenTag.ending]

/-- The interior of a written tag is read up to its end. -/
theorem read?_written (tag : WrittenTag) (more : List Char) :
    read? (tag.inner ++ more) =
      some ⟨tag.inner, tag.selfClosing, tag.attributes.map (·.toAttribute), more⟩ := by
  have distinct : ((tag.attributes.map (·.toAttribute)).map Attribute.key).Nodup := by
    rw [List.map_map]
    exact tag.distinct
  rw [read?, WrittenTag.inner, List.append_assoc, readFrom?_attributes,
    @Attribute.gather_of_nodup [] _ distinct, readFrom?_ending]
  simp

end Interior

/-! ## Tags -/

namespace WrittenTag

variable (tag : WrittenTag)

/-- The name of a tag ends where its first gap or its end begins. -/
theorem isNameEnd_head?_inner (more : List Char) :
    ∀ c, (tag.inner ++ more).head? = some c → isNameEnd c = true := by
  intro c first
  rw [inner] at first
  cases all : tag.attributes with
  | nil =>
      rw [all] at first
      cases closing : tag.selfClosing <;> rw [closing] at first <;>
        exact Option.some.inj first ▸ by decide
  | cons given others =>
      rw [all, List.flatMap_cons, WrittenAttribute.chars] at first
      obtain ⟨blank, rest, gap⟩ := List.exists_cons_of_ne_nil given.gap_ne_nil
      rw [gap] at first
      have space := List.all_eq_true.mp given.isGap_gap blank (gap ▸ List.mem_cons_self)
      rw [← Option.some.inj first, isNameEnd, space]
      rfl

theorem isUpper_first : tag.first.isUpper = false :=
  Text.not_isUpper_of_isLower tag.isLower_first

theorem toLower_name : tag.name.toLower = tag.name := by
  apply Text.toLower_ofList_of_all
  rw [List.all_cons, tag.isUpper_first, tag.small_others]
  rfl

/-- No character of a name ends it. -/
theorem isNameEnd_name : ∀ c ∈ tag.first :: tag.others, isNameEnd c = false := by
  refine List.forall_mem_cons.mpr ⟨?_, fun c member => ?_⟩
  · apply Reading.not_isNameEnd_of_isLower_toLower
    rw [Text.toLower_of_not_isUpper tag.isUpper_first]
    exact tag.isLower_first
  · exact (Bool.not_eq_true' _).mp (List.all_eq_true.mp tag.isNameEnd_others c member)

/-- A written tag is read as the token that was written. -/
theorem next?_written (more : List Char) :
    Reading.next? none (tag.text.toList ++ more) = some ⟨tag.token, more, tag.token.inside⟩ := by
  have alpha : tag.first.isAlpha = true := Bool.or_eq_true_iff.mpr (.inr tag.isLower_first)
  have apart : ∀ sign : Char, sign.isAlpha = false → tag.first ≠ sign := by
    rintro _ other rfl
    cases other.symm.trans alpha
  have pass := tag.isNameEnd_name
  have ends := tag.isNameEnd_head?_inner more
  have opening : Reading.next? none (tag.text.toList ++ more) =
      some (.tag ['<'] false (tag.first :: tag.others ++ (tag.inner ++ more))) := by
    rw [text, String.toList_ofList, List.cons_append, List.append_assoc]
    exact (Reading.markup?_opening (apart '/' (by decide)) (.inr (apart '!' (by decide)))).trans
      (if_pos alpha)
  have lower := tag.toLower_name
  rw [name] at lower
  rw [opening, Reading.tag, Reading.takeWhile_name pass ends, Reading.dropWhile_name pass ends,
    Interior.read?_written]
  dsimp only
  rw [lower, token, text, name]
  cases tag.selfClosing <;> rfl

end WrittenTag

/-- A written tag is read back, whatever follows it: its text is the first token, which is a start tag
or a self-closing tag with the name and the attributes that were written. -/
theorem tokenize_written (tag : WrittenTag) (more : String) :
    tokenize (tag.text ++ more) = tag.token :: tokensFrom tag.token.inside more.toList := by
  rw [tokenize, String.toList_append]
  exact tokensFrom_of_next? (tag.next?_written more.toList)

/-- A tag with a value that holds the signs that end tags, the other mark and a line end. -/
def WrittenTag.quoting : WrittenTag where
  first := 't'
  others := [':', 'p']
  attributes := [
    ⟨[' '], ['a'], ['\t'], ['\n'], '\x27', ['/', '>', '\x22', '\n'], nofun, by decide, nofun,
      by decide, by decide, by decide, by decide, by decide, by decide⟩,
    ⟨['\r', '\n'], [':', 'b'], [], [], '\x22', [], nofun, by decide, nofun, by decide, by decide,
      by decide, by decide, by decide, by decide⟩]
  selfClosing := true
  isLower_first := by decide
  small_others := by decide
  isNameEnd_others := by decide
  distinct := by decide

theorem tokenize_written_quoting :
    WrittenTag.quoting.text = "<t:p a\t=\n'/>\x22\n'\r\n:b=\x22\x22/>" ∧
      tokenize (WrittenTag.quoting.text ++ "<i") =
        .selfClosingTag WrittenTag.quoting.text "t:p" [⟨"a", "/>\x22\n"⟩, ⟨":b", ""⟩] ::
          tokensFrom none "<i".toList :=
  ⟨by decide, tokenize_written .quoting "<i"⟩

end Stencil.Markup
