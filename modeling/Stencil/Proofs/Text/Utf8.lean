import Stencil.Text.Utf8

/-!
# Texts and their bytes

The bytes of a text tell where its characters begin.  So the bytes of one text stand in those of
another only where the characters do.
-/

namespace Stencil.Text

/-- The bytes of two characters at the beginning of a text are told apart. -/
theorem utf8EncodeChar_append_inj {c d : Char} {rest restOther : List UInt8}
    (same : String.utf8EncodeChar c ++ rest = String.utf8EncodeChar d ++ restOther) :
    c = d ∧ rest = restOther := by
  have decode : ∀ (c : Char) (rest : List UInt8),
      ByteArray.utf8DecodeChar? (String.utf8EncodeChar c ++ rest).toByteArray 0 = some c := by
    intro c rest
    rw [List.toByteArray_append]
    exact ByteArray.utf8DecodeChar?_utf8EncodeChar_append
  have first := decode c rest
  rw [same, decode d restOther] at first
  obtain rfl := Option.some.inj first
  exact ⟨rfl, List.append_cancel_left same⟩

/-- A text whose bytes begin with those of another begins with that text. -/
theorem isPrefix_of_bytesOf {first second : List Char}
    (stands : bytesOf first <+: bytesOf second) : first <+: second := by
  induction first generalizing second with
  | nil => exact List.nil_prefix
  | cons c first ih =>
      obtain ⟨after, same⟩ := stands
      cases second with
      | nil => simp [bytesOf] at same
      | cons d second =>
          simp only [bytesOf, List.flatMap_cons, List.append_assoc] at same
          obtain ⟨rfl, rest⟩ := utf8EncodeChar_append_inj same
          exact List.cons_prefix_cons.mpr ⟨rfl, ih ⟨after, rest⟩⟩

/-- The first byte of a character is told apart from all others. -/
theorem eq_nil_of_utf8EncodeChar_append {c d : Char} {byte : UInt8}
    {before inside rest restOther : List UInt8}
    (split : String.utf8EncodeChar d = before ++ byte :: inside)
    (same : String.utf8EncodeChar c ++ rest = byte :: restOther) : before = [] := by
  have start : 0 < (String.utf8EncodeChar c).length := by
    rw [String.length_utf8EncodeChar]
    exact c.utf8Size_pos
  have head : (String.utf8EncodeChar c)[0] = byte := by
    have first := congrArg (·[0]?) same
    rw [List.getElem?_append_left start, List.getElem?_eq_getElem start] at first
    exact Option.some.inj first
  have within : before.length < (String.utf8EncodeChar d).length := by
    rw [split, List.length_append, List.length_cons]
    omega
  have here : (String.utf8EncodeChar d)[before.length] = byte := by simp [split]
  have first : (String.utf8EncodeChar d)[before.length].IsUTF8FirstByte := by
    rw [here, ← head]
    exact UInt8.isUTF8FirstByte_getElem_utf8EncodeChar.mpr rfl
  exact List.length_eq_zero_iff.mp (UInt8.isUTF8FirstByte_getElem_utf8EncodeChar.mp first)

/-- Texts with the same bytes are the same. -/
theorem bytesOf_inj {first second : List Char} (same : bytesOf first = bytesOf second) :
    first = second := by
  have begins : first <+: second := isPrefix_of_bytesOf (same ▸ List.prefix_rfl)
  have also : second <+: first := isPrefix_of_bytesOf (same ▸ List.prefix_rfl)
  exact begins.eq_of_length_le also.length_le

/-- Where the bytes of a text stand in those of another, the text stands in the other text. -/
theorem exists_split_of_bytesOf {inner whole : List Char} (nonempty : inner ≠ [])
    {before after : List UInt8} (same : bytesOf whole = before ++ (bytesOf inner ++ after)) :
    ∃ start rest, whole = start ++ (inner ++ rest) ∧ bytesOf start = before := by
  induction whole generalizing before with
  | nil =>
      have parts := List.append_eq_nil_iff.mp (List.append_eq_nil_iff.mp same.symm).2
      exact absurd (@bytesOf_inj inner [] parts.1) nonempty
  | cons d whole ih =>
      by_cases first : before = []
      · subst first
        obtain ⟨rest, parts⟩ := isPrefix_of_bytesOf ⟨after, same.symm⟩
        exact ⟨[], rest, parts.symm, rfl⟩
      · -- The bytes begin after the first character of the whole text.
        obtain ⟨skipped, rfl⟩ : ∃ skipped, before = String.utf8EncodeChar d ++ skipped := by
          obtain ⟨c, inner, rfl⟩ := List.exists_cons_of_ne_nil nonempty
          simp only [bytesOf, List.flatMap_cons, List.append_assoc] at same
          rcases List.append_eq_append_iff.mp same with ⟨skipped, split, _⟩ | ⟨inside, split, rest⟩
          · exact ⟨skipped, split⟩
          · rcases inside with _ | ⟨byte, inside⟩
            · exact ⟨[], by simpa using split.symm⟩
            · exact absurd (eq_nil_of_utf8EncodeChar_append split rest) first
        rw [List.append_assoc] at same
        have onward := List.append_cancel_left (List.flatMap_cons.symm.trans same)
        obtain ⟨start, rest, rfl, bytes⟩ := ih onward
        exact ⟨d :: start, rest, rfl, by rw [← bytes]; rfl⟩

/-- The bytes of a text stand in those of another only if the text stands there. -/
theorem isInfix_of_bytesOf {first second : List Char}
    (stands : bytesOf first <:+: bytesOf second) : first <:+: second := by
  by_cases empty : first = []
  · subst empty
    exact List.nil_infix
  · obtain ⟨before, after, same⟩ := stands
    rw [List.append_assoc] at same
    obtain ⟨start, rest, rfl, -⟩ := exists_split_of_bytesOf empty same.symm
    exact ⟨start, rest, List.append_assoc _ _ _⟩

/-- A text is read again from its bytes. -/
theorem fromUTF8?_toUTF8 (text : String) : String.fromUTF8? text.toUTF8 = some text :=
  dif_pos text.isValidUTF8

end Stencil.Text
