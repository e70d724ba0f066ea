import Stencil.Proofs.Text.Utf8

/-!
# Boundaries of characters

Offsets in a text are counted in bytes, and a text can be cut at those that do not lie inside of a
character.
-/

namespace Stencil.Text

/-- What is left of a text from an offset in its bytes on. -/
def LeftFrom (text : List Char) (offset : Nat) (rest : List Char) : Prop :=
  ∃ before, text = before ++ rest ∧ (bytesOf before).length = offset

/-- A text can be cut at an offset in its bytes, since no character goes on there. -/
def IsBoundary (text : List Char) (offset : Nat) : Prop :=
  ∃ rest, LeftFrom text offset rest

variable {text rest : List Char} {offset count : Nat}

theorem leftFrom_zero (text : List Char) : LeftFrom text 0 text :=
  ⟨[], rfl, rfl⟩

theorem LeftFrom.isBoundary (left : LeftFrom text offset rest) : IsBoundary text offset :=
  ⟨rest, left⟩

theorem IsBoundary.le_length (boundary : IsBoundary text offset) :
    offset ≤ (bytesOf text).length := by
  obtain ⟨rest, before, rfl, rfl⟩ := boundary
  rw [bytesOf_append, List.length_append]
  exact Nat.le_add_right _ _

theorem LeftFrom.bytesOf_eq (left : LeftFrom text offset rest) :
    bytesOf rest = (bytesOf text).drop offset := by
  obtain ⟨before, rfl, rfl⟩ := left
  rw [bytesOf_append, List.drop_left]

/-- What is left is cut once more at a boundary behind. -/
theorem LeftFrom.split (left : LeftFrom text offset rest)
    (boundary : IsBoundary text (offset + count)) :
    ∃ slice others, rest = slice ++ others ∧ LeftFrom text (offset + count) others ∧
      (bytesOf slice).length = count := by
  obtain ⟨before, rfl, rfl⟩ := left
  obtain ⟨others, longer, same, length⟩ := boundary
  rcases List.append_eq_append_iff.mp same with ⟨slice, rfl, parts⟩ | ⟨excess, rfl, parts⟩
  · rw [bytesOf_append, List.length_append, Nat.add_left_cancel_iff] at length
    exact ⟨slice, others, parts, ⟨before ++ slice, by rw [parts, List.append_assoc],
      by rw [bytesOf_append, List.length_append, length]⟩, length⟩
  · -- nothing lies between the two offsets
    rw [bytesOf_append, List.length_append] at length ⊢
    have none : bytesOf excess = [] := List.eq_nil_of_length_eq_zero (by omega)
    obtain rfl : excess = [] := bytesOf_inj none
    refine ⟨[], rest, rfl, ⟨longer, by simp, ?_⟩, ?_⟩
    · simp only [bytesOf_nil, List.length_nil] at length ⊢
      omega
    · simp only [bytesOf_nil, List.length_nil] at length ⊢
      omega

/-- The number of bytes of a text. -/
theorem length_bytesOf (text : String) : (bytesOf text.toList).length = text.utf8ByteSize := by
  have same : (String.ofList text.toList).toByteArray = (bytesOf text.toList).toByteArray := rfl
  rw [String.ofList_toList] at same
  rw [← String.size_toByteArray, same, List.size_toByteArray]

/-- The text with given bytes, when there is one. -/
def textOf (bytes : List UInt8) : String :=
  (String.fromUTF8? bytes.toByteArray).getD ""

theorem textOf_bytesOf (text : List Char) : textOf (bytesOf text) = String.ofList text := by
  have read := fromUTF8?_toUTF8 (String.ofList text)
  exact congrArg (·.getD "") read

end Stencil.Text
