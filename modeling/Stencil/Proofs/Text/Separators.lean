import Stencil.Proofs.Text.LetterCase

/-!
# Texts between separators

Three control characters separate the parts of the texts that serve as keys.  When the parts hold
no separator themselves, the whole text tells them apart.
-/

namespace Stencil.Text

section Lists

variable {α : Type} {separator : α} {first second rest others : List α}

theorem append_separator_inj_left (apart : separator ∉ first) (apartOther : separator ∉ second) :
    first ++ separator :: rest = second ++ separator :: others ↔ first = second ∧ rest = others := by
  induction first generalizing second with
  | nil => cases second <;> grind
  | cons a first ih => cases second <;> grind

theorem append_separator_inj_right (apart : separator ∉ rest) (apartOther : separator ∉ others) :
    first ++ separator :: rest = second ++ separator :: others ↔ first = second ∧ rest = others := by
  rw [← List.reverse_inj]
  simp only [List.reverse_append, List.reverse_cons, List.append_assoc, List.singleton_append]
  rw [append_separator_inj_left (by simpa) (by simpa), List.reverse_inj, List.reverse_inj, and_comm]

end Lists

/-- A character that does not separate the parts of a key. -/
def NotSeparator (c : Char) : Prop :=
  c ≠ '\x1d' ∧ c ≠ '\x1e' ∧ c ≠ '\x1f'

instance (c : Char) : Decidable (NotSeparator c) :=
  inferInstanceAs (Decidable (_ ∧ _))

theorem NotSeparator.toLower {c : Char} (part : NotSeparator c) : NotSeparator c.toLower := by
  have kept : ∀ d : Char, d.toNat < 97 → c ≠ d → c.toLower ≠ d := by
    rintro _ below apart rfl
    exact apart (toLower_eq_self below).symm
  exact ⟨kept _ (by decide) part.1, kept _ (by decide) part.2.1, kept _ (by decide) part.2.2⟩

/-- A text that holds no separator. -/
abbrev Unseparated : String → Prop :=
  MadeOf NotSeparator

instance (text : String) : Decidable (Unseparated text) :=
  List.decidableBAll NotSeparator text.toList

variable {first second rest others : String}

/-- A first part up to a unit separator. -/
theorem append_unit_inj (apart : '\x1f' ∉ first.toList) (apartOther : '\x1f' ∉ second.toList) :
    first ++ "\x1f" ++ rest = second ++ "\x1f" ++ others ↔ first = second ∧ rest = others := by
  simpa [← String.toList_inj] using append_separator_inj_left apart apartOther

/-- A first part up to a record separator. -/
theorem append_record_inj (apart : '\x1e' ∉ first.toList) (apartOther : '\x1e' ∉ second.toList) :
    first ++ "\x1e" ++ rest = second ++ "\x1e" ++ others ↔ first = second ∧ rest = others := by
  simpa [← String.toList_inj] using append_separator_inj_left apart apartOther

/-- A last part after a group separator. -/
theorem append_group_inj (apart : '\x1d' ∉ rest.toList) (apartOther : '\x1d' ∉ others.toList) :
    first ++ "\x1d" ++ rest = second ++ "\x1d" ++ others ↔ first = second ∧ rest = others := by
  simpa [← String.toList_inj] using append_separator_inj_right apart apartOther

end Stencil.Text
