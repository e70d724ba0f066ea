import Stencil.Proofs.Text.Affixes
import Stencil.Text.Blank
import Stencil.Text.Lines

/-!
# The characters of a text

Most operations on texts take characters away or put them in lower case, and make no new ones.
`MadeOf` says that all characters of a text have a property; each lemma says that one operation
keeps this.
-/

namespace Stencil.Text

/-- Every character of a text has the property `p`. -/
def MadeOf (p : Char → Prop) (text : String) : Prop :=
  ∀ c ∈ text.toList, p c

section Lists

variable {α : Type} {a : α} {source : List α}

theorem mem_of_mem_trimList {blank : α → Bool} (member : a ∈ trimList blank source) :
    a ∈ source := by
  simp only [trimList, List.mem_reverse] at member
  have inner := (List.dropWhile_sublist _).mem member
  exact (List.dropWhile_sublist _).mem (List.mem_reverse.mp inner)

end Lists

section Lines

variable {c : Char} {source line : List Char}

theorem mem_of_mem_cutLine (member : c ∈ (cutLine source).1 ∨ c ∈ (cutLine source).2) :
    c ∈ source := by
  rcases member with member | member
  · exact (List.takeWhile_sublist _).mem member
  · exact (List.dropWhile_sublist _).mem (List.mem_of_mem_drop member)

theorem mem_of_mem_lines (member : line ∈ lines source) (inside : c ∈ line) : c ∈ source := by
  rw [← lines_flatten source]
  exact List.mem_flatten.mpr ⟨line, member, inside⟩

theorem mem_of_mem_dropCarriage (member : c ∈ dropCarriage line) : c ∈ line := by
  unfold dropCarriage at member
  split at member
  · exact List.dropLast_subset line member
  · exact member

end Lines

variable {p : Char → Prop} {text first second : String}

@[simp]
theorem madeOf_ofList {chars : List Char} : MadeOf p (String.ofList chars) ↔ ∀ c ∈ chars, p c := by
  simp [MadeOf]

@[simp]
theorem madeOf_empty : MadeOf p "" := by
  simp [MadeOf]

@[simp]
theorem madeOf_append : MadeOf p (first ++ second) ↔ MadeOf p first ∧ MadeOf p second := by
  simp [MadeOf, or_imp, forall_and]

theorem toList_toLower (text : String) : text.toLower.toList = text.toList.map Char.toLower := by
  have mapped : text.toLower = text.map Char.toLower := by rfl
  rw [mapped, String.toList_map]

theorem MadeOf.toLower (lower : ∀ c, p c → p c.toLower) (made : MadeOf p text) :
    MadeOf p text.toLower := by
  intro c member
  rw [toList_toLower] at member
  rcases List.mem_map.mp member with ⟨upper, inside, rfl⟩
  exact lower upper (made upper inside)

/-- Only capital letters change in lower case. -/
theorem toLower_of_not_isUpper {c : Char} (small : c.isUpper = false) : c.toLower = c :=
  dif_neg (of_decide_eq_false small)

theorem not_isUpper_of_isLower {c : Char} (small : c.isLower = true) : c.isUpper = false := by
  have above : 'a'.val ≤ c.val := of_decide_eq_true (Bool.and_eq_true_iff.mp small).1
  have between : ¬ 'a'.val ≤ 'Z'.val := by decide
  exact decide_eq_false fun upper => between (UInt32.le_trans above upper.2)

/-- A text without capital letters stays as it is in lower case. -/
theorem toLower_ofList_of_all {chars : List Char} (small : chars.all (!·.isUpper) = true) :
    (String.ofList chars).toLower = String.ofList chars := by
  have kept : ∀ c ∈ chars, c.toLower = id c := fun c member =>
    toLower_of_not_isUpper ((Bool.not_eq_true' _).mp (List.all_eq_true.mp small c member))
  rw [← String.toList_inj, toList_toLower, String.toList_ofList, List.map_congr_left kept, List.map_id]

theorem MadeOf.dropPrefix? {start rest : String} (made : MadeOf p text)
    (found : dropPrefix? text start = some rest) : MadeOf p rest := by
  rw [dropPrefix?_eq_some_iff] at found
  rw [found, madeOf_append] at made
  exact made.2

theorem MadeOf.trim {blank : Char → Bool} (made : MadeOf p text) : MadeOf p (trim blank text) := by
  simp only [Text.trim, madeOf_ofList]
  exact fun c member => made c (mem_of_mem_trimList member)

end Stencil.Text
