import Stencil.Proofs.Text.Characters
import Stencil.Proofs.Text.Splits

/-!
# Letter case

Two texts may differ in the case of letters and in nothing else.  The signs that a page is read by
are no letters, so that a search for them stops at the same place in both.

Where only some letters are free to be in either case, a spelling says for each character whether it
is one of them.
-/

namespace Stencil.Text

theorem isUpper_iff {c : Char} : c.isUpper = true ↔ 65 ≤ c.toNat ∧ c.toNat ≤ 90 := by
  unfold Char.isUpper
  simp [UInt32.le_iff_toNat_le, ← Char.toNat_val]

theorem isLower_iff {c : Char} : c.isLower = true ↔ 97 ≤ c.toNat ∧ c.toNat ≤ 122 := by
  unfold Char.isLower
  simp [UInt32.le_iff_toNat_le, ← Char.toNat_val]

theorem toNat_toLower {c : Char} (upper : c.isUpper = true) :
    c.toLower.toNat = c.toNat + 32 := by
  have range := isUpper_iff.mp upper
  unfold Char.toLower
  rw [dif_pos (of_decide_eq_true upper), ← Char.toNat_val, ← Char.toNat_val, UInt32.toNat_add]
  exact Nat.mod_eq_of_lt (by simp; omega)

/-- Lower-casing makes letters only. -/
theorem toLower_eq_self {c : Char} (below : c.toLower.toNat < 97) : c.toLower = c := by
  cases upper : c.isUpper with
  | false => exact toLower_of_not_isUpper upper
  | true =>
      have range := isUpper_iff.mp upper
      rw [toNat_toLower upper] at below
      omega

/-- A sign is in no letter case. -/
theorem eq_of_toLower {c sign : Char} (lower : c.toLower = sign) (below : sign.toNat < 97) :
    c = sign := by
  have kept : c.toLower = c := toLower_eq_self (lower ▸ below)
  rw [← kept, lower]

/-- A letter is a character that is a small letter in lower case. -/
theorem isLower_toLower (c : Char) : c.toLower.isLower = c.isAlpha := by
  unfold Char.isAlpha
  cases upper : c.isUpper with
  | false => rw [toLower_of_not_isUpper upper, Bool.false_or]
  | true =>
      have range := isUpper_iff.mp upper
      rw [Bool.true_or, isLower_iff, toNat_toLower upper]
      omega

/-- No capital letter is left in lower case. -/
theorem not_isUpper_toLower (c : Char) : c.toLower.isUpper = false := by
  cases upper : c.isUpper with
  | false => rw [toLower_of_not_isUpper upper, upper]
  | true =>
      have range := isUpper_iff.mp upper
      rw [← Bool.not_eq_true, isUpper_iff, toNat_toLower upper]
      omega

theorem small_toLower (text : String) : MadeOf (·.isUpper = false) text.toLower := by
  intro c member
  rw [toList_toLower] at member
  obtain ⟨letter, -, rfl⟩ := List.mem_map.mp member
  exact not_isUpper_toLower letter

/-! ## Tests -/

/-- A test says the same of both cases of a letter. -/
def Caseless (test : Char → Bool) : Prop :=
  ∀ c d : Char, c.toLower = d.toLower → test c = test d

theorem caseless_sign {sign : Char} (below : sign.toNat < 65) : Caseless (· == sign) := by
  have lower : sign.toLower = sign := by
    apply toLower_of_not_isUpper
    rw [← Bool.not_eq_true, isUpper_iff]
    omega
  have keeps : ∀ c d : Char, c.toLower = d.toLower → c = sign → d = sign := by
    rintro _ d same rfl
    exact eq_of_toLower (same.symm.trans lower) (by omega)
  intro c d same
  rw [Bool.eq_iff_iff, beq_iff_eq, beq_iff_eq]
  exact ⟨keeps c d same, keeps d c same.symm⟩

theorem Caseless.or {test other : Char → Bool} (caseless : Caseless test)
    (caselessOther : Caseless other) : Caseless fun c => test c || other c := by
  intro c d same
  dsimp only
  rw [caseless c d same, caselessOther c d same]

theorem Caseless.not {test : Char → Bool} (caseless : Caseless test) :
    Caseless fun c => !test c :=
  fun c d same => congrArg _ (caseless c d same)

theorem caseless_isGap : Caseless isGap := by
  unfold isGap
  exact ((((caseless_sign (by decide)).or (caseless_sign (by decide))).or
    (caseless_sign (by decide))).or (caseless_sign (by decide))).or (caseless_sign (by decide))

theorem caseless_isAlpha : Caseless Char.isAlpha := by
  intro c d same
  rw [← isLower_toLower, same, isLower_toLower]

/-! ## Texts in another letter case -/

/-- Two texts are the same apart from the case of letters. -/
def Recased (source other : List Char) : Prop :=
  source.map Char.toLower = other.map Char.toLower

instance (source other : List Char) : Decidable (Recased source other) :=
  inferInstanceAs (Decidable (_ = _))

namespace Recased

variable {source other front back : List Char} {c : Char} {test : Char → Bool}

theorem refl (source : List Char) : Recased source source :=
  rfl

theorem length_eq (recased : Recased source other) : other.length = source.length := by
  simpa using congrArg List.length recased.symm

theorem append {more moreOther : List Char} (recased : Recased source other)
    (recasedMore : Recased more moreOther) : Recased (source ++ more) (other ++ moreOther) := by
  rw [Recased, List.map_append, List.map_append, recased, recasedMore]

theorem eq_nil (recased : Recased [] other) : other = [] :=
  List.map_eq_nil_iff.mp recased.symm

theorem ne_nil (recased : Recased source other) (filled : source ≠ []) : other ≠ [] :=
  List.ne_nil_of_length_pos (recased.length_eq ▸ List.length_pos_iff.mpr filled)

theorem exists_cons (recased : Recased (c :: source) other) :
    ∃ d others, other = d :: others ∧ c.toLower = d.toLower ∧ Recased source others := by
  obtain ⟨d, others, rfl, lower, rest⟩ := List.map_eq_cons_iff.mp recased.symm
  exact ⟨d, others, rfl, lower.symm, rest.symm⟩

theorem exists_append (recased : Recased (front ++ back) other) :
    ∃ first second, other = first ++ second ∧ Recased front first ∧ Recased back second := by
  rw [Recased, List.map_append] at recased
  obtain ⟨first, second, rfl, left, right⟩ := List.map_eq_append_iff.mp recased.symm
  exact ⟨first, second, rfl, left.symm, right.symm⟩

/-- A text without letters has no other case. -/
theorem eq_of_signs (recased : Recased source other)
    (signs : source.all (·.toNat < 65) = true) : other = source := by
  induction source generalizing other with
  | nil => exact recased.eq_nil
  | cons sign rest ih =>
      rw [List.all_cons, Bool.and_eq_true, decide_eq_true_eq] at signs
      obtain ⟨below, signs⟩ := signs
      obtain ⟨d, others, rfl, lower, recased⟩ := recased.exists_cons
      have same : d = sign := by simpa using caseless_sign below sign d lower
      rw [same, ih recased signs]

theorem all_eq (caseless : Caseless test) (recased : Recased source other) :
    other.all test = source.all test := by
  induction source generalizing other with
  | nil => rw [recased.eq_nil]
  | cons c rest ih =>
      obtain ⟨d, others, rfl, lower, recased⟩ := recased.exists_cons
      rw [List.all_cons, List.all_cons, ih recased, caseless c d lower]

theorem head?_all_eq (caseless : Caseless test) (recased : Recased source other) :
    other.head?.all test = source.head?.all test := by
  cases source with
  | nil => rw [recased.eq_nil]
  | cons c rest =>
      obtain ⟨d, others, rfl, lower, -⟩ := recased.exists_cons
      exact (caseless c d lower).symm

/-- A text begins with the same sign, or with something else, in either case. -/
theorem head?_of_caseless {result : Bool} (caseless : Caseless test) (recased : Recased source other)
    (first : ∀ c, source.head? = some c → test c = result) :
    ∀ d, other.head? = some d → test d = result := by
  intro e there
  cases source with
  | nil =>
      rw [recased.eq_nil] at there
      cases there
  | cons c rest =>
      obtain ⟨d, others, rfl, lower, -⟩ := recased.exists_cons
      obtain rfl := Option.some.inj there
      rw [← caseless c d lower, first c rfl]

theorem toLower_eq {text other : String} (recased : Recased text.toList other.toList) :
    other.toLower = text.toLower := by
  rw [← String.toList_inj, toList_toLower, toList_toLower, recased]

theorem toLower_ofList (recased : Recased source other) :
    (String.ofList other).toLower = (String.ofList source).toLower :=
  toLower_eq (by rwa [String.toList_ofList, String.toList_ofList])

theorem take (recased : Recased source other) (count : Nat) :
    Recased (source.take count) (other.take count) := by
  rw [Recased, List.map_take, List.map_take, recased]

theorem drop (recased : Recased source other) (count : Nat) :
    Recased (source.drop count) (other.drop count) := by
  rw [Recased, List.map_drop, List.map_drop, recased]

/-- Signs begin both texts or none. -/
theorem isPrefixOf_eq {marker : List Char} (signs : marker.all (·.toNat < 65) = true)
    (recased : Recased source other) : marker.isPrefixOf other = marker.isPrefixOf source := by
  induction marker generalizing source other with
  | nil => rfl
  | cons sign marker ih =>
      rw [List.all_cons, Bool.and_eq_true, decide_eq_true_eq] at signs
      obtain ⟨below, signs⟩ := signs
      cases source with
      | nil => rw [recased.eq_nil]
      | cons c rest =>
          obtain ⟨d, others, rfl, lower, recased⟩ := recased.exists_cons
          have same : (c == sign) = (d == sign) := caseless_sign below c d lower
          rw [List.isPrefixOf, List.isPrefixOf, ih signs recased, BEq.comm, ← same, BEq.comm]

/-- A search for something that is in no letter case stops at the same place. -/
theorem splitWhere {test : List Char → Bool} (recased : Recased source other)
    (caseless : ∀ source other, Recased source other → test other = test source) :
    Recased (splitWhere test source).1 (splitWhere test other).1 ∧
      Recased (splitWhere test source).2 (splitWhere test other).2 := by
  induction source generalizing other with
  | nil =>
      rw [recased.eq_nil]
      exact ⟨refl _, refl _⟩
  | cons c rest ih =>
      have same := caseless _ _ recased
      obtain ⟨d, others, rfl, lower, behind⟩ := recased.exists_cons
      rw [splitWhere_cons, splitWhere_cons, same]
      cases test (c :: rest) with
      | true => exact ⟨refl _, recased⟩
      | false =>
          obtain ⟨before, after⟩ := ih behind
          have first : Recased [c] [d] := congrArg (fun c => [c]) lower
          exact ⟨first.append before, after⟩

/-- A text is split alike when what comes behind the place of the split is in another case. -/
theorem splitWhere_of_recased {test : List Char → Bool} {others : List Char}
    (split : Text.splitWhere test source = (front, back)) (recased : Recased back others)
    (caseless : ∀ source other, Recased source other → test other = test source) :
    Text.splitWhere test (front ++ others) = (front, others) := by
  have whole := splitWhere_append test source
  rw [split] at whole
  have other : Recased source (front ++ others) := whole ▸ (refl front).append recased
  obtain ⟨same, -⟩ := other.splitWhere caseless
  rw [split] at same
  have parts := List.append_inj (splitWhere_append test (front ++ others)) same.length_eq
  exact Prod.ext parts.1 parts.2

end Recased

/-! ## Spellings -/

/-- The characters of a text, each with whether it is free to be in another letter case. -/
abbrev Spelling := List (Char × Bool)

/-- A text with all characters fixed. -/
def fixed (source : List Char) : Spelling :=
  source.map (·, false)

/-- A text with all characters free. -/
def free (source : List Char) : Spelling :=
  source.map (·, true)

/-- The text has the characters of the spelling, and free ones perhaps in another letter case. -/
def Allows : Spelling → List Char → Prop
  | [], [] => True
  | (c, isFree) :: rest, d :: others =>
      (if isFree then c.toLower = d.toLower else c = d) ∧ Allows rest others
  | [], _ :: _ | _ :: _, [] => False

instance decidableAllows : (spelling : Spelling) → (other : List Char) →
    Decidable (Allows spelling other)
  | [], [] => .isTrue trivial
  | (_, _) :: rest, _ :: others =>
      have := decidableAllows rest others
      inferInstanceAs (Decidable (_ ∧ _))
  | [], _ :: _ | _ :: _, [] => .isFalse id

section Spellings

variable {source other : List Char} {spelling : Spelling}

theorem allows_append_iff {more : Spelling} :
    Allows (spelling ++ more) other ↔
      ∃ first second, other = first ++ second ∧ Allows spelling first ∧ Allows more second := by
  induction spelling generalizing other with
  | nil =>
      constructor
      · exact fun allows => ⟨[], other, rfl, trivial, allows⟩
      · rintro ⟨_ | ⟨d, first⟩, second, rfl, nothing, allows⟩
        · exact allows
        · cases nothing
  | cons pair rest ih =>
      cases other with
      | nil =>
          refine iff_of_false id ?_
          rintro ⟨first, second, none, allows, -⟩
          rw [(List.append_eq_nil_iff.mp none.symm).1] at allows
          exact allows
      | cons d others =>
          rw [List.cons_append, Allows, ih]
          constructor
          · rintro ⟨here, first, second, rfl, allows, more⟩
            exact ⟨d :: first, second, rfl, ⟨here, allows⟩, more⟩
          · rintro ⟨_ | ⟨e, first⟩, second, whole, allows, more⟩
            · cases allows
            · obtain ⟨rfl, rfl⟩ := List.cons.inj whole
              exact ⟨allows.1, first, second, rfl, allows.2, more⟩

theorem allows_fixed_iff : Allows (fixed source) other ↔ other = source := by
  induction source generalizing other with
  | nil => cases other <;> simp [fixed, Allows]
  | cons c rest ih =>
      cases other with
      | nil => exact iff_of_false id nofun
      | cons d others =>
          rw [List.cons.injEq, ← ih, eq_comm]
          exact Iff.rfl

theorem allows_free_iff : Allows (free source) other ↔ Recased source other := by
  induction source generalizing other with
  | nil => cases other <;> simp [free, Allows, Recased]
  | cons c rest ih =>
      cases other with
      | nil => exact iff_of_false id nofun
      | cons d others =>
          rw [Recased, List.map_cons, List.map_cons, List.cons.injEq]
          exact and_congr Iff.rfl ih

/-- A spelling is one of its own text. -/
theorem allows_self (spelling : Spelling) : Allows spelling (spelling.map Prod.fst) := by
  induction spelling with
  | nil => trivial
  | cons pair rest ih => exact ⟨by split <;> rfl, ih⟩

theorem Allows.recased (allows : Allows spelling other) :
    Recased (spelling.map Prod.fst) other := by
  induction spelling generalizing other with
  | nil =>
      cases other with
      | nil => rfl
      | cons => cases allows
  | cons pair rest ih =>
      cases other with
      | nil => cases allows
      | cons d others =>
          obtain ⟨here, allows⟩ := allows
          have lower : pair.1.toLower = d.toLower := by
            split at here
            · exact here
            · exact congrArg Char.toLower here
          rw [Recased, List.map_cons, List.map_cons, List.map_cons, lower, ih allows]

@[simp]
theorem map_fst_fixed (source : List Char) : (fixed source).map Prod.fst = source := by
  simp [fixed, Function.comp_def]

@[simp]
theorem map_fst_free (source : List Char) : (free source).map Prod.fst = source := by
  simp [free, Function.comp_def]

end Spellings

end Stencil.Text
