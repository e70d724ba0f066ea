import Stencil.Text.Lines
import Stencil.Text.Search

/-!
# Splits of texts that go on

A text is searched from its beginning.  A search that stops inside a text stops at the same place
when more text follows, so that the parts before that place stay as they are.
-/

namespace Stencil.Text

variable {α : Type} {p : α → Bool} {test : List α → Bool} {source more : List α}

/-- What follows a text does not matter to a search that stops inside the text. -/
theorem takeWhile_append_of_stops (stops : source.dropWhile p ≠ []) :
    (source ++ more).takeWhile p = source.takeWhile p := by
  have parts := congrArg List.length (List.takeWhile_append_dropWhile (p := p) (l := source))
  have positive := List.length_pos_iff.mpr stops
  rw [List.length_append] at parts
  rw [List.takeWhile_append, if_neg (by omega)]

theorem dropWhile_append_of_stops (stops : source.dropWhile p ≠ []) :
    (source ++ more).dropWhile p = source.dropWhile p ++ more := by
  rw [List.dropWhile_append, if_neg (by simpa using stops)]

/-- A search stops where something else comes. -/
theorem not_head?_dropWhile {a : α} (first : (source.dropWhile p).head? = some a) : p a = false := by
  have stops := List.head?_dropWhile_not p source
  rwa [first] at stops

section Ends

variable (pass : ∀ a ∈ source, p a = true) (ends : ∀ a, more.head? = some a → p a = false)

include pass ends

/-- A search passes what is passed and stops at once where something else follows. -/
theorem takeWhile_append_of_ends : (source ++ more).takeWhile p = source := by
  rw [List.takeWhile_append_of_pos pass]
  cases more with
  | nil => exact List.append_nil source
  | cons a rest => simp [ends a rfl]

theorem dropWhile_append_of_ends : (source ++ more).dropWhile p = more := by
  rw [List.dropWhile_append_of_pos pass]
  cases more with
  | nil => rfl
  | cons a rest => simp [ends a rfl]

end Ends

theorem offsetFrom?_succ (test : List α → Bool) (offset : Nat) (source : List α) :
    offsetFrom? test (offset + 1) source = (offsetFrom? test offset source).map (· + 1) := by
  induction source generalizing offset with
  | nil => cases tested : test [] <;> simp [offsetFrom?, tested]
  | cons a rest ih =>
      cases tested : test (a :: rest) with
      | true => simp [offsetFrom?, tested]
      | false => simpa [offsetFrom?, tested] using ih (offset + 1)

@[simp]
theorem splitWhere_nil (test : List α → Bool) : splitWhere test [] = ([], []) := by
  cases tested : test [] <;> simp [splitWhere, offset?, offsetFrom?, tested]

theorem splitWhere_cons (test : List α → Bool) (a : α) (rest : List α) :
    splitWhere test (a :: rest) =
      if test (a :: rest) then ([], a :: rest)
      else (a :: (splitWhere test rest).1, (splitWhere test rest).2) := by
  cases tested : test (a :: rest) with
  | true => simp [splitWhere, offset?, offsetFrom?, tested]
  | false =>
      simp only [splitWhere, offset?, offsetFrom?, tested, offsetFrom?_succ]
      cases offsetFrom? test 0 rest <;> simp [List.splitAt_eq]

/-- A split stands where the test is passed, or at the end of the text. -/
theorem test_splitWhere (stops : (splitWhere test source).2 ≠ []) :
    test (splitWhere test source).2 = true := by
  induction source with
  | nil => simp at stops
  | cons a rest ih =>
      rw [splitWhere_cons] at stops ⊢
      cases tested : test (a :: rest) with
      | true => simp [tested]
      | false =>
          simp only [tested, Bool.false_eq_true, if_false] at stops ⊢
          exact ih stops

/-- A text that is not split is the part before its end. -/
theorem splitWhere_fst_of_endless (endless : (splitWhere test source).2 = []) :
    (splitWhere test source).1 = source := by
  have parts := splitWhere_append test source
  rwa [endless, List.append_nil] at parts

/-- Before the place of a split the test is not passed. -/
theorem test_drop_of_lt_splitWhere {offset : Nat}
    (before : offset < (splitWhere test source).1.length) : test (source.drop offset) = false := by
  induction source generalizing offset with
  | nil => simp at before
  | cons a rest ih =>
      rw [splitWhere_cons] at before
      cases tested : test (a :: rest) with
      | true => simp [tested] at before
      | false =>
          cases offset with
          | zero => exact tested
          | succ offset =>
              simp only [tested, Bool.false_eq_true, if_false, List.length_cons] at before
              exact ih (Nat.lt_of_succ_lt_succ before)

theorem isPrefixOf_append [BEq α] [LawfulBEq α] {marker : List α}
    (long : marker.length ≤ source.length) :
    marker.isPrefixOf (source ++ more) = marker.isPrefixOf source := by
  rw [Bool.eq_iff_iff, List.isPrefixOf_iff_prefix, List.isPrefixOf_iff_prefix]
  constructor
  · exact fun stands => List.prefix_of_prefix_length_le stands (List.prefix_append source more) long
  · exact fun stands => stands.trans (List.prefix_append source more)

/-- A split inside a text stays where it is when more follows, if the test says the same of all that
it is asked about. -/
theorem splitWhere_append_of_stops (stops : (splitWhere test source).2 ≠ [])
    (stable : ∀ rest, rest <:+ source → (splitWhere test source).2 <:+ rest →
      test (rest ++ more) = test rest) :
    splitWhere test (source ++ more) =
      ((splitWhere test source).1, (splitWhere test source).2 ++ more) := by
  induction source with
  | nil => simp at stops
  | cons a rest ih =>
      have here := stable (a :: rest) (List.suffix_refl _)
      rw [List.cons_append, splitWhere_cons, splitWhere_cons]
      rw [splitWhere_cons] at stops stable here
      cases tested : test (a :: rest) with
      | true =>
          rw [tested] at here
          rw [← List.cons_append, here (by simp)]
          rfl
      | false =>
          rw [tested] at here stops stable
          have inside : (splitWhere test rest).2 <:+ rest :=
            ⟨(splitWhere test rest).1, splitWhere_append test rest⟩
          rw [← List.cons_append, here (inside.trans (List.suffix_cons a rest)), ih stops]
          · rfl
          · intro suffix within
            exact stable suffix (within.trans (List.suffix_cons a rest))

/-! ## Lines -/

/-- The lines of a text that ends with a line feed stay as they are, whatever follows. -/
theorem lines_append {source : List Char} (ends : source.getLast? = some '\n') (more : List Char) :
    lines (source ++ more) = lines source ++ lines more := by
  fun_induction lines source with
  | case1 => simp at ends
  | case2 c rest ih =>
      have feed : (c :: rest).dropWhile (· != '\n') ≠ [] := by
        intro missing
        have parts := List.takeWhile_append_dropWhile (p := (· != '\n')) (l := c :: rest)
        rw [missing, List.append_nil] at parts
        have member : '\n' ∈ (c :: rest).takeWhile (· != '\n') :=
          parts.symm ▸ List.mem_of_getLast? ends
        simpa using List.all_eq_true.mp List.all_takeWhile _ member
      have positive := List.length_pos_iff.mpr feed
      have cut : firstLine (c :: rest ++ more) =
          ((firstLine (c :: rest)).1, (firstLine (c :: rest)).2 ++ more) := by
        simp only [firstLine, takeWhile_append_of_stops feed, dropWhile_append_of_stops feed]
        rw [List.take_append_of_le_length positive, List.drop_append_of_le_length positive]
      rw [List.cons_append, lines, ← List.cons_append, cut, List.cons_append]
      dsimp only
      cases left : (firstLine (c :: rest)).2 with
      | nil => rw [lines, List.nil_append, List.nil_append]
      | cons d others =>
          rw [← left, ih]
          have whole := firstLine_append (c :: rest)
          rw [← whole, List.getLast?_append, left, List.getLast?_cons] at ends
          rw [left, List.getLast?_cons]
          exact ends

/-- A text is split after each line feed. -/
inductive AreLines : List Char → List (List Char) → Prop where
  | none : AreLines [] []
  | last {line : List Char} : line ≠ [] → '\n' ∉ line → AreLines line [line]
  | feed {front more : List Char} {others : List (List Char)} : '\n' ∉ front →
      AreLines more others → AreLines (front ++ '\n' :: more) ((front ++ ['\n']) :: others)

section AreLines

variable {front : List Char} (plain : '\n' ∉ front)

include plain

theorem forall_ne_feed : ∀ c ∈ front, (c != '\n') = true := by
  intro c member
  rw [bne_iff_ne]
  rintro rfl
  exact plain member

theorem firstLine_of_feed (more : List Char) :
    firstLine (front ++ '\n' :: more) = (front ++ ['\n'], more) := by
  have pass := forall_ne_feed plain
  rw [firstLine, List.takeWhile_append_of_pos pass, List.dropWhile_append_of_pos pass]
  simp

theorem firstLine_of_no_feed : firstLine front = (front, []) := by
  have pass := forall_ne_feed plain
  have whole := @List.takeWhile_append_of_pos _ _ front [] pass
  have none := @List.dropWhile_append_of_pos _ _ front [] pass
  simp only [List.append_nil, List.takeWhile_nil, List.dropWhile_nil] at whole none
  rw [firstLine, whole, none, List.take_nil, List.drop_nil, List.append_nil]

/-- A text that begins with a line feed behind other characters has these for its first line. -/
theorem lines_of_feed (more : List Char) :
    lines (front ++ '\n' :: more) = (front ++ ['\n']) :: lines more := by
  have first := firstLine_of_feed plain more
  obtain ⟨c, rest, parts⟩ : ∃ c rest, front ++ '\n' :: more = c :: rest :=
    List.exists_cons_of_ne_nil (by simp)
  rw [parts] at first ⊢
  rw [lines, first]

/-- A text without a line feed is one line. -/
theorem lines_of_no_feed (filled : front ≠ []) : lines front = [front] := by
  have first := firstLine_of_no_feed plain
  obtain ⟨c, rest, rfl⟩ := List.exists_cons_of_ne_nil filled
  rw [lines, first, lines]

end AreLines

/-- A first line is read again from what begins with it.  One without a line feed ends the text. -/
theorem firstLine_fst_append {source more : List Char}
    (ends : (firstLine source).2 = [] → more = []) :
    firstLine ((firstLine source).1 ++ more) = ((firstLine source).1, more) := by
  by_cases feed : '\n' ∈ source
  · obtain ⟨front, rest, rfl, plain⟩ := List.eq_append_cons_of_mem feed
    rw [firstLine_of_feed plain]
    simpa using firstLine_of_feed plain more
  · rw [firstLine_of_no_feed feed] at ends ⊢
    obtain rfl := ends rfl
    rw [List.append_nil]
    exact firstLine_of_no_feed feed

theorem areLines_lines (source : List Char) : AreLines source (lines source) := by
  by_cases empty : source = []
  · subst empty
    rw [lines]
    exact .none
  · by_cases feed : '\n' ∈ source
    · obtain ⟨front, more, parts, plain⟩ := List.eq_append_cons_of_mem feed
      have shorter : more.length < source.length := by
        rw [parts, List.length_append, List.length_cons]
        omega
      rw [parts, lines_of_feed plain]
      exact .feed plain (areLines_lines more)
    · rw [lines_of_no_feed feed empty]
      exact .last empty feed
termination_by source.length

/-- The lines of a text are what the text is split into. -/
theorem areLines_iff {source : List Char} {all : List (List Char)} :
    AreLines source all ↔ all = lines source := by
  constructor
  · intro areLines
    induction areLines with
    | none => rw [lines]
    | last filled plain => rw [lines_of_no_feed plain filled]
    | feed plain _ ih => rw [lines_of_feed plain, ih]
  · rintro rfl
    exact areLines_lines source

end Stencil.Text
