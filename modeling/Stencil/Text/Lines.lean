/-!
# Lines of a text

A line runs up to and including the next line feed, or to the end of the text.
-/

namespace Stencil.Text

/-- The first line of a text without its line feed, and the text after it. -/
def cutLine (source : List Char) : List Char × List Char :=
  (source.takeWhile (· != '\n'), (source.dropWhile (· != '\n')).drop 1)

/-- The first line of a text with its line feed, if it has one, and the text after it. -/
def firstLine (source : List Char) : List Char × List Char :=
  let ending := source.dropWhile (· != '\n')
  (source.takeWhile (· != '\n') ++ ending.take 1, ending.drop 1)

theorem firstLine_append (source : List Char) :
    (firstLine source).1 ++ (firstLine source).2 = source := by
  simp only [firstLine, List.append_assoc, List.take_append_drop,
    List.takeWhile_append_dropWhile]

theorem length_cutLine_le (source : List Char) :
    (cutLine source).2.length ≤ source.length := by
  have := (List.dropWhile_sublist (p := (· != '\n')) (l := source)).length_le
  simp only [cutLine, List.length_drop]
  omega

theorem length_firstLine_lt (c : Char) (rest : List Char) :
    (firstLine (c :: rest)).2.length < (c :: rest).length := by
  by_cases h : c = '\n'
  · simp [firstLine, h]
  · have := (List.dropWhile_sublist (p := (· != '\n')) (l := rest)).length_le
    simp [firstLine, h]
    omega

/-- The lines of a text, each with its line feed. -/
def lines (source : List Char) : List (List Char) :=
  match source with
  | [] => []
  | c :: rest => (firstLine (c :: rest)).1 :: lines (firstLine (c :: rest)).2
termination_by source.length
decreasing_by exact length_firstLine_lt c rest

@[simp]
theorem lines_flatten (source : List Char) : (lines source).flatten = source := by
  fun_induction lines source with
  | case1 => rfl
  | case2 c rest ih => simp [ih, firstLine_append]

/-- A line without the carriage return at its end, if it has one. -/
def dropCarriage (line : List Char) : List Char :=
  if line.getLast? = some '\r' then line.dropLast else line

end Stencil.Text
