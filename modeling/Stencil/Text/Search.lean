/-!
# Searching and trimming lists of characters

Pages are read as lists of characters.  This module holds the few searches that the readers
share: the least offset at which a test on the remaining text holds, and the removal of a known
beginning or end.
-/

namespace Stencil.Text

section Offset

variable {α : Type}

/-- The least offset, counted from `offset`, at which the remaining text passes `test`. -/
def offsetFrom? (test : List α → Bool) : (offset : Nat) → (source : List α) → Option Nat
  | offset, [] => if test [] then some offset else none
  | offset, a :: rest =>
      if test (a :: rest) then some offset else offsetFrom? test (offset + 1) rest

/-- The least offset at which the remaining text passes `test`. -/
def offset? (test : List α → Bool) (source : List α) : Option Nat :=
  offsetFrom? test 0 source

/-- Split a text where the remaining part first passes `test`, or at its end. -/
def splitWhere (test : List α → Bool) (source : List α) : List α × List α :=
  match offset? test source with
  | some offset => source.splitAt offset
  | none => (source, [])

theorem splitWhere_append (test : List α → Bool) (source : List α) :
    (splitWhere test source).1 ++ (splitWhere test source).2 = source := by
  unfold splitWhere
  split <;> simp [List.splitAt_eq]

/-- Drop white matter, as told by `blank`, from both ends of a text. -/
def trimList (blank : α → Bool) (source : List α) : List α :=
  ((source.dropWhile blank).reverse.dropWhile blank).reverse

end Offset

/-- The text after `start`, when `source` begins with it. -/
def dropPrefix? (source start : String) : Option String :=
  (start.toList.isPrefixOf? source.toList).map String.ofList

/-- The text before `ending`, when `source` ends with it. -/
def dropSuffix? (source ending : String) : Option String :=
  (ending.toList.isSuffixOf? source.toList).map String.ofList

/-- A text without the characters that `blank` accepts at either end. -/
def trim (blank : Char → Bool) (source : String) : String :=
  String.ofList (trimList blank source.toList)

end Stencil.Text
