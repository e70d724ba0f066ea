import Stencil.Placeholder
import Stencil.Proofs.Text.Affixes
import Stencil.Proofs.Text.Splits
import Stencil.Proofs.Text.Utf8

/-!
# Placeholders line by line

A text is filled in line by line, and no placeholder goes from one line to the next.  So the parts
of a text that is cut after a line feed are filled in on their own.
-/

namespace Stencil

namespace Text

/-- Bytes stand at an offset just when the text goes on with them there. -/
theorem standsAt_iff {source : Array UInt8} {offset : Nat} {bytes : List UInt8} :
    standsAt source offset bytes = true ↔ bytes <+: source.toList.drop offset := by
  induction bytes generalizing offset with
  | nil => simp [standsAt]
  | cons byte rest ih =>
      have here : source[offset]? = (source.toList.drop offset).head? := by
        rw [List.head?_drop, Array.getElem?_toList]
      rw [standsAt, Bool.and_eq_true, beq_iff_eq, ih, here, ← List.tail_drop]
      cases source.toList.drop offset with
      | nil => simp
      | cons next after => simp [List.cons_prefix_cons, eq_comm]

end Text

namespace Placeholder

variable {dialect : Dialect} {scope : Bindings}

theorem Markers.spansFrom_eq_nil {markers : Markers} {bytes : Array UInt8} (offset : Nat)
    (absent : ∀ offset, markerAt bytes offset markers.opening = false) :
    markers.spansFrom bytes offset = [] := by
  fun_induction markers.spansFrom bytes offset with
  | case1 => simp_all
  | case2 => simp_all
  | case3 => simp_all
  | case4 => rfl

/-- A line without the opening marker has no placeholders. -/
theorem fillLine_eq_self {line : List Char} (absent : ¬ dialect.opening.toList <:+: line) :
    fillLine (Markers.ofDialect dialect) scope line = line := by
  have nowhere : ∀ offset,
      markerAt (Text.bytesOf line).toArray offset (Markers.ofDialect dialect).opening = false := by
    intro offset
    cases stands : Text.standsAt (Text.bytesOf line).toArray offset
      (Markers.ofDialect dialect).opening with
    | false => rw [markerAt, stands, Bool.false_and]
    | true =>
        have begins := Text.standsAt_iff.mp stands
        have inside := begins.isInfix.trans (List.drop_suffix offset _).isInfix
        exact absurd (Text.isInfix_of_bytesOf inside) absent
  rw [fillLine, Markers.spans, Markers.spansFrom_eq_nil 0 nowhere, fillFrom]

/-- Every line is filled in on its own. -/
theorem substitute_eq_lines (marked : dialect.opening ≠ "") (source : String) :
    substitute dialect scope source =
      String.ofList ((Text.lines source.toList).flatMap
        (fillLine (Markers.ofDialect dialect) scope)) := by
  unfold substitute
  split
  next plain =>
    have absent := Text.offset?_isPrefixOf_eq_none_iff.mp (plain.resolve_left marked)
    have same : ∀ line ∈ Text.lines source.toList,
        fillLine (Markers.ofDialect dialect) scope line = line := by
      intro line member
      apply fillLine_eq_self
      intro stands
      apply absent
      apply stands.trans
      obtain ⟨before, after, parts⟩ := List.append_of_mem member
      have whole := Text.lines_flatten source.toList
      rw [parts, List.flatten_append, List.flatten_cons] at whole
      exact ⟨before.flatten, after.flatten, by rw [List.append_assoc, whole]⟩
    rw [List.flatMap_def, List.map_congr_left same, List.map_id', Text.lines_flatten,
      String.ofList_toList]
  · rfl

/-- A text that is cut after a line feed is filled in part by part. -/
theorem substitute_append {first : String} (ends : first.toList.getLast? = some '\n')
    (second : String) :
    substitute dialect scope (first ++ second) =
      substitute dialect scope first ++ substitute dialect scope second := by
  by_cases marked : dialect.opening = ""
  · simp only [substitute, marked, true_or, if_true]
  · rw [substitute_eq_lines marked, substitute_eq_lines marked, substitute_eq_lines marked,
      String.toList_append, Text.lines_append ends, List.flatMap_append, String.ofList_append]

end Placeholder

end Stencil
