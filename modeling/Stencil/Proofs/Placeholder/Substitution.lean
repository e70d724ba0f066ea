import Stencil.Proofs.Placeholder.Slices

/-!
# What substitution makes of a text

A text is split after each line feed.  In each line the placeholders are those that a reading of the
line from left to right comes to, and each of them is replaced by the value of its key.  The
placeholders do not depend on the values, so what is inserted is not looked at, and they are the only
ones of the line.
-/

namespace Stencil.Placeholder

open Text

namespace Markers

variable {markers : Markers}

section Reading

variable {line : List UInt8} {spans others : List Span}

/-- A placeholder comes before those that follow it. -/
theorem Reading.increasing (reading : markers.Reading line spans) (ends : markers.closing ≠ []) :
    spans.Pairwise fun first second => first.opening < second.opening := by
  have positive := List.length_pos_iff.mpr ends
  refine reading.apart.imp_of_mem fun {first second} member _ follows => ?_
  have behind := ((reading.mem_iff first).mp member).1.closes.behind
  omega

/-- A line has one reading. -/
theorem Reading.unique (reading : markers.Reading line spans)
    (also : markers.Reading line others) (ends : markers.closing ≠ []) : spans = others := by
  have same : ∀ offset span, span.opening = offset → (span ∈ spans ↔ span ∈ others) := by
    intro offset
    induction offset using Nat.strongRecOn with
    | ind offset ih =>
        rintro span rfl
        rw [reading.mem_iff, also.mem_iff]
        -- a placeholder that covers the offset begins before it
        refine and_congr_right fun _ => ⟨fun clear other member covers => ?_,
          fun clear other member covers => ?_⟩
        · exact clear other ((ih other.opening covers.1 other rfl).mpr member) covers
        · exact clear other ((ih other.opening covers.1 other rfl).mp member) covers
  have first := reading.increasing ends
  have second := also.increasing ends
  have distinct : ∀ {spans : List Span},
      spans.Pairwise (fun first second => first.opening < second.opening) → spans.Nodup := by
    intro spans sorted
    refine sorted.imp fun before => ?_
    rintro rfl
    exact Nat.lt_irrefl _ before
  have permuted := (List.perm_ext_iff_of_nodup (distinct first) (distinct second)).mpr
    fun span => same span.opening span rfl
  exact permuted.eq_of_pairwise (fun _ _ _ _ before behind => absurd before (by omega)) first second

end Reading

end Markers

/-- An output is what a text is when its placeholders are filled in. -/
def Fills (dialect : Dialect) (scope : Bindings) (source output : String) : Prop :=
  ∃ (all : List (List Char)) (spans : List Char → List Span), AreLines source.toList all ∧
    (∀ line ∈ all, (Markers.ofDialect dialect).Reading (bytesOf line) (spans line)) ∧
      bytesOf output.toList = all.flatMap fun line =>
        (Markers.ofDialect dialect).written scope (bytesOf line) 0 (spans line)

variable {dialect : Dialect} {scope : Bindings} {source output : String}

/-- The bytes of a text are the bytes of its parts. -/
theorem bytesOf_flatMap {α : Type} (parts : List α) (text : α → List Char) :
    bytesOf (parts.flatMap text) = parts.flatMap fun part => bytesOf (text part) :=
  List.flatMap_assoc

/-- Substitution gives what a text is when its placeholders are filled in, and nothing else. -/
theorem substitute_eq_iff (valid : dialect.Valid) (fits : source.utf8ByteSize ≤ lastOffset) :
    substitute dialect scope source = output ↔ Fills dialect scope source output := by
  have marked : dialect.opening ≠ "" := (dialect.valid_iff.mp valid).1 .opening
  obtain ⟨opens, ends⟩ := (Markers.textual_ofDialect valid).ne_nil
  have short : ∀ line ∈ lines source.toList, (bytesOf line).length ≤ lastOffset :=
    fun line member => Nat.le_trans (length_bytesOf_line member) fits
  have reading : ∀ line ∈ lines source.toList, (Markers.ofDialect dialect).Reading (bytesOf line)
      ((Markers.ofDialect dialect).spans (bytesOf line).toArray) :=
    fun line member => Markers.reading_spans opens ends (short line member)
  have filled : bytesOf (substitute dialect scope source).toList =
      (lines source.toList).flatMap fun line => (Markers.ofDialect dialect).written scope
        (bytesOf line) 0 ((Markers.ofDialect dialect).spans (bytesOf line).toArray) := by
    rw [substitute_eq_lines marked, String.toList_ofList, bytesOf_flatMap]
    simp only [List.flatMap_def]
    rw [List.map_congr_left fun line member => bytesOf_fillLine valid (short line member) scope]
  constructor
  · rintro rfl
    exact ⟨_, _, areLines_lines _, reading, filled⟩
  · rintro ⟨all, spans, areLines, readings, bytes⟩
    obtain rfl := areLines_iff.mp areLines
    apply String.toList_inj.mp
    apply bytesOf_inj
    rw [filled, bytes]
    simp only [List.flatMap_def]
    rw [List.map_congr_left fun line member => ?_]
    rw [(readings line member).unique (reading line member) ends]

/-- The escape, markers that overlap, a value that looks like a placeholder, and a placeholder that
would go from one line to the next. -/
theorem substitute_eq_iff_overlapping :
    let dialect : Dialect := { opening := "[[", closing := "]]" }
    let scope : Bindings := .ofList [("name", "[[b]]"), ("b", "x")]
    let source := "@[[[name]]\n[[na\nme]]"
    dialect.Valid ∧ source.utf8ByteSize ≤ lastOffset ∧
      Fills dialect scope source "@[[[b]]\n[[na\nme]]" := by
  intro dialect scope source
  have valid : dialect.Valid := by decide +kernel
  have fits : source.utf8ByteSize ≤ lastOffset := by decide +kernel
  exact ⟨valid, fits, (substitute_eq_iff valid fits).mp (by decide +kernel)⟩

end Stencil.Placeholder
