import Stencil.Proofs.Placeholder.Spans
import Stencil.Proofs.Text.Boundaries

/-!
# Slices of a line

A line that is filled in is put together from slices of the line and from values.  The markers are
texts themselves, so that a line can be cut before and behind each place where one of them stands,
and placeholders follow each other, so that no slice ends before it begins.
-/

namespace Stencil

namespace Text

/-- A text can be cut before and behind the bytes of another. -/
theorem isBoundary_of_bytesOf {inner whole : List Char} (nonempty : inner ≠ [])
    {before after : List UInt8} (same : bytesOf whole = before ++ (bytesOf inner ++ after)) :
    IsBoundary whole before.length ∧ IsBoundary whole (before.length + (bytesOf inner).length) := by
  obtain ⟨start, rest, rfl, rfl⟩ := exists_split_of_bytesOf nonempty same
  refine ⟨⟨_, start, rfl, rfl⟩, rest, start ++ inner, (List.append_assoc _ _ _).symm, ?_⟩
  rw [bytesOf_append, List.length_append]

end Text

namespace Placeholder

open Text

theorem charactersFrom_append (count : Nat) (slice rest : List Char) :
    charactersFrom count (bytesOf slice).length (slice ++ rest) = count + slice.length := by
  induction slice generalizing count with
  | nil => simp [charactersFrom]
  | cons c slice ih =>
      have size : (bytesOf (c :: slice)).length = (bytesOf slice).length + c.utf8Size := by
        rw [bytesOf, List.flatMap_cons, List.length_append, String.length_utf8EncodeChar,
          Nat.add_comm]
        rfl
      obtain ⟨bytes, positive⟩ := Nat.exists_eq_add_of_lt c.utf8Size_pos
      have more : (bytesOf (c :: slice)).length = (bytesOf slice).length + bytes + 1 := by omega
      rw [more, List.cons_append, charactersFrom, ← more, size, Nat.add_sub_cancel, ih,
        List.length_cons]
      omega

/-- A text that is cut after the bytes of a slice is cut behind the slice. -/
theorem cutAt_append (slice rest : List Char) :
    cutAt (bytesOf slice).length (slice ++ rest) = (slice, rest) := by
  rw [cutAt, charactersFrom_append, Nat.zero_add, List.splitAt_eq, List.take_left, List.drop_left]

variable {text rest : List Char} {offset count : Nat}

/-- What is left of a text is cut at a boundary into the slice up to there and what is left then. -/
theorem cutAt_leftFrom (left : LeftFrom text offset rest)
    (boundary : IsBoundary text (offset + count)) :
    bytesOf (cutAt count rest).1 = (bytesOf text).extract offset (offset + count) ∧
      LeftFrom text (offset + count) (cutAt count rest).2 := by
  have bytes := left.bytesOf_eq
  obtain ⟨slice, others, rfl, onward, rfl⟩ := left.split boundary
  rw [cutAt_append]
  refine ⟨?_, onward⟩
  rw [List.extract_eq_take_drop, ← bytes, Nat.add_sub_cancel_left, bytesOf_append, List.take_left]

/-- A line can be cut where a marker stands, and behind it. -/
theorem Stands.isBoundary {line : List Char} {marker : List UInt8}
    (textual : ∃ text, text ≠ [] ∧ marker = bytesOf text)
    (stands : Stands (bytesOf line) marker offset) :
    IsBoundary line offset ∧ IsBoundary line (offset + marker.length) := by
  obtain ⟨text, nonempty, rfl⟩ := textual
  obtain ⟨before, after, same, rfl, -⟩ := stands
  exact isBoundary_of_bytesOf nonempty same

namespace Markers

section Definitions

variable (markers : Markers) (line : List Char)

/-- Both markers are the bytes of texts that are not empty. -/
structure Textual : Prop where
  opening : ∃ text, text ≠ [] ∧ markers.opening = bytesOf text
  closing : ∃ text, text ≠ [] ∧ markers.closing = bytesOf text

/-- The slices at a placeholder can be taken, when the line is written up to the offset `emitted`. -/
structure Sliceable (emitted : Nat) (span : Span) : Prop where
  forward : emitted ≤ span.opening
  key : span.opening + markers.opening.length ≤ span.closing
  inside : span.closing + markers.closing.length ≤ (bytesOf line).length
  emitted_boundary : IsBoundary line emitted
  opening_boundary : IsBoundary line span.opening
  key_boundary : IsBoundary line (span.opening + markers.opening.length)
  closing_boundary : IsBoundary line span.closing
  end_boundary : IsBoundary line (span.closing + markers.closing.length)

/-- All slices of a line can be taken, from the offset `emitted` on. -/
def SlicesFrom : (emitted : Nat) → List Span → Prop
  | emitted, [] => emitted ≤ (bytesOf line).length ∧ IsBoundary line emitted
  | emitted, span :: rest => Sliceable markers line emitted span ∧
      SlicesFrom (span.closing + markers.closing.length) rest

/-- The bytes of a line with the values of its placeholders, from the offset `emitted` on. -/
def written (scope : Bindings) (bytes : List UInt8) : (emitted : Nat) → List Span → List UInt8
  | emitted, [] => bytes.drop emitted
  | emitted, span :: rest =>
      let key := bytes.extract (span.opening + markers.opening.length) span.closing
      bytes.extract emitted span.opening ++ bytesOf (scope.value (textOf key)).toList ++
        written scope bytes (span.closing + markers.closing.length) rest

end Definitions

variable {markers : Markers} {line : List Char}

theorem textual_ofDialect {dialect : Dialect} (valid : dialect.Valid) :
    (ofDialect dialect).Textual := by
  have parts := (dialect.valid_iff.mp valid).1
  have text : ∀ part, (dialect.get part).toList ≠ [] := by
    intro part empty
    exact parts part (String.toList_inj.mp empty)
  exact ⟨⟨_, text .opening, rfl⟩, ⟨_, text .closing, rfl⟩⟩

theorem Textual.ne_nil (textual : markers.Textual) :
    markers.opening ≠ [] ∧ markers.closing ≠ [] := by
  obtain ⟨⟨opening, filled, opens⟩, ⟨closing, also, closes⟩⟩ := textual
  rw [opens, closes]
  exact ⟨fun empty => filled (bytesOf_inj empty), fun empty => also (bytesOf_inj empty)⟩

/-- Slices can be taken at placeholders that follow each other. -/
theorem Textual.slicesFrom (textual : markers.Textual) {spans : List Span}
    (apart : spans.Pairwise fun first second =>
      first.closing + markers.closing.length ≤ second.opening)
    (encloses : ∀ span ∈ spans, markers.Encloses (bytesOf line) span) {emitted : Nat}
    (later : ∀ span ∈ spans, emitted ≤ span.opening) (boundary : IsBoundary line emitted) :
    markers.SlicesFrom line emitted spans := by
  induction spans generalizing emitted with
  | nil => exact ⟨boundary.le_length, boundary⟩
  | cons span rest ih =>
      obtain ⟨behind, apart⟩ := List.pairwise_cons.mp apart
      obtain ⟨here, others⟩ := List.forall_mem_cons.mp encloses
      obtain ⟨opening, key⟩ := here.stands.isBoundary textual.opening
      obtain ⟨closing, ending⟩ := here.closes.stands.isBoundary textual.closing
      refine ⟨⟨later span List.mem_cons_self, here.closes.behind,
        here.closes.stands.add_length_le, boundary, opening, key, closing, ending⟩, ?_⟩
      exact ih apart others behind ending

/-- A line is filled in with the slices at its placeholders, and with the values between them. -/
theorem bytesOf_fillFrom (scope : Bindings) {spans : List Span} {emitted : Nat} {rest : List Char}
    (slices : markers.SlicesFrom line emitted spans) (left : LeftFrom line emitted rest) :
    bytesOf (fillFrom markers scope emitted rest spans) =
      markers.written scope (bytesOf line) emitted spans := by
  induction spans generalizing emitted rest with
  | nil => exact left.bytesOf_eq
  | cons span others ih =>
      obtain ⟨here, onward⟩ := slices
      have forward := Nat.add_sub_cancel' here.forward
      have inner := Nat.add_sub_cancel' here.key
      obtain ⟨before, left⟩ := cutAt_leftFrom left (forward.symm ▸ here.opening_boundary)
      rw [forward] at before left
      obtain ⟨-, left⟩ := cutAt_leftFrom left here.key_boundary
      obtain ⟨key, left⟩ := cutAt_leftFrom left (inner.symm ▸ here.closing_boundary)
      rw [inner] at key left
      obtain ⟨-, left⟩ := cutAt_leftFrom left here.end_boundary
      rw [fillFrom, written, bytesOf_append, bytesOf_append, before, ih onward left, ← key,
        textOf_bytesOf]

end Markers

section Lines

variable {dialect : Dialect} {source : String} {line : List Char}

/-- The offsets in the lines of a text are offsets in the text. -/
theorem length_bytesOf_line (member : line ∈ lines source.toList) :
    (bytesOf line).length ≤ source.utf8ByteSize := by
  obtain ⟨before, after, parts⟩ := List.append_of_mem member
  have whole := lines_flatten source.toList
  rw [parts, List.flatten_append, List.flatten_cons] at whole
  rw [← length_bytesOf, ← whole, bytesOf_append, bytesOf_append, List.length_append,
    List.length_append]
  omega

/-- All slices of a line can be taken. -/
theorem slicesFrom_spans (valid : dialect.Valid) (short : (bytesOf line).length ≤ lastOffset) :
    (Markers.ofDialect dialect).SlicesFrom line 0
      ((Markers.ofDialect dialect).spans (bytesOf line).toArray) := by
  have textual := Markers.textual_ofDialect valid
  obtain ⟨opens, ends⟩ := textual.ne_nil
  have reading := Markers.reading_spans opens ends short
  exact textual.slicesFrom reading.apart (fun span among => ((reading.mem_iff span).mp among).1)
    (fun _ _ => Nat.zero_le _) (leftFrom_zero line).isBoundary

theorem bytesOf_fillLine (valid : dialect.Valid) (short : (bytesOf line).length ≤ lastOffset)
    (scope : Bindings) :
    bytesOf (fillLine (Markers.ofDialect dialect) scope line) =
      (Markers.ofDialect dialect).written scope (bytesOf line) 0
        ((Markers.ofDialect dialect).spans (bytesOf line).toArray) :=
  Markers.bytesOf_fillFrom scope (slicesFrom_spans valid short) (leftFrom_zero line)

/-- All slices that are taken of the lines of a text lie in these lines and begin and end between
characters, and the lines are filled in with these slices.  The bound on the distance of a closing
marker is the exact one, since a text has no more bytes than there are offsets. -/
theorem substitute_slices (valid : dialect.Valid) (fits : source.utf8ByteSize ≤ lastOffset)
    (scope : Bindings) (member : line ∈ lines source.toList) :
    let markers := Markers.ofDialect dialect
    let spans := markers.spans (bytesOf line).toArray
    markers.SlicesFrom line 0 spans ∧
      bytesOf (fillLine markers scope line) = markers.written scope (bytesOf line) 0 spans ∧
        ∀ opening closing, markers.closing? (bytesOf line).toArray opening = some closing ↔
          markers.Closes (bytesOf line) opening closing := by
  have short := Nat.le_trans (length_bytesOf_line member) fits
  obtain ⟨opens, ends⟩ := (Markers.textual_ofDialect valid).ne_nil
  exact ⟨slicesFrom_spans valid short, bytesOf_fillLine valid short scope,
    fun _ _ => Markers.closing?_eq_some_iff opens ends short⟩

/-- Characters and markers of several bytes, and a reach that no text exceeds. -/
theorem substitute_slices_wide :
    let dialect : Dialect := { opening := "«", closing := "»", reach := 0xffffffffffffffff }
    let source := "é\n«é»✓@«"
    dialect.Valid ∧ source.utf8ByteSize ≤ lastOffset ∧ "«é»✓@«".toList ∈ lines source.toList ∧
      (Markers.ofDialect dialect).SlicesFrom "«é»✓@«".toList 0 [⟨0, 4⟩] := by
  intro dialect source
  have valid : dialect.Valid := by decide +kernel
  have fits : source.utf8ByteSize ≤ lastOffset := by decide +kernel
  have member : "«é»✓@«".toList ∈ lines source.toList := by decide +kernel
  have spans : (Markers.ofDialect dialect).spans (bytesOf "«é»✓@«".toList).toArray = [⟨0, 4⟩] := by
    decide +kernel
  refine ⟨valid, fits, member, ?_⟩
  rw [← spans]
  exact (substitute_slices valid fits ∅ member).1

end Lines

end Placeholder

end Stencil
