import Stencil.Bindings
import Stencil.Dialect
import Stencil.Text.Lines
import Stencil.Text.Search
import Stencil.Text.Utf8

/-!
# Placeholders

A placeholder stands in one line of a text and is replaced by the value of the key between its
markers.  Distances are counted in bytes of the text's UTF-8 form, so the search for markers runs
over the bytes of a line; the text is then cut at the offsets that the search has found.  An `@`
directly before a marker takes its meaning away, and inserted values are not searched again.
-/

namespace Stencil.Placeholder

/-- The byte that takes the meaning of the marker after it away. -/
def escape : UInt8 := 0x40

/-- The greatest offset that fits in 64 bits. -/
def lastOffset : Nat := UInt64.size - 1

/-- The two markers in bytes, and the greatest distance between them. -/
structure Markers where
  opening : List UInt8
  closing : List UInt8
  reach : Nat
deriving DecidableEq, Repr

/-- The markers of a dialect. -/
def Markers.ofDialect (dialect : Dialect) : Markers where
  opening := Text.bytesOf dialect.opening.toList
  closing := Text.bytesOf dialect.closing.toList
  reach := dialect.reach.toNat

/-- The offsets of the two markers of a placeholder. -/
structure Span where
  opening : Nat
  closing : Nat
deriving DecidableEq, Repr

/-- Whether the byte before an offset is the escape. -/
def escapedAt (bytes : Array UInt8) : Nat → Bool
  | 0 => false
  | offset + 1 => bytes[offset]? == some escape

/-- Whether `marker` stands at an offset with its meaning. -/
def markerAt (bytes : Array UInt8) (offset : Nat) (marker : List UInt8) : Bool :=
  Text.standsAt bytes offset marker && !escapedAt bytes offset

namespace Markers

variable (markers : Markers) (bytes : Array UInt8)

/-- The greatest offset at which the closing marker for an opening marker at `opening` may stand. -/
def limit (opening : Nat) : Nat :=
  min (opening + markers.reach) lastOffset

/-- Search from `offset` for the closing marker of the opening marker at `opening`.  Another
opening marker on the way, even one that overlaps the first, ends the search. -/
def closingFrom? (opening offset : Nat) : Option Nat :=
  if offset < bytes.size ∧ offset ≤ markers.limit opening then
    if opening + markers.opening.length ≤ offset ∧ markerAt bytes offset markers.closing then
      some offset
    else if markerAt bytes offset markers.opening then none
    else closingFrom? opening (offset + 1)
  else none
termination_by bytes.size - offset

/-- The offset of the closing marker for the opening marker at an offset. -/
def closing? (opening : Nat) : Option Nat :=
  markers.closingFrom? bytes opening (opening + 1)

variable {markers bytes}

theorem le_of_closingFrom? {opening offset found : Nat}
    (h : markers.closingFrom? bytes opening offset = some found) :
    offset ≤ found ∧ found < bytes.size := by
  fun_induction markers.closingFrom? bytes opening offset with
  | case1 offset within stands =>
      obtain rfl := Option.some.inj h
      exact ⟨Nat.le_refl _, within.1⟩
  | case2 => simp at h
  | case3 offset within _ _ ih =>
      have := ih h
      omega
  | case4 => simp at h

theorem lt_of_closing? {opening found : Nat} (h : markers.closing? bytes opening = some found) :
    opening < found ∧ found < bytes.size :=
  le_of_closingFrom? h

variable (markers bytes)

/-- The placeholders of a line from an offset on, from left to right. -/
def spansFrom (offset : Nat) : List Span :=
  if _inside : offset < bytes.size then
    if markerAt bytes offset markers.opening then
      match _found : markers.closing? bytes offset with
      | none => spansFrom (offset + 1)
      | some closing => ⟨offset, closing⟩ :: spansFrom (closing + markers.closing.length)
    else spansFrom (offset + 1)
  else []
termination_by bytes.size - offset
decreasing_by
  · omega
  · have := lt_of_closing? _found
    omega
  · omega

/-- The placeholders of a line. -/
def spans : List Span :=
  markers.spansFrom bytes 0

end Markers

/-- The number of characters, added to `count`, that a number of bytes takes up. -/
def charactersFrom (count : Nat) : (bytes : Nat) → List Char → Nat
  | 0, _ => count
  | _, [] => count
  | bytes + 1, c :: rest => charactersFrom (count + 1) (bytes + 1 - c.utf8Size) rest

/-- Cut a text after a number of bytes. -/
def cutAt (bytes : Nat) (source : List Char) : List Char × List Char :=
  source.splitAt (charactersFrom 0 bytes source)

/-- Write the line whose text from the offset `position` on is `source`, with the value of its key
for each placeholder. -/
def fillFrom (markers : Markers) (scope : Bindings) :
    (position : Nat) → (source : List Char) → List Span → List Char
  | _, source, [] => source
  | position, source, span :: rest =>
      let (before, source) := cutAt (span.opening - position) source
      let (_, source) := cutAt markers.opening.length source
      let (key, source) := cutAt (span.closing - (span.opening + markers.opening.length)) source
      let (_, source) := cutAt markers.closing.length source
      before ++ (scope.value (String.ofList key)).toList ++
        fillFrom markers scope (span.closing + markers.closing.length) source rest

/-- Replace the placeholders of one line. -/
def fillLine (markers : Markers) (scope : Bindings) (line : List Char) : List Char :=
  fillFrom markers scope 0 line (markers.spans (Text.bytesOf line).toArray)

/-- Replace the placeholders of a text.  A text without the opening marker stays as it is, and so
does every text where that marker is empty.

Markers of a valid dialect are found between characters only.  An empty closing marker, which no
valid dialect has, may be found inside of a character.  The text is then cut behind that character,
where a program that cuts between bytes panics. -/
def substitute (dialect : Dialect) (scope : Bindings) (source : String) : String :=
  if dialect.opening = "" ∨
      Text.offset? (dialect.opening.toList.isPrefixOf ·) source.toList = none then source
  else
    let markers := Markers.ofDialect dialect
    String.ofList ((Text.lines source.toList).flatMap (fillLine markers scope))

end Stencil.Placeholder
