/-!
# Texts as bytes

Distances in pages are counted in the bytes of the UTF-8 form of a text, and exclusion patterns
compare paths byte by byte.
-/

namespace Stencil.Text

/-- The UTF-8 form of a text. -/
def bytesOf (source : List Char) : List UInt8 :=
  source.flatMap String.utf8EncodeChar

@[simp]
theorem bytesOf_nil : bytesOf [] = [] := rfl

@[simp]
theorem bytesOf_append (first second : List Char) :
    bytesOf (first ++ second) = bytesOf first ++ bytesOf second := by
  simp [bytesOf]

/-- Whether given bytes stand in a text at an offset. -/
def standsAt (source : Array UInt8) : (offset : Nat) → (bytes : List UInt8) → Bool
  | _, [] => true
  | offset, byte :: rest => source[offset]? == some byte && standsAt source (offset + 1) rest

end Stencil.Text
