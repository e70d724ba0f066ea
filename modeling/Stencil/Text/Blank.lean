import Stencil.Text.Search

/-!
# Blank characters

Three notions of white space are in use.  Values of variable tags lose every character with the
Unicode property `White_Space`; the inner text of an inclusion loses line ends and spaces only;
and a gap between two parts of a tag is made of the five characters that separate attributes.
-/

namespace Stencil.Text

/-- The characters with the Unicode property `White_Space`. -/
def isBlank (c : Char) : Bool :=
  let code := c.toNat
  (9 ≤ code && code ≤ 13) || code == 0x20 || code == 0x85 || code == 0xA0 || code == 0x1680 ||
    (0x2000 ≤ code && code ≤ 0x200A) || code == 0x2028 || code == 0x2029 || code == 0x202F ||
    code == 0x205F || code == 0x3000

/-- Line ends and spaces, which surround the inner text of an inclusion. -/
def isMargin (c : Char) : Bool :=
  c == '\n' || c == '\r' || c == ' '

/-- The characters that separate the parts of a tag. -/
def isGap (c : Char) : Bool :=
  c == '\t' || c == '\n' || c == '\x0c' || c == '\r' || c == ' '

end Stencil.Text
