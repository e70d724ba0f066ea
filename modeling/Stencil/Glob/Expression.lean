import Stencil.Glob.Means

/-!
# Regular expressions of patterns

A pattern is matched by way of a regular expression for the bytes of a path.  Expressions nest to a
limited depth, so that groups of alternates do as well.
-/

namespace Stencil.Glob

/-- A byte in a regular expression.  Bytes outside of ASCII are written in hexadecimal digits. -/
def byteText (byte : UInt8) : String :=
  let char := Char.ofNat byte.toNat
  if 0x7F < byte.toNat then
    "\\x" ++ String.ofList (Nat.toDigits 16 byte.toNat)
  else if "\\.+*?()|[]\x7b\x7d^$#&-~".toList.contains char then "\\" ++ char.toString
  else char.toString

/-- A character in a regular expression. -/
def charText (char : Char) : String :=
  String.join ((String.utf8EncodeChar char).map byteText)

/-- A range of characters in a class of a regular expression. -/
def rangeText (range : Char × Char) : String :=
  if range.1 = range.2 then charText range.1 else charText range.1 ++ "-" ++ charText range.2

mutual

/-- The regular expression of a part. -/
def Part.expression : Part → String
  | .literal char => charText char
  | .any => "."
  | .zeroOrMore => ".*"
  | .recursiveStart => "(?:/?|.*/)"
  | .recursiveEnd => "/.*"
  | .recursiveMiddle => "(?:/|/.*/)"
  | .oneOf negated ranges =>
      "[" ++ (if negated then "^" else "") ++ String.join (ranges.map rangeText) ++ "]"
  | .alternates branches =>
      match expressions branches with
      | [] => ""
      | found => "(?:" ++ "|".intercalate found ++ ")"

/-- The regular expression of a sequence of parts. -/
def sequenceExpression : List Part → String
  | [] => ""
  | part :: rest => part.expression ++ sequenceExpression rest

/-- The regular expressions of branches, without those that are empty. -/
def expressions : List (List Part) → List String
  | [] => []
  | branch :: others =>
      let found := sequenceExpression branch
      if found = "" then expressions others else found :: expressions others

end

/-- The depth of a sequence of expressions of some depths.  One expression alone is no sequence. -/
def sequenceDepth : List Nat → Nat
  | [] => 0
  | [depth] => depth
  | depths => depths.foldl max 0 + 1

mutual

/-- The depths of the expressions, one after the other, that a part stands for. -/
def Part.depths : Part → List Nat
  | .literal char => List.replicate char.utf8Size 0
  | .any => [0]
  | .zeroOrMore => [1]
  | .recursiveStart | .recursiveMiddle => [4]
  | .recursiveEnd => [0, 1]
  | .oneOf _ ranges => if (ranges.flatMap byteRanges).length = 1 then [1] else [2]
  | .alternates branches =>
      match branchDepths branches with
      | [] => []
      | found => [sequenceDepth found + 1]

/-- The depths of the expressions that a sequence of parts stands for. -/
def allDepths : List Part → List Nat
  | [] => []
  | part :: rest => part.depths ++ allDepths rest

/-- The depths of branches, without those that are empty. -/
def branchDepths : List (List Part) → List Nat
  | [] => []
  | branch :: others =>
      match allDepths branch with
      | [] => branchDepths others
      | found => sequenceDepth found :: branchDepths others

end

namespace Pattern

/-- The regular expression of a pattern. -/
def expression (pattern : Pattern) : String :=
  match pattern with
  | [.recursiveStart] => "(?-u)^.*$"
  | _ => "(?-u)^" ++ sequenceExpression pattern ++ "$"

/-- The depth of the regular expression of a pattern, which is a sequence with its ends. -/
def depth (pattern : Pattern) : Nat :=
  sequenceDepth (0 :: allDepths pattern ++ [0])

/-- The depth to which regular expressions may nest. -/
def depthLimit : Nat := 250

/-- Whether the regular expression of a pattern nests too deeply. -/
def isTooDeep (pattern : Pattern) : Bool :=
  depthLimit < pattern.depth

end Pattern

end Stencil.Glob
