import Stencil.Text.Utf8

/-!
# Exclusion patterns

A pattern describes whole paths, byte by byte.  A star stands for any bytes, slashes included, and
a question mark for any single byte.  Two stars that make up a whole component also stand for no
component at all.
-/

namespace Stencil.Glob

/-- A part of a pattern. -/
inductive Part where
  | literal (char : Char)
  /-- Any byte. -/
  | any
  /-- Any bytes. -/
  | zeroOrMore
  /-- Any components at the beginning of a path. -/
  | recursiveStart
  /-- A slash and anything after it. -/
  | recursiveEnd
  /-- Any components between two slashes, which may be the same. -/
  | recursiveMiddle
  /-- A byte inside the ranges, or outside all of them. -/
  | oneOf (negated : Bool) (ranges : List (Char × Char))
  /-- One of several patterns. -/
  | alternates (branches : List (List Part))
deriving Repr

/-- A pattern is a sequence of parts. -/
abbrev Pattern := List Part

/-- The ranges of bytes that a range of characters stands for.  Of characters with several bytes,
the last byte of the first one and the first byte of the last one are the ends of a range, and the
other bytes stand for themselves. -/
def byteRanges (range : Char × Char) : List (UInt8 × UInt8) :=
  let alone (bytes : List UInt8) := bytes.map fun byte => (byte, byte)
  let first := String.utf8EncodeChar range.1
  let last := String.utf8EncodeChar range.2
  if range.1 = range.2 then alone first
  else
    match first.getLast?, last with
    | some low, high :: others => alone first.dropLast ++ (low, high) :: alone others
    | _, _ => []

/-- Whether a byte belongs to a class of characters. -/
def inClass (negated : Bool) (ranges : List (Char × Char)) (byte : UInt8) : Bool :=
  let listed := (ranges.flatMap byteRanges).any fun (low, high) => low ≤ byte && byte ≤ high
  listed != negated

section Match

variable (path : Array UInt8)

/-- Whether the byte at an offset is a slash. -/
def slashAt (offset : Nat) : Bool :=
  path[offset]? == some 0x2F

/-- The offsets that `step` allows from one of `offsets`, in increasing order. -/
def reach (step : Nat → Nat → Bool) (offsets : List Nat) : List Nat :=
  (List.range (path.size + 1)).filter fun target => offsets.any (step · target)

/-- The offsets after one byte that passes a test. -/
def afterByte (test : UInt8 → Bool) (offsets : List Nat) : List Nat :=
  offsets.filterMap fun offset =>
    match path[offset]? with
    | some byte => if test byte then some (offset + 1) else none
    | none => none

mutual

/-- Whether a part stands for nothing because it holds no branch with a part of its own. -/
def Part.isVoid : Part → Bool
  | .alternates branches => areVoid branches
  | _ => false

/-- Whether all parts of a pattern stand for nothing. -/
def isVoid : List Part → Bool
  | [] => true
  | part :: rest => part.isVoid && isVoid rest

/-- Whether all branches stand for nothing. -/
def areVoid : List (List Part) → Bool
  | [] => true
  | branch :: others => isVoid branch && areVoid others

end

mutual

/-- The offsets at which a part can end when it starts at one of `offsets`. -/
def Part.after : Part → (offsets : List Nat) → List Nat
  | .literal char, offsets =>
      let bytes := String.utf8EncodeChar char
      (offsets.filter (Text.standsAt path · bytes)).map (· + bytes.length)
  | .any, offsets => afterByte path (fun _ => true) offsets
  | .zeroOrMore, offsets => reach path (fun offset target => offset ≤ target) offsets
  | .recursiveStart, offsets =>
      reach path
        (fun offset target => offset = target || (offset < target && slashAt path (target - 1)))
        offsets
  | .recursiveEnd, offsets =>
      reach path (fun offset target => offset < target && slashAt path offset) offsets
  | .recursiveMiddle, offsets =>
      reach path
        (fun offset target =>
          offset < target && slashAt path offset && slashAt path (target - 1))
        offsets
  | .oneOf negated ranges, offsets => afterByte path (inClass negated ranges) offsets
  | .alternates branches, offsets =>
      if areVoid branches then offsets
      else
        let ends := afterSome branches offsets
        reach path (fun offset target => offset = target) ends

/-- The offsets at which a sequence of parts can end. -/
def afterAll : List Part → (offsets : List Nat) → List Nat
  | [], offsets => offsets
  | part :: rest, offsets => afterAll rest (part.after offsets)

/-- The offsets at which one of several branches can end.  A branch without parts is left out. -/
def afterSome : List (List Part) → (offsets : List Nat) → List Nat
  | [], _ => []
  | branch :: others, offsets =>
      let here := if isVoid branch then [] else afterAll branch offsets
      here ++ afterSome others offsets

end

end Match

/-- Whether the parts of a pattern make up a path.  Two stars alone make up all. -/
def Pattern.spells (pattern : Pattern) (path : String) : Bool :=
  match pattern with
  | [.recursiveStart] => true
  | _ =>
      let bytes := (Text.bytesOf path.toList).toArray
      (afterAll bytes pattern [0]).contains bytes.size

end Stencil.Glob
