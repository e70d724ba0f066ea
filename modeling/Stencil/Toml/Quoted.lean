import Stencil.Toml.Token

/-!
# Quoted strings of a settings document

A string stands in single or double marks, or between two runs of three of them, where it may run
over several lines.  Between double marks a backslash begins an escape.
-/

namespace Stencil.Toml.Quoted

/-- The value of a hexadecimal digit. -/
def hexDigit? (c : Char) : Option Nat :=
  if c.isDigit then some (c.toNat - '0'.toNat)
  else if 'a' ≤ c ∧ c ≤ 'f' then some (c.toNat - 'a'.toNat + 10)
  else if 'A' ≤ c ∧ c ≤ 'F' then some (c.toNat - 'A'.toNat + 10)
  else none

/-- The character with a number in hexadecimal digits. -/
def hexChar? (digits : List Char) : Option Char := do
  let code ← digits.foldlM (fun code c => (hexDigit? c).map (code * 16 + ·)) 0
  if h : code.isValidChar then some (Char.ofNatAux code h) else none

/-- The character that a backslash and one letter stand for. -/
def escaped? : Char → Option Char
  | 'b' => some '\x08'
  | 't' => some '\t'
  | 'n' => some '\n'
  | 'f' => some '\x0c'
  | 'r' => some '\r'
  | 'e' => some '\x1b'
  | '\x22' => some '\x22'
  | '\\' => some '\\'
  | _ => none

/-- Put a character before a text, when there are both. -/
def before (c? : Option Char) (text? : Option (List Char)) : Option (List Char) := do
  let c ← c?
  return c :: (← text?)

/-- Whether the line ends here, apart from blanks. -/
def endsLine (source : List Char) : Bool :=
  match source.dropWhile isBlank with
  | '\n' :: _ | '\r' :: '\n' :: _ => true
  | _ => false

/-- The text between double marks.  Only a `long` string runs over several lines, and keeps their
ends as they are.  After a backslash at the end of a line, `skipping` leaves out all blanks and line
ends. -/
def unescape (long skipping : Bool) : List Char → Option (List Char)
  | [] => some []
  | '\r' :: '\n' :: rest =>
      if !long then none
      else if skipping then unescape long true rest
      else before (some '\r') (before (some '\n') (unescape long false rest))
  | '\n' :: rest =>
      if !long then none
      else if skipping then unescape long true rest
      else before (some '\n') (unescape long false rest)
  | '\\' :: 'x' :: a :: b :: rest => before (hexChar? [a, b]) (unescape long false rest)
  | '\\' :: 'u' :: a :: b :: c :: d :: rest =>
      before (hexChar? [a, b, c, d]) (unescape long false rest)
  | '\\' :: 'U' :: a :: b :: c :: d :: e :: f :: g :: h :: rest =>
      before (hexChar? [a, b, c, d, e, f, g, h]) (unescape long false rest)
  | '\\' :: c :: rest =>
      if long && endsLine (c :: rest) then unescape long true rest
      else before (escaped? c) (unescape long false rest)
  | c :: rest =>
      if skipping && isBlank c then unescape long true rest
      else if isPlain c && c != '\\' then before (some c) (unescape long false rest)
      else none

/-- Whether a text may stand between single marks.  Only a `long` string runs over several lines. -/
def isLiteral (long : Bool) : List Char → Bool
  | [] => true
  | '\r' :: '\n' :: rest | '\n' :: rest => long && isLiteral long rest
  | c :: rest => isPlain c && isLiteral long rest

/-- The text between marks, when they are there on both sides. -/
def inside? (marks : Marks) (chars : List Char) : Option (List Char) :=
  let run := List.replicate marks.width marks.char
  let opened := chars.drop marks.width
  let text := opened.take (opened.length - marks.width)
  if chars = run ++ text ++ run then some text else none

/-- The text after a line end at the beginning, which is no part of a long string. -/
def afterLineEnd : List Char → List Char
  | '\n' :: rest | '\r' :: '\n' :: rest => rest
  | source => source

/-- The text of a string that was written with marks. -/
def text? (marks : Marks) (chars : List Char) : Option String := do
  let text ← inside? marks chars
  let text := if marks.width = 1 then text else afterLineEnd text
  if marks.escapes then (unescape (marks.width != 1) false text).map String.ofList
  else if isLiteral (marks.width != 1) text then some (String.ofList text)
  else none

end Stencil.Toml.Quoted
