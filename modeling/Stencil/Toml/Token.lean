/-!
# Tokens of settings documents

A document is cut into tokens before its lines are read.  A string is one token together with the
marks around it, and it is one as well when its closing marks are missing.  What has no meaning of
its own makes up bare words.
-/

namespace Stencil.Toml

/-- The marks around a string. -/
inductive Marks where
  | double
  | single
  | longDouble
  | longSingle
deriving DecidableEq, Repr

/-- The character that marks consist of. -/
def Marks.char : Marks → Char
  | double | longDouble => '\x22'
  | single | longSingle => '\x27'

/-- The number of characters on each side of a string. -/
def Marks.width : Marks → Nat
  | double | single => 1
  | longDouble | longSingle => 3

/-- Whether a backslash has a meaning between marks. -/
def Marks.escapes : Marks → Bool
  | double | longDouble => true
  | single | longSingle => false

/-- A part of a key, or a value, as it was written. -/
inductive Word where
  | bare (chars : List Char)
  /-- A string with its marks. -/
  | quoted (marks : Marks) (chars : List Char)
deriving DecidableEq, Repr

/-- How a word was written. -/
def Word.chars : Word → List Char
  | bare chars | quoted _ chars => chars

/-- A piece of a document. -/
inductive Token where
  | dot
  | equals
  | comma
  | openBracket
  | closeBracket
  | openBrace
  | closeBrace
  | blanks (chars : List Char)
  | comment
  | lineEnd
  | word (word : Word)
deriving DecidableEq, Repr

/-- The characters that may stand in a string or a comment. -/
def isPlain (c : Char) : Bool :=
  c == '\t' || (0x20 ≤ c.toNat && c.toNat != 0x7F)

/-- The blanks between the words of a line. -/
def isBlank (c : Char) : Bool :=
  c == ' ' || c == '\t'

/-- The characters that end a bare word. -/
def endsWord (c : Char) : Bool :=
  ".=,[]\x7b\x7d \t#\r\n".toList.contains c

namespace Token

/-- Whether a token separates others and means nothing else. -/
def isGap : Token → Bool
  | blanks _ | comment | lineEnd => true
  | _ => false

/-- Cut a text behind the first mark.  After a backslash that `escapes`, a mark and a backslash
stand for themselves.  A text without a mark is cut at the end of its line. -/
def cutShort (mark : Char) (escapes : Bool) : List Char → List Char × List Char
  | [] => ([], [])
  | '\n' :: rest => ([], '\n' :: rest)
  | c :: d :: rest =>
      if escapes && c == '\\' && (d == '\\' || d == mark) then
        let (found, rest) := cutShort mark escapes rest
        (c :: d :: found, rest)
      else if c == mark then ([c], d :: rest)
      else
        let (found, rest) := cutShort mark escapes (d :: rest)
        (c :: found, rest)
  | [c] => ([c], [])

/-- Cut a text behind the first three marks in a row, and behind up to two more. -/
def cutLong (mark : Char) (escapes : Bool) : List Char → List Char × List Char
  | [] => ([], [])
  | [c] => ([c], [])
  | c :: d :: rest =>
      if escapes && c == '\\' && (d == '\\' || d == mark) then
        let (found, rest) := cutLong mark escapes rest
        (c :: d :: found, rest)
      else if c == mark && d == mark && rest.head? == some mark then
        let more := ((rest.drop 1).take 2).takeWhile (· == mark)
        (mark :: mark :: mark :: more, rest.drop (more.length + 1))
      else
        let (found, rest) := cutLong mark escapes (d :: rest)
        (c :: found, rest)

theorem length_cutShort_le (mark : Char) (escapes : Bool) (source : List Char) :
    (cutShort mark escapes source).2.length ≤ source.length := by
  fun_induction cutShort mark escapes source <;> simp_all <;> omega

theorem length_cutLong_le (mark : Char) (escapes : Bool) (source : List Char) :
    (cutLong mark escapes source).2.length ≤ source.length := by
  fun_induction cutLong mark escapes source <;> simp_all <;> omega

/-- The string that a mark begins. -/
def string (mark : Char) (rest : List Char) : Token × List Char :=
  let escapes := mark == '\x22'
  if rest.take 2 == [mark, mark] then
    let (found, rest) := cutLong mark escapes (rest.drop 2)
    (.word (.quoted (if escapes then .longDouble else .longSingle) (mark :: mark :: mark :: found)),
      rest)
  else
    let (found, rest) := cutShort mark escapes rest
    (.word (.quoted (if escapes then .double else .single) (mark :: found)), rest)

/-- The first token of a text, which begins with `c`.  A comment holds nothing but plain characters,
and a carriage return belongs to the line feed after it. -/
def next? (c : Char) (rest : List Char) : Option (Token × List Char) :=
  match c with
  | '.' => some (.dot, rest)
  | '=' => some (.equals, rest)
  | ',' => some (.comma, rest)
  | '[' => some (.openBracket, rest)
  | ']' => some (.closeBracket, rest)
  | '\x7b' => some (.openBrace, rest)
  | '\x7d' => some (.closeBrace, rest)
  | '\n' => some (.lineEnd, rest)
  | '\r' =>
      match rest with
      | '\n' :: rest => some (.lineEnd, rest)
      | _ => none
  | '#' =>
      match rest.dropWhile isPlain with
      | [] => some (.comment, [])
      | '\n' :: rest => some (.comment, '\n' :: rest)
      | '\r' :: rest => some (.comment, '\r' :: rest)
      | _ => none
  | '\x22' | '\x27' => some (string c rest)
  | _ =>
      if isBlank c then some (.blanks (c :: rest.takeWhile isBlank), rest.dropWhile isBlank)
      else
        some (.word (.bare (c :: rest.takeWhile (!endsWord ·))), rest.dropWhile (!endsWord ·))

theorem length_string_le (mark : Char) (rest : List Char) :
    (string mark rest).2.length ≤ rest.length := by
  unfold string
  dsimp only
  split
  · have := length_cutLong_le mark (mark == '\x22') (rest.drop 2)
    simp only [List.length_drop] at this
    dsimp only
    omega
  · exact length_cutShort_le ..

theorem length_le_of_next? {c : Char} {rest after : List Char} {token : Token}
    (h : next? c rest = some (token, after)) : after.length ≤ rest.length := by
  have dropped (test : Char → Bool) : (rest.dropWhile test).length ≤ rest.length :=
    (List.dropWhile_suffix test).length_le
  have cut (mark : Char) := length_string_le mark rest
  unfold next? at h
  grind

/-- The tokens of a text. -/
def scan (source : List Char) : Option (List Token) :=
  match source with
  | [] => some []
  | c :: rest =>
      match _found : next? c rest with
      | none => none
      | some (token, after) => (scan after).map (token :: ·)
termination_by source.length
decreasing_by
  have := length_le_of_next? _found
  simp only [List.length_cons]
  omega

end Token

end Stencil.Toml
