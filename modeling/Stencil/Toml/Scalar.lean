import Stencil.Toml.Quoted
import Stencil.Toml.Value

/-!
# Numbers, dates and truth values

A scalar without quotation marks is a truth value, an integer, a decimal fraction, a date, a time
or both.  Numbers may have any size.
-/

namespace Stencil.Toml.Scalar

/-- Digits with single underscores between them, and the text after them. -/
def digits (isDigit : Char → Bool) : List Char → List Char × List Char
  | [] => ([], [])
  | c :: '_' :: next :: rest =>
      if isDigit c then
        if isDigit next then
          let (more, after) := digits isDigit (next :: rest)
          (c :: more, after)
        else ([c], '_' :: next :: rest)
      else ([], c :: '_' :: next :: rest)
  | c :: rest =>
      if isDigit c then
        let (more, after) := digits isDigit rest
        (c :: more, after)
      else ([], c :: rest)

/-- The number with given digits in a base. -/
def number (base : Nat) (digits : List Char) : Nat :=
  digits.foldl (fun value c => value * base + (Quoted.hexDigit? c).getD 0) 0

/-- The digits of a decimal number, which have no zero in front, and the text after them. -/
def decimal? (source : List Char) : Option (List Char × List Char) :=
  match digits Char.isDigit source with
  | ([], _) => none
  | ('0' :: _ :: _, _) => none
  | found => some found

/-- A sign, and the text after it. -/
def sign : List Char → Bool × List Char
  | '-' :: rest => (true, rest)
  | '+' :: rest => (false, rest)
  | rest => (false, rest)

/-- A number without a sign in a base other than ten. -/
def based? (base : Nat) (isDigit : Char → Bool) (source : List Char) : Option Int :=
  match digits isDigit source with
  | ([], _) | (_, _ :: _) => none
  | (found, []) => some (number base found)

def integer? (source : List Char) : Option Int :=
  match source with
  | '0' :: 'x' :: rest => based? 16 (fun c => (Quoted.hexDigit? c).isSome) rest
  | '0' :: 'o' :: rest => based? 8 (fun c => '0' ≤ c && c ≤ '7') rest
  | '0' :: 'b' :: rest => based? 2 (fun c => c == '0' || c == '1') rest
  | _ =>
      let (negative, rest) := sign source
      match decimal? rest with
      | some (found, []) => some (if negative then -number 10 found else number 10 found)
      | _ => none

/-- The exponent of a decimal fraction. -/
def exponent? : List Char → Option Int
  | c :: rest =>
      if c = 'e' ∨ c = 'E' then
        let (negative, rest) := sign rest
        match digits Char.isDigit rest with
        | ([], _) | (_, _ :: _) => none
        | (found, []) => some (if negative then -number 10 found else number 10 found)
      else none
  | [] => some 0

/-- A decimal fraction, with places after the point or an exponent or both. -/
def fraction? (source : List Char) : Option Decimal := do
  let (negative, rest) := sign source
  let (whole, rest) ← decimal? rest
  match rest with
  | [] => none
  | '.' :: rest =>
      let (places, rest) := digits Char.isDigit rest
      if places.isEmpty then none
      else
        let exponent ← exponent? rest
        return ⟨negative, number 10 (whole ++ places), exponent - places.length⟩
  | rest =>
      let exponent ← exponent? rest
      return ⟨negative, number 10 whole, exponent⟩

/-- Whether a text stands for an infinity, or for what is no number. -/
def isSpecial (source : List Char) : Bool :=
  let (_, rest) := sign source
  rest = ['i', 'n', 'f'] || rest = ['n', 'a', 'n']

/-- A number of exactly two digits, and the text after it. -/
def twoDigits? : List Char → Option (Nat × List Char)
  | a :: b :: rest =>
      if a.isDigit && b.isDigit then some (number 10 [a, b], rest) else none
  | _ => none

def isLeapYear (year : Nat) : Bool :=
  (year % 4 == 0 && year % 100 != 0) || year % 400 == 0

def daysIn (year month : Nat) : Nat :=
  if month = 2 then if isLeapYear year then 29 else 28
  else if month = 4 ∨ month = 6 ∨ month = 9 ∨ month = 11 then 30
  else 31

/-- The text after a date. -/
def afterDate? (source : List Char) : Option (List Char) := do
  let (century, rest) ← twoDigits? source
  let (year, rest) ← twoDigits? rest
  let '-' :: rest := rest | none
  let (month, rest) ← twoDigits? rest
  let '-' :: rest := rest | none
  let (day, rest) ← twoDigits? rest
  if 1 ≤ month ∧ month ≤ 12 ∧ 1 ≤ day ∧ day ≤ daysIn (century * 100 + year) month then some rest
  else none

/-- The text after the seconds of a time, which may be left out. -/
def afterSeconds? : List Char → Option (List Char)
  | ':' :: rest => do
      let (second, rest) ← twoDigits? rest
      if 60 < second then none
      else
        match rest with
        | '.' :: rest =>
            let places := rest.takeWhile Char.isDigit
            if places.isEmpty then none else some (rest.dropWhile Char.isDigit)
        | _ => some rest
  | rest => some rest

/-- The text after a time. -/
def afterTime? (source : List Char) : Option (List Char) := do
  let (hour, rest) ← twoDigits? source
  let ':' :: rest := rest | none
  let (minute, rest) ← twoDigits? rest
  if 23 < hour ∨ 59 < minute then none else afterSeconds? rest

/-- Whether a text is a distance from universal time. -/
def isOffset (source : List Char) : Bool :=
  match source with
  | ['Z'] | ['z'] => true
  | c :: rest =>
      (c == '+' || c == '-') &&
        match twoDigits? rest with
        | some (hour, ':' :: rest) =>
            match twoDigits? rest with
            | some (minute, []) => hour ≤ 23 && minute ≤ 59
            | _ => false
        | _ => false
  | [] => false

def isDateTime (source : List Char) : Bool :=
  match afterDate? source with
  | none => afterTime? source == some []
  | some [] => true
  | some (c :: rest) =>
      (c == 'T' || c == 't' || c == ' ') &&
        match afterTime? rest with
        | none => false
        | some rest => rest.isEmpty || isOffset rest

/-- The value of a scalar without quotation marks. -/
def value? (source : List Char) : Option Value :=
  if source = "true".toList then some (.boolean true)
  else if source = "false".toList then some (.boolean false)
  else if isSpecial source then some (.special (String.ofList source))
  else if isDateTime source then some (.dateTime (String.ofList source))
  else (integer? source).map .integer <|> (fraction? source).map .decimal

end Stencil.Toml.Scalar
