import Stencil.Toml.Token

/-!
# Outlines of settings documents

The outline of a document is its sequence of lines, with all keys and values as they were written.
A line begins a table or gives a value to a key.  Values may be arrays and tables in braces, which
may run over several lines and be nested to a limited depth.  A document without an outline is not
well formed, whatever its keys and values say.
-/

namespace Stencil.Toml

/-- A value as it was written. -/
inductive Node where
  | scalar (word : Word)
  | array (items : List Node)
  | table (entries : List (List Word × Node))

/-- A line of a document. -/
inductive Line where
  /-- The header of a table, or of the next table of an array of tables. -/
  | header (repeated : Bool) (key : List Word)
  | entry (key : List Word) (value : Node)

namespace Outline

/-- The depth to which arrays and tables in braces may be nested. -/
def depthLimit : Nat := 80

/-- The tokens after blanks on the same line. -/
def skipBlanks (tokens : List Token) : List Token :=
  tokens.dropWhile fun
    | .blanks _ => true
    | _ => false

/-- The tokens after blanks, comments and line ends. -/
def skipGaps (tokens : List Token) : List Token :=
  tokens.dropWhile Token.isGap

/-- The tokens after the end of a line, which may have a comment. -/
def lineEnd? (tokens : List Token) : Option (List Token) :=
  match skipBlanks tokens with
  | [] | [.comment] => some []
  | .lineEnd :: rest | .comment :: .lineEnd :: rest => some rest
  | _ => none

/-- The parts of a key after its first one, each of them after a dot.  In place of a part that is
missing stands an empty word. -/
def moreKey (tokens : List Token) : List Word × List Token :=
  match _dot : skipBlanks tokens with
  | .dot :: rest =>
      match _part : skipBlanks rest with
      | .word word :: rest =>
          let (words, rest) := moreKey rest
          (word :: words, rest)
      | rest =>
          let (words, rest) := moreKey rest
          (.bare [] :: words, rest)
  | rest => ([], rest)
termination_by tokens.length
decreasing_by
  all_goals
    have first : (skipBlanks tokens).length ≤ tokens.length := (List.dropWhile_suffix _).length_le
    have second (rest : List Token) : (skipBlanks rest).length ≤ rest.length :=
      (List.dropWhile_suffix _).length_le
    grind

/-- The parts of a key. -/
def key (tokens : List Token) : List Word × List Token :=
  match tokens with
  | .word word :: rest =>
      let (words, rest) := moreKey rest
      (word :: words, rest)
  | _ =>
      let (words, rest) := moreKey tokens
      (.bare [] :: words, rest)

/-- The characters of a word that goes on.  Dots belong to it, and so do blanks with a bare word
after them. -/
def moreWord : List Token → List Char × List Token
  | .dot :: rest =>
      let (chars, rest) := moreWord rest
      ('.' :: chars, rest)
  | .word word :: rest =>
      let (chars, rest) := moreWord rest
      (word.chars ++ chars, rest)
  | .blanks blanks :: .word (.bare found) :: rest =>
      let (chars, rest) := moreWord rest
      (blanks ++ found ++ chars, rest)
  | rest => ([], rest)

mutual

/-- Read a value.  Arrays and tables in braces may still be nested to the given depth. -/
def value? : (fuel depth : Nat) → List Token → Option (Node × List Token)
  | 0, _, _ => none
  | fuel + 1, depth, tokens =>
      match tokens with
      | .openBracket :: rest =>
          match depth with
          | 0 => none
          | depth + 1 => do
              let (items, rest) ← items? fuel depth (skipGaps rest)
              return (.array items, rest)
      | .openBrace :: rest =>
          match depth with
          | 0 => none
          | depth + 1 => do
              let (entries, rest) ← entries? fuel depth (skipGaps rest)
              return (.table entries, rest)
      | .word (.quoted marks chars) :: rest => some (.scalar (.quoted marks chars), rest)
      | .word (.bare _) :: _ | .dot :: _ =>
          let (chars, rest) := moreWord tokens
          some (.scalar (.bare chars), rest)
      | _ => none

/-- Read the values of an array up to its closing bracket. -/
def items? : (fuel depth : Nat) → List Token → Option (List Node × List Token)
  | 0, _, _ => none
  | _ + 1, _, .closeBracket :: rest => some ([], rest)
  | fuel + 1, depth, tokens => do
      let (item, rest) ← value? fuel depth tokens
      match skipGaps rest with
      | .comma :: rest =>
          let (items, rest) ← items? fuel depth (skipGaps rest)
          return (item :: items, rest)
      | .closeBracket :: rest => return ([item], rest)
      | _ => none

/-- Read the entries of a table up to its closing brace. -/
def entries? : (fuel depth : Nat) → List Token → Option (List (List Word × Node) × List Token)
  | 0, _, _ => none
  | _ + 1, _, .closeBrace :: rest => some ([], rest)
  | fuel + 1, depth, tokens => do
      let (key, rest) := key tokens
      let .equals :: rest := skipGaps rest | none
      let (value, rest) ← value? fuel depth (skipGaps rest)
      match skipGaps rest with
      | .comma :: rest =>
          let (entries, rest) ← entries? fuel depth (skipGaps rest)
          return ((key, value) :: entries, rest)
      | .closeBrace :: rest => return ([(key, value)], rest)
      | _ => none

end

/-- Read the header of a table. -/
def header? (tokens : List Token) : Option (Line × List Token) :=
  match tokens with
  | .openBracket :: .openBracket :: rest =>
      let (key, rest) := key (skipBlanks rest)
      match rest with
      | .closeBracket :: .closeBracket :: rest => some (.header true key, rest)
      | _ => none
  | .openBracket :: rest =>
      let (key, rest) := key (skipBlanks rest)
      match rest with
      | .closeBracket :: rest => some (.header false key, rest)
      | _ => none
  | _ => none

/-- Read a key with a value.  In place of a value that is missing stands an empty word. -/
def assignment? (fuel : Nat) (tokens : List Token) : Option (Line × List Token) := do
  let (key, rest) := key tokens
  let .equals :: rest := rest | none
  match skipBlanks rest with
  | [] | .comment :: _ | .lineEnd :: _ => return (.entry key (.scalar (.bare [])), rest)
  | rest =>
      let (value, rest) ← value? fuel depthLimit rest
      return (.entry key value, rest)

/-- Read the lines of a document. -/
def lines? : (fuel : Nat) → List Token → Option (List Line)
  | 0, _ => none
  | fuel + 1, tokens =>
      match skipGaps tokens with
      | [] => some []
      | tokens => do
          let (line, rest) ← match tokens with
            | .openBracket :: _ => header? tokens
            | _ => assignment? fuel tokens
          let lines ← lines? fuel (← lineEnd? rest)
          return line :: lines

/-- The text without a byte order mark at its beginning. -/
def afterMark : List Char → List Char
  | '\ufeff' :: rest => rest
  | source => source

/-- The outline of a document.  Every other step of reading takes a token, so the number of tokens
bounds the steps. -/
def read? (document : String) : Option (List Line) := do
  let tokens ← Token.scan (afterMark document.toList)
  lines? (2 * tokens.length + 2) tokens

end Outline

end Stencil.Toml
