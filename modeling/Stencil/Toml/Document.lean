import Stencil.Toml.Fault
import Stencil.Toml.Outline
import Stencil.Toml.Scalar

/-!
# Reading a settings document

The lines of a document are read one after the other, and each adds to the tables that those before
it made.  A document has to have an outline before its lines are looked at, and the first line that
cannot be read decides what is wrong with it.
-/

namespace Stencil.Toml

/-- The number of parts that a key may have. -/
def keyLimit : Nat := 80

/-- The part of a key that a word stands for. -/
def Word.part? : Word → Option String
  | bare chars =>
      if chars.isEmpty || chars.any (fun c => !(c.isAlphanum || c == '_' || c == '-')) then none
      else some (String.ofList chars)
  | quoted marks chars => if marks.width = 1 then Quoted.text? marks chars else none

/-- The value that a word stands for. -/
def Word.value? : Word → Option Value
  | bare chars => Scalar.value? chars
  | quoted marks chars => (Quoted.text? marks chars).map .string

/-- What was found, or else a document that is not well formed. -/
def orMalformed {α : Type} : Option α → Except Fault α
  | none => .error .malformed
  | some found => .ok found

/-- Read a key.  Its last part is given apart. -/
def readKey (words : List Word) : Except Fault (List String × String) := do
  let parts ← orMalformed (words.mapM Word.part?)
  if keyLimit < parts.length then throw .keyTooLong
  let last ← orMalformed parts.getLast?
  return (parts.dropLast, last)

mutual

/-- The value that a node stands for. -/
def Node.read : Node → Except Fault Value
  | .scalar word => orMalformed word.value?
  | .array items => (readItems items).map (.array false)
  | .table entries => (readEntries [] entries).map (.table .inline)

/-- The values that nodes stand for. -/
def readItems : List Node → Except Fault (List Value)
  | [] => .ok []
  | node :: rest => do
      let value ← node.read
      return value :: (← readItems rest)

/-- Read the entries of a table in braces, and add them to those before. -/
def readEntries (entries : Entries) : List (List Word × Node) → Except Fault Entries
  | [] => .ok entries
  | (words, node) :: rest => do
      let (path, key) ← readKey words
      let value ← node.read
      readEntries (← orMalformed (entries.define path key value)) rest

end

/-- How far a document has been read. -/
structure Reading where
  entries : Entries := []
  /-- The table that the last header began. -/
  current : List String := []

/-- Read a line. -/
def Reading.add (reading : Reading) : Line → Except Fault Reading
  | .header repeated words => do
      let (path, key) ← readKey words
      let entries ← orMalformed <|
        if repeated then reading.entries.beginElement path key
        else reading.entries.beginTable path key
      return ⟨entries, path ++ [key]⟩
  | .entry words node => do
      let (path, key) ← readKey words
      let value ← node.read
      let entries ← orMalformed (reading.entries.defineBelow reading.current path key value)
      return { reading with entries }

/-- The entries of a document. -/
def parse (document : String) : Except Fault Entries := do
  let lines ← orMalformed (Outline.read? document)
  let reading ← lines.foldlM Reading.add {}
  return reading.entries

end Stencil.Toml
