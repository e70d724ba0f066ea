/-!
# Values of a settings document

A document is a table of values.  A table remembers how it came to be, because that decides
whether a later line of the document may add to it.
-/

namespace Stencil.Toml

/-- How a table came to be. -/
inductive Origin where
  /-- By a header of its own. -/
  | stated
  /-- By the header of a table inside it. -/
  | implied
  /-- By a dotted key. -/
  | dotted
  /-- By braces. -/
  | inline
deriving DecidableEq, Repr

/-- A decimal fraction, which is its digits as a number times a power of ten. -/
structure Decimal where
  negative : Bool
  digits : Nat
  exponent : Int
deriving DecidableEq, Repr

/-- A value.  An array of tables grows by headers, and other arrays are written out at once. -/
inductive Value where
  | string (text : String)
  | integer (value : Int)
  | decimal (value : Decimal)
  /-- An infinity, or what is no number. -/
  | special (text : String)
  | boolean (value : Bool)
  | dateTime (text : String)
  | array (ofTables : Bool) (items : List Value)
  | table (origin : Origin) (entries : List (String × Value))

/-- The keys and values of a table in the order in which they were written. -/
abbrev Entries := List (String × Value)

namespace Entries

/-- Give a key a value at the place that the key has, or else at the end. -/
def put (key : String) (value : Value) : Entries → Entries
  | [] => [(key, value)]
  | (other, old) :: rest =>
      if other = key then (key, value) :: rest else (other, old) :: put key value rest

/-- Change the table that a path of keys leads to, and make the tables on the way that are missing.
The `change` is told how the table came to be.  Arrays of tables are entered at their last table.
Braces close a table for good.  A `dotted` path does not enter a table with a header, and makes the
tables that were only implied its own. -/
def changeAt (dotted : Bool) (change : Origin → Entries → Option Entries) :
    (path : List String) → Origin → Entries → Option Entries
  | [], origin, entries => change origin entries
  | key :: path, _, entries =>
      match entries.lookup key with
      | none => do
          let origin := if dotted then .dotted else .implied
          let inner ← changeAt dotted change path origin []
          return put key (.table origin inner) entries
      | some (.table .inline _) => none
      | some (.table origin inner) => do
          if dotted && origin == .stated then none
          else
            let origin := if dotted then .dotted else origin
            let inner ← changeAt dotted change path origin inner
            return put key (.table origin inner) entries
      | some (.array true items) =>
          match items.getLast? with
          | some (.table origin inner) => do
              let inner ← changeAt dotted change path origin inner
              return put key (.array true (items.dropLast ++ [.table origin inner])) entries
          | _ => none
      | some _ => none

/-- Add a key with a value to the table at a path of keys inside `entries`.  No key is given twice,
and a dotted key does not add to a table with a header. -/
def define (path : List String) (key : String) (value : Value) (entries : Entries) :
    Option Entries :=
  changeAt true
    (fun origin entries =>
      if (origin == .dotted) != !path.isEmpty then none
      else if (entries.lookup key).isSome then none
      else some (put key value entries))
    path .stated entries

/-- Begin the table with a header.  It may exist already if it was only implied. -/
def beginTable (path : List String) (key : String) (entries : Entries) : Option Entries :=
  changeAt false
    (fun _ entries =>
      match entries.lookup key with
      | none => some (put key (.table .stated []) entries)
      | some (.table .implied inner) => some (put key (.table .stated inner) entries)
      | some _ => none)
    path .stated entries

/-- Begin the next table of an array of tables. -/
def beginElement (path : List String) (key : String) (entries : Entries) : Option Entries :=
  changeAt false
    (fun _ entries =>
      match entries.lookup key with
      | none => some (put key (.array true [.table .stated []]) entries)
      | some (.array true items) =>
          some (put key (.array true (items ++ [.table .stated []])) entries)
      | some _ => none)
    path .stated entries

/-- Add a key with a value to the table that the last header began. -/
def defineBelow (header path : List String) (key : String) (value : Value) (entries : Entries) :
    Option Entries :=
  changeAt false (fun _ inner => define path key value inner) header .stated entries

end Entries

end Stencil.Toml
