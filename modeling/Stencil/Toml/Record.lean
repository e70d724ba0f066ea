import Stencil.Toml.Value

/-!
# Records in a settings document

A record has fields in a fixed order.  It is written as a table, which names the fields that it
gives, or as an array, which gives them from the first one on.  A table may hold more than the
fields, as long as its numbers can be represented; what an array holds behind the fields is not
looked at.
-/

namespace Stencil.Toml

/-- Whether an integer fits in 128 bits, with or without a sign. -/
def fitsInteger (value : Int) : Bool :=
  -(Nat.pow 2 127 : Int) ≤ value && value < Nat.pow 2 128

/-- Whether a fraction stays below the point where double precision ends, which is half a step
behind the greatest number.  Fractions far from that point are told by their number of digits. -/
def Decimal.fits (value : Decimal) : Bool :=
  let scale := (Nat.toDigits 10 value.digits).length + value.exponent
  if value.digits = 0 || scale < 309 then true
  else if 309 < scale then false
  else
    let bound := Nat.pow 2 1024 - Nat.pow 2 970
    if 0 ≤ value.exponent then value.digits * Nat.pow 10 value.exponent.toNat < bound
    else value.digits < bound * Nat.pow 10 (-value.exponent).toNat

mutual

/-- Whether all numbers in a value can be represented. -/
def Value.fits : Value → Bool
  | .integer value => fitsInteger value
  | .decimal value => value.fits
  | .array _ items => allFit items
  | .table _ entries => entriesFit entries
  | .string _ | .special _ | .boolean _ | .dateTime _ => true

/-- Whether all numbers in values can be represented. -/
def allFit : List Value → Bool
  | [] => true
  | value :: rest => value.fits && allFit rest

/-- Whether all numbers in the values of entries can be represented. -/
def entriesFit : List (String × Value) → Bool
  | [] => true
  | (_, value) :: rest => value.fits && entriesFit rest

end

/-- A value read as the fields of a record. -/
inductive Record where
  | named (fields : Entries)
  | listed (fields : List Value)

namespace Record

/-- The record that a value stands for.  A date names no field. -/
def ofValue? : Value → Option Record
  | .table _ entries => some (.named entries)
  | .array _ items => some (.listed items)
  | .dateTime _ => some (.named [])
  | _ => none

/-- The value of a field with a name and a position. -/
def get? (record : Record) (position : Nat) (name : String) : Option Value :=
  match record with
  | named fields => fields.lookup name
  | listed fields => fields[position]?

/-- Whether the record may hold what it holds besides fields with the given names. -/
def restFits (record : Record) (names : List String) : Bool :=
  match record with
  | named fields => entriesFit (fields.filter fun (name, _) => !names.contains name)
  | listed _ => true

/-- Read a field, which has its `default` when it is missing. -/
def read {α : Type} (record : Record) (position : Nat) (name : String)
    (asType : Value → Option α) (default : α) : Option α :=
  match record.get? position name with
  | none => some default
  | some value => asType value

end Record

namespace Value

def asString? : Value → Option String
  | string text => some text
  | _ => none

/-- The integer in a value, when it is a natural number of at most 64 bits. -/
def asWord? : Value → Option UInt64
  | integer value =>
      if 0 ≤ value ∧ value < UInt64.size then some (.ofNat value.toNat) else none
  | _ => none

def asStrings? : Value → Option (List String)
  | array _ items => items.mapM asString?
  | _ => none

end Value

end Stencil.Toml
