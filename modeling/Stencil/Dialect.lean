/-!
# Dialects

A dialect fixes how composition is written in a page: the prefixes of inclusion tags and variable
tags, the markers of placeholders and their reach, and the attribute that names a template.
-/

namespace Stencil

/-- How composition is written in a page. -/
structure Dialect where
  /-- Beginning of the name of an inclusion tag. -/
  tagPrefix : String := "t:"
  /-- Beginning of the name of a variable tag. -/
  variablePrefix : String := "v:"
  /-- The marker that opens a placeholder. -/
  opening : String := "\x7b\x7b"
  /-- The marker that closes a placeholder. -/
  closing : String := "\x7d\x7d"
  /-- The greatest distance, in bytes, from the opening marker to the closing one. -/
  reach : UInt64 := 100
  /-- The attribute that names the template of an inclusion. -/
  nameAttribute : String := ":name"
deriving DecidableEq, Repr, Inhabited

namespace Dialect

/-- The parts of a dialect that must not be empty. -/
inductive Part where
  | tagPrefix
  | variablePrefix
  | opening
  | closing
deriving DecidableEq, Repr

/-- Why a dialect is refused. -/
inductive Fault where
  | emptyPart (part : Part)
  | samePrefixes
deriving DecidableEq, Repr

/-- What a dialect has for a part. -/
def get (dialect : Dialect) : Part → String
  | .tagPrefix => dialect.tagPrefix
  | .variablePrefix => dialect.variablePrefix
  | .opening => dialect.opening
  | .closing => dialect.closing

/-- The first fault of a dialect.  An empty part comes before equal prefixes, which are compared
without regard to the case of ASCII letters. -/
def fault? (dialect : Dialect) : Option Fault :=
  match [Part.tagPrefix, .variablePrefix, .opening, .closing].find? (dialect.get · == "") with
  | some part => some (.emptyPart part)
  | none =>
      if dialect.tagPrefix.toLower = dialect.variablePrefix.toLower then some .samePrefixes
      else none

/-- A dialect without a fault. -/
def Valid (dialect : Dialect) : Prop :=
  dialect.fault? = none

instance (dialect : Dialect) : Decidable dialect.Valid :=
  inferInstanceAs (Decidable (dialect.fault? = none))

theorem valid_iff (dialect : Dialect) :
    dialect.Valid ↔ (∀ part, dialect.get part ≠ "") ∧
      dialect.tagPrefix.toLower ≠ dialect.variablePrefix.toLower := by
  have parts : (∀ part, dialect.get part ≠ "") ↔
      [Part.tagPrefix, .variablePrefix, .opening, .closing].find? (dialect.get · == "") = none := by
    simp only [List.find?_eq_none, List.mem_cons, List.not_mem_nil, or_false, beq_iff_eq]
    constructor
    · intro h part _
      exact h part
    · intro h part
      cases part <;> exact h _ (by simp)
  rw [parts]
  unfold Valid fault?
  split <;> rename_i found <;> rw [found] <;> simp

end Dialect

end Stencil
