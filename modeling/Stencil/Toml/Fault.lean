/-!
# Faults of settings documents
-/

namespace Stencil.Toml

/-- Why a text is not a document. -/
inductive Fault where
  /-- The text breaks the rules of the format. -/
  | malformed
  /-- A key leads through too many tables. -/
  | keyTooLong
deriving DecidableEq, Repr

/-- The wording of a fault. -/
def Fault.message : Fault → String
  | malformed => "the text is not a valid settings document"
  | keyTooLong => "recursion limit\n"

end Stencil.Toml
