import Stencil.Dialect
import Stencil.Glob.Fault
import Stencil.Toml.Fault

/-!
# Faults of settings

Settings are refused for one of the causes below.  Each cause names the key that has to change.
-/

namespace Stencil

namespace Dialect

/-- The key of a part of a dialect in the settings. -/
def Part.key : Part → String
  | tagPrefix => "tag_prefix"
  | variablePrefix => "variable_prefix"
  | opening => "placeholder_open"
  | closing => "placeholder_close"

/-- The wording of a fault of a dialect. -/
def Fault.message : Fault → String
  | emptyPart part => "`syntax." ++ part.key ++ "` must not be empty"
  | samePrefixes => "`syntax.tag_prefix` and `syntax.variable_prefix` must differ"

end Dialect

namespace Settings

/-- Why settings are refused. -/
inductive Fault where
  /-- The text is not a document. -/
  | document (fault : Toml.Fault)
  /-- A key has a value of another type than it should have. -/
  | wrongType
  | dialect (fault : Dialect.Fault)
  | emptyExtension
  | badPattern (pattern : String) (fault : Glob.Fault)
  /-- The regular expression of a pattern nests too deeply. -/
  | deepPattern (expression : String)
  /-- Of several regular expressions, the one at an index nests too deeply. -/
  | deepPatterns (index : Nat)
deriving DecidableEq, Repr

/-- The wording of a fault of the settings. -/
def Fault.message : Fault → String
  | document fault => fault.message
  | wrongType => "a key has a value of the wrong type"
  | dialect fault => fault.message
  | emptyExtension => "`build.extension` must not be empty"
  | badPattern pattern fault =>
      "invalid exclude pattern `" ++ pattern ++ "`: error parsing glob '" ++ pattern ++ "': " ++
        fault.message
  | deepPattern expression =>
      "error parsing glob '" ++ expression ++ "': error parsing pattern 0"
  | deepPatterns index => "error parsing pattern " ++ toString index

end Settings

end Stencil
