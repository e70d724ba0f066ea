import Stencil.Dialect
import Stencil.Error
import Stencil.Toml.Document
import Stencil.Toml.Record

/-!
# Settings of a project

The settings of a project are its dialect and how its pages are found and built.  They are read
from a document with the sections `syntax` and `build`.  What a section leaves out has its default
value, and keys with another name have no meaning.
-/

namespace Stencil

/-- How the pages of a project are found, and where their output goes. -/
structure Settings.Build where
  /-- The ending of the names of pages. -/
  extension : String := ".haste.html"
  /-- The directory of the output, relative to the root of the project. -/
  outDir : Path := ⟨"dist"⟩
  /-- The number of levels of directories that are searched below a directory. -/
  scanDepth : UInt64 := 5
  /-- Patterns of paths that are left out. -/
  exclude : List String := []
deriving DecidableEq, Repr, Inhabited

/-- The settings of a project. -/
structure Settings where
  dialect : Dialect := {}
  build : Settings.Build := {}
deriving DecidableEq, Repr, Inhabited

namespace Settings

/-- Read a dialect from the section that describes it. -/
def dialectOf? (record : Toml.Record) : Option Dialect := do
  let standard : Dialect := {}
  guard (record.restFits [])
  return {
    tagPrefix := ← record.read 0 "tag_prefix" (·.asString?) standard.tagPrefix
    variablePrefix := ← record.read 1 "variable_prefix" (·.asString?) standard.variablePrefix
    opening := ← record.read 2 "placeholder_open" (·.asString?) standard.opening
    closing := ← record.read 3 "placeholder_close" (·.asString?) standard.closing
    reach := ← record.read 4 "placeholder_limit" (·.asWord?) standard.reach
    nameAttribute := ← record.read 5 "name_attribute" (·.asString?) standard.nameAttribute }

/-- Read how a project is built from the section that describes it. -/
def buildOf? (record : Toml.Record) : Option Build := do
  let standard : Build := {}
  guard (record.restFits [])
  return {
    extension := ← record.read 0 "extension" (·.asString?) standard.extension
    outDir := ← record.read 1 "out_dir" (fun value => value.asString?.map Path.mk) standard.outDir
    scanDepth := ← record.read 2 "scan_depth" (·.asWord?) standard.scanDepth
    exclude := ← record.read 3 "exclude" (·.asStrings?) standard.exclude }

/-- Read settings from the entries of a document, without a look at what they say. -/
def ofEntries? (entries : Toml.Entries) : Option Settings := do
  let document := Toml.Record.named entries
  guard (document.restFits ["syntax", "build"])
  return {
    dialect := ← document.read 0 "syntax" (fun value => Toml.Record.ofValue? value >>= dialectOf?) {}
    build := ← document.read 1 "build" (fun value => Toml.Record.ofValue? value >>= buildOf?) {} }

/-- What is wrong with settings.  The dialect is looked at first. -/
def fault? (settings : Settings) : Option Fault :=
  match settings.dialect.fault? with
  | some fault => some (.dialect fault)
  | none => if settings.build.extension = "" then some .emptyExtension else none

/-- The settings in a document. -/
def parse (document : String) : Except Fault Settings :=
  match Toml.parse document with
  | .error fault => .error (.document fault)
  | .ok entries =>
      match ofEntries? entries with
      | none => .error .wrongType
      | some settings =>
          match settings.fault? with
          | some fault => .error fault
          | none => .ok settings

/-- Where the settings of a project may lie, relative to its root.  The first file counts. -/
def fileNames : List Path :=
  [⟨"haste.toml"⟩, ⟨".haste.toml"⟩, ⟨".config/haste.toml"⟩]

end Settings

end Stencil
