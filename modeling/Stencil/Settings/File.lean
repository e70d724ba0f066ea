import Stencil.Disk.Walk
import Stencil.Settings

/-!
# The settings file of a project

The settings of a project lie in one of a few files in its root directory.
-/

namespace Stencil.Settings

/-- The settings file of the project at `root`, when there is one. -/
def find? (disk : Disk) (root : Path) : Option Path :=
  (fileNames.map root.join).find? disk.isFile

/-- The settings of the project at `root`, when there is a file with settings. -/
def load (disk : Disk) (root : Path) : Except Error (Option Settings) :=
  match find? disk root with
  | none => .ok none
  | some path =>
      match disk.readText path with
      | .error fault => .error (.disk fault)
      | .ok document =>
          match parse document with
          | .error fault => .error (.settings fault)
          | .ok settings => .ok (some settings)

end Stencil.Settings
