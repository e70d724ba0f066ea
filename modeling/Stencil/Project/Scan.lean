import Stencil.Disk.Walk
import Stencil.Project.Layout

/-!
# Searching for pages

A directory is searched for pages level by level.  Hidden directories, the directory of the output
and what the layout excludes are passed over.  A directory that lies inside itself by way of links
is an error.  It is told from its canonical path, so that it is only noticed where there is one.
-/

namespace Stencil.Project

namespace Layout

variable (layout : Layout) (disk : Disk)

/-- Whether the search passes over an entry of a directory. -/
def passesOver (entry : Place) (name : Name) : Bool :=
  (isSkipped name.text && disk.isDirectory entry.toPath) ||
    entry = layout.outDir || layout.excludes entry.toPath

/-- The pages at an entry of a directory.  `enter` searches a directory. -/
def pagesAt (enter : Place → Except Error (List Place)) (directory : Place) (name : Name) :
    Except Error (List Place) :=
  let entry := directory.child name
  if layout.passesOver disk entry name then .ok []
  else if disk.isDirectory entry.toPath then enter entry
  else .ok (if layout.namesPage entry.toPath then [entry] else [])

/-- The pages in a directory.  `names` lists a directory, `above` are the canonical paths of the
directories that the search came through, and `enter` searches the directories inside with all these
above them. -/
def pagesIn (names : Disk.Location → List Name)
    (enter : (above : List Path) → Place → Except Error (List Place))
    (above : List Path) (directory : Place) : Except Error (List Place) := do
  let path := disk.canonical directory.toPath
  if path ∈ above then throw (.linkCycle directory)
  else
    match disk.find directory.toPath with
    | .error fault => throw (.disk fault)
    | .ok location =>
        if disk.get? location ≠ some .directory then throw (.disk .notADirectory)
        else
          let found ← (names location).mapM
            (layout.pagesAt disk (enter (path :: above)) directory)
          return found.flatten

/-- The pages in a directory and in the given number of levels below it. -/
def search (names : Disk.Location → List Name) :
    (levels : Nat) → (above : List Path) → Place → Except Error (List Place)
  | 0 => layout.pagesIn disk names fun _ _ => .ok []
  | levels + 1 => layout.pagesIn disk names (search names levels)

/-- Whether a place comes no later than another in the order of components. -/
def comesFirst (first second : Place) : Bool :=
  (compare first second).isLE

/-- The pages below a directory, in order. -/
def scan (directory : Place) : Except Error (List Place) :=
  (layout.search disk disk.names layout.scanDepth.toNat [] directory).map
    (List.mergeSort · comesFirst)

end Layout

end Stencil.Project
