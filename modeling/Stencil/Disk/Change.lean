import Stencil.Disk.Walk

/-!
# Changing a disk

Directories and links are made and files are written at paths.  A change of one entry is made in
full or not at all.  The making of several directories may stop half-way, so it leaves a disk
behind whether it fails or not.
-/

namespace Stencil.Disk

/-- The location of the name at the end of components, in the directory that the other components
lead to.  The name need not be there, and a link with the name is not followed. -/
def slot (disk : Disk) (components : List Component) : Except Fault Location :=
  match components.getLast? with
  | some (.name name) =>
      match disk.arrive (components.dropLast.map .along ++ [.slash]) with
      | .error fault => .error fault
      | .ok location =>
          if nameLimit < name.text.utf8ByteSize then .error .nameTooLong
          else .ok (location ++ [name])
  | _ => disk.arrive (components.map .along)

/-- Put a new entry at the end of components. -/
def add (disk : Disk) (components : List Component) (entry : Entry) : Except Fault Disk :=
  match disk.slot components with
  | .error fault => .error fault
  | .ok location =>
      if (disk.get? location).isSome then .error .alreadyExists
      else .ok (disk.put location entry)

/-- Make a directory, unless there is one. -/
def ensureDirectory (disk : Disk) (components : List Component) : Except Fault Disk :=
  match disk.add components .directory with
  | .ok disk => .ok disk
  | .error fault =>
      match disk.arrive (components.map .along) with
      | .ok location => if disk.get? location = some .directory then .ok disk else .error fault
      | .error _ => .error fault

/-- Make the directory at the end of components, and those above it that are missing.  The
components are given from the last one to the first. -/
def ensureDirectories (disk : Disk) : (backwards : List Component) → Except Fault Unit × Disk
  | [] => (.ok (), disk)
  | component :: above =>
      let components := (component :: above).reverse
      match disk.ensureDirectory components with
      | .ok disk => (.ok (), disk)
      | .error .notFound =>
          match ensureDirectories disk above with
          | (.error fault, disk) => (.error fault, disk)
          | (.ok _, disk) =>
              match disk.ensureDirectory components with
              | .ok disk => (.ok (), disk)
              | .error fault => (.error fault, disk)
      | .error fault => (.error fault, disk)

/-- Make the directory at a path, and those above it that are missing. -/
def makeDirectories (disk : Disk) (path : Path) : Except Fault Unit × Disk :=
  if path.text = "" then (.ok (), disk)
  else
    match path.fault? with
    | some fault => (.error fault, disk)
    | none => disk.ensureDirectories path.components.reverse

/-- Where a file at a path lies, or would lie. -/
def target (disk : Disk) (path : Path) : Except Fault Location :=
  match path.fault? with
  | some fault => .error fault
  | none =>
      match disk.landing .makeFile path.steps with
      | .error fault => .error fault
      | .ok (.vacant location) => .ok location
      | .ok (.entry location) =>
          if disk.get? location = some .directory then .error .isADirectory else .ok location

/-- Write the file at a path, and make it if it is missing. -/
def write (disk : Disk) (path : Path) (content : ByteArray) : Except Fault Disk :=
  (disk.target path).map fun location => disk.put location (.file content)

/-- Make a link at a path. -/
def addLink (disk : Disk) (path target : Path) : Except Fault Disk :=
  match target.fault?.or path.fault? with
  | some fault => .error fault
  | none => disk.add path.components (.link target)

/-- Take away what lies at a path.  A link is taken away itself. -/
def removeAt (disk : Disk) (path : Path) : Except Fault Disk :=
  match path.fault? with
  | some fault => .error fault
  | none => (disk.slot path.components).map disk.remove

/-- The files at or below a location, in order.  Links are not followed. -/
def files (disk : Disk) (location : Location) : List (Location × ByteArray) :=
  disk.entries.toList.filterMap fun
    | (other, .file content) => if location.isPrefixOf other then some (other, content) else none
    | _ => none

end Stencil.Disk
