import Stencil.Command.Run

/-!
# The program

The program takes in the part of the disk that a command line is about, runs the command on it,
and carries out on the real disk what changed.
-/

namespace Stencil.Main

/-- The levels of templates that the program has room for on its stack. -/
def room : Nat := 4096

/-- The exit code of a program that the system ends. -/
def endedBySystem : Nat := 134

/-- Where links go that lead nowhere. -/
def nowhere : Path :=
  ⟨"/\x00"⟩

/-- The location that an absolute path spells out. -/
def locationOf (path : String) : Disk.Location :=
  Path.components ⟨path⟩ |>.filterMap fun
    | .name name => some name
    | _ => none

/-- Put an entry on a disk, with the directories above it. -/
def putAt (disk : Disk) (location : Disk.Location) (entry : Disk.Entry) : Disk :=
  let above := (List.range location.length).map location.take
  (above.foldl (fun disk directory => disk.put directory .directory) disk).put location entry

/-- Take in the entry at an absolute path without links, with all that lies below it and all that
links there lead to. -/
partial def takeIn (disk : Disk) (path : String) : IO Disk := do
  let location := locationOf path
  if (disk.get? location).any (· ≠ .directory) then
    return disk
  match ← (IO.FS.realPath path >>= (·.readDir)).toBaseIO with
  | .error _ =>
      match ← (IO.FS.readBinFile path).toBaseIO with
      | .error _ => return disk
      | .ok content => return putAt disk location (.file content)
  | .ok entries =>
      let mut disk := putAt disk location .directory
      for entry in entries do
        let inside := if path = "/" then "/" ++ entry.fileName else path ++ "/" ++ entry.fileName
        match ← (IO.FS.realPath inside).toBaseIO with
        | .error _ => disk := putAt disk (locationOf inside) (.link nowhere)
        | .ok real =>
            if real.toString = inside then
              disk ← takeIn disk inside
            else
              disk := putAt disk (locationOf inside) (.link ⟨real.toString⟩)
              if (disk.get? (locationOf real.toString)).isNone then
                disk ← takeIn disk real.toString
      return disk

/-- Take in what a path given to the program leads to, when it leads anywhere. -/
def takeInGiven (disk : Disk) (path : Path) : IO Disk := do
  match ← (IO.FS.realPath path.text).toBaseIO with
  | .error _ => return disk
  | .ok real =>
      if (disk.get? (locationOf real.toString)).isSome then
        return disk
      else
        takeIn disk real.toString

/-- The paths that a command line names. -/
def pathsOf (arguments : Command.Arguments) : List Path :=
  arguments.root.toList ++
    match arguments.task with
    | none => []
    | some (.build paths out _) | some (.watch paths out) => out.toList ++ paths
    | some (.render file) => [file]

/-- Carry out on the real disk what a run changed. -/
def putBack (before after : Disk) : IO Unit := do
  for (location, entry) in after.entries.toList do
    let path := (Disk.Location.toPath location).text
    match entry with
    | .directory =>
        -- A directory that was not taken in may be there already.
        if (before.get? location).isNone then
          discard (IO.FS.createDir path).toBaseIO
    | .file content =>
        if before.get? location ≠ some entry then
          IO.FS.writeBinFile path content
    | .link _ => pure ()

/-- Take in the working directory, and what the command line names. -/
def takeInAll (line : List String) : IO Disk := do
  let here := (← IO.currentDir).toString
  let disk ← takeIn .empty here
  let disk := { disk with here := locationOf here }
  match Command.read line with
  | .error _ => return disk
  | .ok arguments => (pathsOf arguments).foldlM takeInGiven disk

end Stencil.Main

/-- Run the program.  A build does not wait for changes of files, so that watching ends with the
first build. -/
def main (line : List String) : IO UInt32 := do
  let disk ← Stencil.Main.takeInAll line
  let run := Stencil.Command.run Stencil.Main.room disk line
  Stencil.Main.putBack disk run.disk
  IO.print run.output
  for note in run.notes do
    IO.eprintln note
  return (run.exitCode.getD Stencil.Main.endedBySystem).toUInt32
