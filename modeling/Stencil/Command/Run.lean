import Stencil.Command.Grammar
import Stencil.Command.Report

/-!
# Running the program

A run reads the command line, opens the project and carries out the task.  What cannot be started
ends with exit code 2 and leaves the disk as it is.  A build of which a page fails ends with exit
code 1.  A run whose stack is full is ended by the system, and has no exit code.
-/

namespace Stencil.Command

/-- What a run leaves behind. -/
structure Run where
  /-- The code that the program ends with, unless the system ends it. -/
  exitCode : Option Nat
  output : String := ""
  /-- Lines on the channel for errors. -/
  notes : List String := []
  disk : Disk
  /-- The project as it was at the end, when it could be opened. -/
  project : Option Project := none

/-- A path from the root of the disk, without steps on the spot.  A slash at its end stays. -/
def absolute (disk : Disk) (path : Path) : Path :=
  let start := if path.isAbsolute then [] else Component.root :: disk.here.map .name
  let kept := Path.ofComponents (start ++ path.components.filter (· ≠ .current))
  if path.text.toList.getLast? = some '/' then kept.join ⟨""⟩ else kept

/-- A path from the root of the disk, without links when it leads anywhere. -/
def canonical (disk : Disk) (path : Path) : Path :=
  disk.canonical (absolute disk path)

/-- The root of the project: the one that is given, or else a directory that is the only path, or
else the working directory. -/
def rootOf (disk : Disk) (given : Option Path) (paths : List Path) : Path :=
  match given, paths with
  | some root, _ => canonical disk root
  | none, [path] =>
      if disk.isDirectory path then canonical disk path else canonical disk disk.here.toPath
  | none, _ => canonical disk disk.here.toPath

/-- Open the project at `root`, with another directory for the output when one is given. -/
def openProject (room : Nat) (disk : Disk) (root : Path) (out : Option Path) :
    Except Error Project := do
  let project ← Project.load room disk root
  match out with
  | none => return project
  | some out => return { project with layout := project.layout.withOutDir (canonical disk out) }

/-- Make known the pages at paths, or all pages when there are no paths. -/
def loadPages (disk : Disk) (root : Path) (project : Project) (paths : List Path) :
    Except Error Project :=
  match paths with
  | [] => (project.loadPath disk root).map Prod.snd
  | _ =>
      match project.loadPaths disk (paths.map (canonical disk)) with
      | (.ok _, project) => .ok project
      | (.error error, _) => .error error

/-- Open a project, and make known the pages at paths. -/
def start (room : Nat) (disk : Disk) (root : Path) (out : Option Path) (paths : List Path) :
    Except Error Project := do
  loadPages disk root (← openProject room disk root out) paths

/-- A run that could not be started. -/
def refused (disk : Disk) (error : Error) : Run where
  exitCode := some 2
  notes := ["error: " ++ error.message]
  disk

/-- A run that the system ends when the stack is full. -/
def killed (disk : Disk) : Run where
  exitCode := none
  notes := [Error.tooDeep.message]
  disk

/-- The end of a run that built pages. -/
def finished (root : Path) (format : Format) (report : Project.Report) (site : Project.Site) :
    Run where
  exitCode := some (if report.isOk then 0 else 1)
  output :=
    match format with
    | .text => unlines (reportLines root report)
    | .json => unlines [reportJson root report]
  notes :=
    match format with
    | .text => failureLines root report
    | .json => []
  disk := site.disk
  project := some site.project

/-- The end of a run that has nothing to show for an error. -/
def failed (disk : Disk) : Error → Run
  | .tooDeep => killed disk
  | error => refused disk error

/-- The end of a run that built pages, unless there was no room for one of them. -/
def concluded (root : Path) (format : Format) (report : Option Project.Report)
    (site : Project.Site) : Run :=
  match report with
  | some report => finished root format report site
  | none => killed site.disk

/-- Build the pages at paths, or all pages. -/
def build (room : Nat) (disk : Disk) (root? : Option Path) (paths : List Path)
    (out : Option Path) (format : Format) : Run :=
  let root := rootOf disk root? paths
  match start room disk root out paths with
  | .error error => refused disk error
  | .ok project =>
      let (report, site) := Project.Site.buildAll ⟨project, disk⟩
      concluded root format report site

/-- Show the output of the page at a path. -/
def render (room : Nat) (disk : Disk) (root? : Option Path) (file : Path) : Run :=
  match openProject room disk (rootOf disk root? []) none with
  | .error error => refused disk error
  | .ok project =>
      match Project.Site.build ⟨project, disk⟩ (project.layout.resolve (canonical disk file)) with
      | (.error error, _) => failed disk error
      | (.ok output, site) =>
          { exitCode := some 0, output, disk := site.disk, project := some site.project }

/-- What the program says when it is given nothing to do. -/
def noTask : String :=
  "No subcommand specified. Run `haste --help` for usage."

/-- The version of the program. -/
def version : String :=
  "haste_cli 0.3.0"

/-- How the program is used. -/
def usage : List String :=
  ["Usage: haste [--root PATH] [--verbose] [--no-color] COMMAND",
    "",
    "  build [PATHS] [--out PATH] [--format text|json]",
    "  watch [PATHS] [--out PATH]",
    "  render FILE"]

/-- Carry out what the arguments ask for.  Watching begins with a build. -/
def perform (room : Nat) (disk : Disk) (arguments : Arguments) : Run :=
  match arguments.task with
  | none => { exitCode := some 2, notes := [noTask], disk }
  | some (.build paths out format) => build room disk arguments.root paths out format
  | some (.watch paths out) => build room disk arguments.root paths out .text
  | some (.render file) => render room disk arguments.root file

/-- Run the program with a command line, on a machine with the given room. -/
def run (room : Nat) (disk : Disk) (line : List String) : Run :=
  match read line with
  | .ok arguments => perform room disk arguments
  | .error stop =>
      { exitCode := some stop.exitCode
        output :=
          match stop with
          | .help => unlines usage
          | .version => unlines [version]
          | _ => ""
        notes := if stop.exitCode = 0 then [] else usage
        disk }

end Stencil.Command
