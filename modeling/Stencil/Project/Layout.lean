import Stencil.Glob.Expression
import Stencil.Glob.Parse
import Stencil.Settings

/-!
# The layout of a project

A layout says where a project lies, which files below its root are pages, and which file the
output of each page goes to.  All its questions are answered from the paths alone.  It also keeps
what pages are rendered with.
-/

namespace Stencil.Project

/-- Where a project lies, and which of its files are pages. -/
structure Layout where
  root : Place
  /-- The directory of the output. -/
  outDir : Place
  /-- The ending of the names of pages. -/
  extension : String
  /-- The number of levels of directories that are searched below a directory. -/
  scanDepth : UInt64
  /-- Patterns of the paths that are left out, relative to the root. -/
  exclude : List Glob.Pattern
  dialect : Dialect
  /-- The number of levels of templates that a build has room for on its stack.  No setting says it: it
  is what the machine gives. -/
  room : Nat

namespace Layout

/-- The ending of the names of output files. -/
def outputExtension : String := "html"

/-- Read a text as a pattern. -/
def pattern (text : String) : Except Settings.Fault Glob.Pattern :=
  match Glob.parse text with
  | .ok pattern => .ok pattern
  | .error fault => .error (.badPattern text fault)

/-- What is wrong with patterns together.  Those that end in an extension are looked at first, each
on its own, and then the others that are matched by regular expressions, all at once. -/
def patternsFault? (patterns : List Glob.Pattern) : Option Settings.Fault :=
  let ofExtension := patterns.filter fun pattern =>
    match Glob.Pattern.means pattern with
    | .expression (some _) => Glob.Pattern.isTooDeep pattern
    | _ => false
  match ofExtension with
  | pattern :: _ => some (.deepPattern (Glob.Pattern.expression pattern))
  | [] =>
      let others := patterns.filter (Glob.Pattern.means · = .expression none)
      (others.findIdx? Glob.Pattern.isTooDeep).map .deepPatterns

/-- Read exclusion patterns.  The first text that is not a pattern is reported. -/
def patterns (texts : List String) : Except Settings.Fault (List Glob.Pattern) := do
  let found ← texts.mapM pattern
  match patternsFault? found with
  | some fault => throw fault
  | none => return found

/-- The layout of the project at `root` with given settings, on a machine with the given room. -/
def ofSettings (room : Nat) (root : Place) (settings : Settings) :
    Except Settings.Fault Layout := do
  let exclude ← patterns settings.build.exclude
  return {
    root
    outDir := root.resolve settings.build.outDir
    extension := settings.build.extension
    scanDepth := settings.build.scanDepth
    exclude
    dialect := settings.dialect
    room }

/-- The place that a path leads to from the root of the project. -/
def resolve (layout : Layout) (path : Path) : Place :=
  layout.root.resolve path

/-- Send the output to another directory. -/
def withOutDir (layout : Layout) (path : Path) : Layout :=
  { layout with outDir := layout.resolve path }

/-- Whether a path has the name of a page. -/
def namesPage (layout : Layout) (path : Path) : Bool :=
  path.fileName?.any (·.text.endsWith layout.extension)

/-- Whether a path is left out.  Paths below the root are looked at from there. -/
def excludes (layout : Layout) (path : Path) : Bool :=
  let seen := (path.relativeTo? layout.root.toPath).getD path
  layout.exclude.any (Glob.Pattern.describes · seen.text)

/-- The path of a page from the root, or its name alone when it lies elsewhere. -/
def relativePath (layout : Layout) (page : Place) : Path :=
  match page.after? layout.root with
  | some components => .ofComponents components
  | none => ⟨(page.fileName?.map Name.text).getD ""⟩

/-- The output of a page, relative to the directory of the output. -/
def relativeOutput (layout : Layout) (page : Place) : Path :=
  let path := layout.relativePath page
  match Text.dropSuffix? path.text layout.extension with
  | some stem => ⟨stem ++ "." ++ outputExtension⟩
  | none => path.withExtension outputExtension

/-- The file that the output of a page goes to. -/
def outputPath (layout : Layout) (page : Place) : Path :=
  layout.outDir.toPath.join (layout.relativeOutput page)

/-- The file that a build of a page writes.  The build starts from the root again to find it, which
makes a difference when the root is not an absolute place. -/
def destination (layout : Layout) (page : Place) : Path :=
  layout.outputPath (layout.resolve page.toPath)

end Layout

/-- Whether directories with a name are never searched for pages. -/
def isSkipped (name : String) : Bool :=
  name.startsWith "." || name == "node_modules"

end Stencil.Project
