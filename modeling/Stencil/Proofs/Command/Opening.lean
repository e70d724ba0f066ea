import Stencil.Command.Run
import Stencil.Proofs.Project.Runs

/-!
# Opening projects

The program follows all paths that it is given from the root of the disk.  So the layout of a project
that it opens is absolute, and so are the pages that it makes known.
-/

namespace Stencil

namespace Path

theorem isAbsolute_ofComponents_root (components : List Component) :
    (ofComponents (.root :: components)).isAbsolute = true := by
  simp [isAbsolute, toList_ofComponents_root]

/-- An absolute path begins at the root. -/
theorem components_of_isAbsolute {path : Path} (absolute : path.isAbsolute = true) :
    ∃ rest, path.components = .root :: rest := by
  unfold components opening
  cases written : path.text.toList with
  | nil => simp [isAbsolute, written] at absolute
  | cons c rest =>
      obtain rfl : c = '/' := by simpa [isAbsolute, written] using absolute
      exact ⟨_, rfl⟩

end Path

namespace Command

variable {room : Nat} {disk : Disk} {project after : Project} {root path : Path}
  {out : Option Path}

theorem isAbsolute_absolute (disk : Disk) (path : Path) :
    (absolute disk path).isAbsolute = true := by
  have kept : (Path.ofComponents ((if path.isAbsolute then []
      else Component.root :: disk.here.map .name) ++
        path.components.filter (· ≠ .current))).isAbsolute = true := by
    by_cases rooted : path.isAbsolute = true
    · obtain ⟨rest, components⟩ := Path.components_of_isAbsolute rooted
      rw [if_pos rooted, components]
      exact Path.isAbsolute_ofComponents_root _
    · rw [if_neg rooted]
      exact Path.isAbsolute_ofComponents_root _
  unfold absolute
  dsimp only
  split
  · rw [Path.isAbsolute_join, kept, Bool.or_true]
  · exact kept

theorem isAbsolute_canonical (disk : Disk) (path : Path) :
    (canonical disk path).isAbsolute = true := by
  unfold canonical Disk.canonical
  split
  · exact Path.isAbsolute_ofComponents_root _
  · exact isAbsolute_absolute disk path

theorem isAbsolute_rootOf (disk : Disk) (given : Option Path) (paths : List Path) :
    (rootOf disk given paths).isAbsolute = true := by
  unfold rootOf
  split
  · exact isAbsolute_canonical disk _
  · split <;> exact isAbsolute_canonical disk _
  · exact isAbsolute_canonical disk _

/-- A project as it is opened, before any page is known. -/
structure Blank (project : Project) : Prop where
  absolute : project.layout.Absolute
  files : project.templates = .files
  pages : project.pages = ∅

/-- A project that the program opens is blank. -/
theorem blank_of_openProject (rooted : root.isAbsolute = true)
    (opened : openProject room disk root out = .ok project) : Blank project := by
  have absoluteRoot := Place.absolute_ofPath rooted
  have loaded : ∀ project, Project.load room disk root = .ok project → Blank project := by
    intro project loaded
    unfold Project.load at loaded
    cases settings : Settings.load disk root with
    | error error =>
        rw [settings] at loaded
        cases loaded
    | ok settings? =>
        rw [settings] at loaded
        cases described : Project.Layout.ofSettings room (.ofPath root) (settings?.getD {}) with
        | error fault =>
            simp only [bind, Except.bind, described] at loaded
            cases loaded
        | ok layout =>
            simp only [bind, Except.bind, described] at loaded
            cases loaded
            exact ⟨Project.Layout.absolute_ofSettings absoluteRoot described, rfl, rfl⟩
  unfold openProject at opened
  cases found : Project.load room disk root with
  | error error =>
      rw [found] at opened
      cases opened
  | ok first =>
      have blank := loaded first found
      rw [found] at opened
      cases out with
      | none =>
          cases opened
          exact blank
      | some out =>
          rw [← Except.ok.inj opened]
          exact ⟨blank.absolute.withOutDir _, blank.files, blank.pages⟩

/-- A project that is ready to be built has an absolute layout and absolute pages. -/
structure Ready (project : Project) : Prop where
  absolute : project.layout.Absolute
  known : ∀ page, project.knows page = true → page.Absolute

section

-- Both sides have the same call of it, which is not to be searched for a difference.
attribute [local irreducible] loadPages

/-- Once the project is open, what is left is to load its pages. -/
theorem start_of_openProject (opened : openProject room disk root out = .ok project)
    (paths : List Path) :
    start room disk root out paths = loadPages disk root project paths := by
  unfold start
  rw [opened]
  rfl

end

theorem ready_of_start {given : Option Path} {paths : List Path}
    (started : start room disk (rootOf disk given paths) out paths = .ok project) : Ready project := by
  cases opened : openProject room disk (rootOf disk given paths) out with
  | error error =>
      rw [start, opened] at started
      cases started
  | ok blank =>
      have first := blank_of_openProject (isAbsolute_rootOf disk given paths) opened
      have ready : ∀ after, blank.Widens after → Ready after := by
        intro after widens
        refine ⟨by rw [widens.layout]; exact first.absolute, fun page known => ?_⟩
        refine (widens.known first.absolute.root page known).resolve_left ?_
        simp [Project.knows, first.pages]
      rw [start_of_openProject opened, loadPages.eq_def] at started
      split at started
      · cases loaded : blank.loadPath disk (rootOf disk given []) with
        | error error =>
            rw [loaded] at started
            cases started
        | ok found =>
            rw [loaded] at started
            cases started
            exact ready _ (.loadPath loaded)
      · split at started
        next loaded =>
          cases started
          have widens := Project.Widens.loadPaths blank disk (paths.map (canonical disk))
          rw [loaded] at widens
          exact ready _ widens
        · cases started

section

variable {line : List String} {arguments : Arguments}

theorem run_render (accepted : read line = .ok arguments)
    (asked : arguments.task = some (.render path)) :
    run room disk line = render room disk arguments.root path := by
  rw [run, accepted]
  dsimp only
  rw [perform, asked]

theorem run_build {paths : List Path} {format : Format}
    (accepted : read line = .ok arguments)
    (asked : arguments.task = some (.build paths out format)) :
    run room disk line = build room disk arguments.root paths out format := by
  rw [run, accepted]
  dsimp only
  rw [perform, asked]

end

end Command

end Stencil
