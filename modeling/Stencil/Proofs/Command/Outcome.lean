import Stencil.Proofs.Command.Report
import Stencil.Proofs.Project.Accounts
import Stencil.Proofs.Project.Publishing

/-!
# Outcomes of builds

A build that cannot be started says so and leaves the disk as it is.  Any other build attempts every
page that is known, whatever comes of the others, and reports what came of each.  This does not
depend on the order in which the tasks of the build take their turns.  When there is no room for one
of them, the system ends the program before there is a report.
-/

namespace Stencil

namespace Project

/-- The pages of a project are asked for once. -/
theorem Site.nodup_sources (site : Site) : site.sources.Nodup := by
  refine List.pairwise_map.mpr ((nodup_keys site.project).imp fun {page other} differ same => ?_)
  rw [← Place.ofPath_toPath page, same, Place.ofPath_toPath other] at differ
  exact differ rfl

theorem Site.length_sources (site : Site) : site.sources.length = site.project.pages.size := by
  rw [sources, List.length_map, Std.ExtTreeMap.length_keys]

end Project

namespace Command

open Project

variable {room : Nat} {disk : Disk} {root : Path} {out : Option Path} {paths : List Path}
  {format : Format}

/-- A build cannot be started: the project cannot be opened, or some page cannot be made known. -/
def Refuses (room : Nat) (disk : Disk) (root : Path) (out : Option Path) (paths : List Path)
    (error : Error) : Prop :=
  openProject room disk root out = .error error ∨
    ∃ project, openProject room disk root out = .ok project ∧
      loadPages disk root project paths = .error error

theorem start_error {error : Error} (failed : start room disk root out paths = .error error) :
    Refuses room disk root out paths error := by
  cases opened : openProject room disk root out with
  | error other =>
      rw [start, opened] at failed
      exact .inl (opened.trans failed)
  | ok project =>
      rw [start_of_openProject opened] at failed
      exact .inr ⟨project, opened, failed⟩

/-- The run of a build whose tasks take turns in some order. -/
def interleaved (root : Path) (format : Format) (first : Site) (schedule : List Nat) : Run :=
  let batch := (Batch.start first first.sources).follow schedule
  finished root format batch.report batch.site

/-- A build has attempted all pages that were known, and tells what came of each. -/
structure Completes (first : Site) (root : Path) (format : Format) (schedule : List Nat)
    (batch : Batch) (ended : Run) : Prop where
  accounts : batch.Accounts first first.sources schedule
  total : batch.report.written.length + batch.report.failures.length = first.project.pages.size
  tells : ∃ written failed, Tells root format batch.report written failed ended
  code : ended.exitCode = some 0 ∧ (∀ outcome ∈ batch.outcomes, ∃ path, outcome.2 = .ok path) ∨
    ended.exitCode = some 1 ∧ ∃ source error, (source, .error error) ∈ batch.outcomes
  disk : ended.disk = batch.site.disk

/-- The report of a batch that accounts for its pages has straight paths, if the pages do. -/
theorem lists_of_accounts {first : Site} {sources : List Path} {schedule : List Nat}
    {batch : Batch} (accounts : batch.Accounts first sources schedule)
    (straight : ∀ source ∈ sources, Straight source) : Lists batch.report := by
  constructor
  · intro path member
    rw [accounts.written.mem_iff, List.mem_filterMap] at member
    obtain ⟨⟨source, outcome⟩, listed, built⟩ := member
    obtain rfl : outcome = .ok path := ok_of_toOption built
    obtain ⟨-, location, -, landed, -⟩ := accounts.there source path listed
    exact ⟨_, Place.absolute_root location, landed⟩
  · intro failure member
    rw [accounts.failures.mem_iff, List.mem_filterMap] at member
    obtain ⟨⟨source, error | path⟩, listed, same⟩ := member
    · obtain rfl := Option.some.inj same
      apply straight
      rw [← accounts.once]
      exact List.mem_map_of_mem listed
    · cases same

theorem completes_interleaved {first : Site} {schedule : List Nat}
    (rooted : root.isAbsolute = true) (ready : Ready first.project) (plain : first.disk.Plain)
    (ended : ((Batch.start first first.sources).follow schedule).Finished) :
    Completes first root format schedule ((Batch.start first first.sources).follow schedule)
      (interleaved root format first schedule) := by
  have accounts := Batch.accounts_of_finished ready.absolute plain ended
  unfold interleaved
  dsimp only
  generalize (Batch.start first first.sources).follow schedule = batch at accounts ⊢
  have straight : ∀ source ∈ first.sources, Straight source := by
    intro source member
    obtain ⟨page, known, rfl⟩ := List.mem_map.mp member
    exact ⟨page, ready.known page (Std.ExtTreeMap.mem_keys.mp known), rfl⟩
  have tells := finished_tells rooted (lists_of_accounts accounts straight) format batch.site
  refine ⟨accounts, ?_, ⟨_, _, tells⟩, ?_, rfl⟩
  · rw [accounts.total, Site.length_sources]
  · have code := tells.code
    simp only [List.map_eq_nil_iff] at code
    by_cases all : batch.report.failures = []
    · left
      refine ⟨by rw [code, if_pos all], ?_⟩
      rintro ⟨source, error | path⟩ member
      · have failed : (⟨source, error⟩ : Failure) ∈ batch.report.failures := by
          rw [accounts.failures.mem_iff, List.mem_filterMap]
          exact ⟨_, member, rfl⟩
        rw [all] at failed
        cases failed
      · exact ⟨path, rfl⟩
    · right
      refine ⟨by rw [code, if_neg all], ?_⟩
      obtain ⟨failure, failed⟩ := List.exists_mem_of_ne_nil _ all
      rw [accounts.failures.mem_iff, List.mem_filterMap] at failed
      obtain ⟨⟨source, error | path⟩, member, same⟩ := failed
      · exact ⟨source, error, member⟩
      · cases same

/-- A build runs as one whose tasks take their turns one after the other. -/
theorem build_eq_interleaved {given : Option Path} {project : Project}
    (started : start room disk (rootOf disk given paths) out paths = .ok project) :
    let first : Site := ⟨project, disk⟩
    let schedule := Batch.sequence 0 first.sources.length
    let batch := (Batch.start first first.sources).follow schedule
    build room disk given paths out format =
      if batch.Overflows then killed batch.site.disk
      else interleaved (rootOf disk given paths) format first schedule := by
  have same := Batch.buildMany_eq_sequence ⟨project, disk⟩ (Site.sources ⟨project, disk⟩)
  unfold build interleaved
  dsimp only
  rw [started]
  dsimp only
  rw [Site.buildAll, ← Site.sources, same]
  split <;> rfl

/-- Two pages at `/r`, of which the first one fails. -/
def uneven : Disk :=
  .ofFiles [(⟨"/r/i.haste.html"⟩, "</t:a>"), (⟨"/r/j.haste.html"⟩, "1")]

theorem plain_uneven : uneven.Plain :=
  Disk.plain_ofFiles (by decide)

section

-- The files are not to be written out where the disk is compared.
attribute [local irreducible] uneven

end

end Command

end Stencil
