import Stencil.Proofs.Project.Records

/-!
# Runs of operations

Whatever is done with a project and its disk, the project keeps its layout and finds its templates
where it did.  When its root is absolute, so are all pages that come to be known.
-/

namespace Stencil.Project

variable {project after : Project} {disk : Disk} {path : Path} {site : Site}

/-- The layout and the templates stay the same, and pages that come to be known are absolute when the
root is. -/
structure Widens (project after : Project) : Prop where
  layout : after.layout = project.layout
  templates : after.templates = project.templates
  known : project.layout.root.Absolute → ∀ page, after.knows page = true →
    project.knows page = true ∨ page.Absolute

namespace Widens

theorem refl (project : Project) : project.Widens project :=
  ⟨rfl, rfl, fun _ _ => .inl⟩

theorem trans {middle : Project} (first : project.Widens middle) (last : middle.Widens after) :
    project.Widens after := by
  refine ⟨last.layout.trans first.layout, last.templates.trans first.templates, ?_⟩
  intro absolute page known
  rcases last.known (by rwa [first.layout]) page known with before | rooted
  · exact first.known absolute page before
  · exact .inr rooted

theorem registerAll {sources : List Place}
    (absolute : project.layout.root.Absolute → ∀ source ∈ sources, source.Absolute) :
    project.Widens (project.registerAll sources).2 := by
  obtain ⟨layout, templates⟩ := registerAll_same project sources
  refine ⟨layout, templates, fun rooted page known => ?_⟩
  rcases knows_registerAll.mp known with listed | before
  · exact .inr (absolute rooted page listed)
  · exact .inl before

theorem register {source : Place} (absolute : project.layout.root.Absolute → source.Absolute) :
    project.Widens (project.register source) :=
  @registerAll project [source] fun rooted other member => by
    rw [List.mem_singleton.mp member]
    exact absolute rooted

theorem loadPath {count : Nat} (loaded : project.loadPath disk path = .ok (count, after)) :
    project.Widens after := by
  rw [loadPath_eq] at loaded
  cases stands : project.layout.standsFor disk path with
  | error error =>
      rw [stands] at loaded
      cases loaded
  | ok pages =>
      rw [stands] at loaded
      have widens := @registerAll project pages fun rooted =>
        project.layout.absolute_of_standsFor rooted stands
      rwa [Except.ok.inj loaded] at widens

theorem loadPaths (project : Project) (disk : Disk) (paths : List Path) :
    project.Widens (project.loadPaths disk paths).2 :=
  loadPaths_keeps refl trans loadPath project paths

theorem record (source : Place) (dependencies : Std.ExtTreeSet Place) :
    project.Widens (project.record source dependencies) := by
  refine ⟨layout_record _, templates_record _, fun _ page known => .inl ?_⟩
  rwa [knows_record] at known

theorem follow (batch : Batch) (schedule : List Nat) :
    batch.site.project.Widens (batch.follow schedule).site.project := by
  refine Batch.follow_keeps (fun later => batch.site.project.Widens later.site.project)
    (fun later number task widens held => ?_) (refl _) schedule
  rw [Batch.advance_of_task held]
  rcases later.site.project_turn_cases (later.site.place task.source) task.stage with
    ⟨rendered, -, turned⟩ | ⟨same, -⟩
  · rw [turned]
    exact widens.trans (record _ _)
  · rwa [same]

theorem build (site : Site) (page : Place) : site.project.Widens (site.build page).2.project := by
  unfold Site.build
  cases site.project.render site.disk page with
  | error error => exact refl _
  | ok rendered => exact record _ _

theorem buildToFile (site : Site) (page : Place) :
    site.project.Widens (site.buildToFile page).2.project := by
  unfold Site.buildToFile
  cases site.project.render site.disk page with
  | error error => exact refl _
  | ok rendered =>
      dsimp only
      unfold Site.finish
      generalize site.project.layout.writeOutput site.disk page rendered.content = written
      rcases written with ⟨fault | output, disk⟩
      · exact refl _
      · exact record _ _

theorem concerned (site : Site) (path : Path) :
    site.project.Widens (site.concerned path).1 := by
  unfold Site.concerned
  dsimp only
  split
  · exact register fun rooted => rooted.resolve _
  · exact refl _

/-- No operation makes any other pages known. -/
theorem perform (site : Site) (operation : Operation) :
    site.project.Widens (site.perform operation).project := by
  unfold Site.perform
  cases operation with
  | loadPath path =>
      dsimp only
      cases loaded : site.project.loadPath site.disk path with
      | error error => exact refl _
      | ok found => exact loadPath loaded
  | loadPaths paths => exact loadPaths _ _ paths
  | scan path => exact refl _
  | register path => exact register fun rooted => rooted.resolve path
  | build path => exact build site _
  | buildToFile path => exact buildToFile site _
  | buildMany sources schedule => exact follow (.start site sources) schedule
  | buildAll schedule =>
      exact follow (.start site (site.project.pages.keys.map Place.toPath)) schedule
  | notifyChange path schedule =>
      have widens := concerned site path
      dsimp only
      generalize site.concerned path = concerned at widens ⊢
      exact widens.trans (follow (.start { site with project := concerned.1 } concerned.2) schedule)
  | change disk => exact refl _

/-- No run of operations does. -/
theorem run (site : Site) (operations : List Operation) :
    site.project.Widens (site.run operations).2.project := by
  induction operations generalizing site with
  | nil => exact refl _
  | cons operation rest ih => exact (perform site operation).trans (ih (site.perform operation))

end Widens

/-- A site comes about when a project that knows no pages yet is used on a disk. -/
def Site.Arises (site : Site) : Prop :=
  ∃ layout templates disk operations,
    site = ((⟨{ layout, templates }, disk⟩ : Site).run operations).2

namespace Site.Arises

/-- Pages are known under their own places. -/
theorem keyed (arises : site.Arises) (key : Place) (page : Page)
    (found : site.project.pages[key]? = some page) : page.source = key := by
  obtain ⟨layout, templates, disk, operations, rfl⟩ := arises
  have accounts := @Accounts.run [] ⟨{ layout, templates }, disk⟩ (.start layout templates) operations
  exact (accounts.keyed key page found).1

/-- The pages of a project with an absolute root are absolute. -/
theorem pageAbsolute (arises : site.Arises) (absolute : site.project.layout.root.Absolute)
    {page : Place} (known : site.project.knows page = true) : page.Absolute := by
  obtain ⟨layout, templates, disk, operations, rfl⟩ := arises
  have widens := Widens.run ⟨{ layout, templates }, disk⟩ operations
  rw [widens.layout] at absolute
  refine (widens.known absolute page known).resolve_left ?_
  simp [knows]

end Site.Arises

end Stencil.Project
