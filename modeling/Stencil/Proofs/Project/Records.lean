import Stencil.Proofs.Project.Batches
import Stencil.Proofs.Project.Settling

/-!
# What a project remembers

A project is used for as long as a run of operations lasts: pages are made known, built alone or in
batches, and the disk changes in between.  A log of the run says which pages became known and which
builds have succeeded.  What the project remembers in the end can be read off the log.
-/

namespace Stencil.Project

open Render

/-- What a log tells of a run. -/
inductive Deed where
  /-- A page has become known. -/
  | registered (page : Place)
  /-- A build of a page has succeeded, and used the templates at some places. -/
  | built (page : Place) (dependencies : Std.ExtTreeSet Place)

namespace Deed

/-- The places that a build of a page has used, when a deed is a build of it. -/
def ofPage? (page : Place) : Deed → Option (Std.ExtTreeSet Place)
  | registered _ => none
  | built other dependencies => if other = page then some dependencies else none

/-- The pages that one project knows and another one does not. -/
def arrivals (before after : Project) : List Deed :=
  (after.pages.keys.filter fun page => !before.knows page).map registered

/-- The build of a page from a site with an outcome. -/
def ofBuild {α : Type} (site : Site) (page : Place) (outcome : Except Error α) : List Deed :=
  match outcome, site.project.render site.disk page with
  | .ok _, .ok rendered => [built page rendered.dependencies]
  | _, _ => []

end Deed

/-- The rendered page that a build has come with to a stage. -/
def Stage.page? : Stage → Option Rendered
  | rendered page => some page
  | prepared page => some page
  | written page => some page
  | _ => none

namespace Batch

/-- The build that succeeds with the next turn of a task. -/
def deedsAt (batch : Batch) (number : Nat) : List Deed :=
  match batch.tasks[number]? with
  | none => []
  | some task =>
      let page := batch.site.project.layout.resolve task.source
      match task.stage.page?, (batch.site.turn page task.stage).1 with
      | some rendered, .done (.ok _) => [.built page rendered.dependencies]
      | _, _ => []

/-- The builds that succeed while tasks take turns. -/
def deeds (batch : Batch) : (schedule : List Nat) → List Deed
  | [] => []
  | number :: rest => batch.deedsAt number ++ (batch.advance number).deeds rest

end Batch

/-- What can be done with a project, and what can happen to its disk.  Batches come with the order in
which their tasks take turns. -/
inductive Operation where
  | loadPath (path : Path)
  | loadPaths (paths : List Path)
  | scan (path : Path)
  | register (path : Path)
  | build (path : Path)
  | buildToFile (path : Path)
  | buildMany (sources : List Path) (schedule : List Nat)
  | buildAll (schedule : List Nat)
  | notifyChange (path : Path) (schedule : List Nat)
  | change (disk : Disk)

namespace Site

/-- What the change of a file concerns: the page itself, made known, or the pages that depend on the
file. -/
def concerned (site : Site) (path : Path) : Project × List Path :=
  let layout := site.project.layout
  let place := layout.resolve path
  if layout.namesPage place.toPath && !layout.excludes place.toPath then
    (site.project.register (layout.resolve place.toPath), [place.toPath])
  else (site.project, (site.project.dependents place).map Place.toPath)

/-- The site after an operation, whether it has failed or not. -/
def perform (site : Site) : Operation → Site
  | .loadPath path =>
      match site.project.loadPath site.disk path with
      | .error _ => site
      | .ok (_, project) => { site with project }
  | .loadPaths paths => { site with project := (site.project.loadPaths site.disk paths).2 }
  | .scan _ => site
  | .register path => { site with project := site.project.register (site.place path) }
  | .build path => (site.build (site.place path)).2
  | .buildToFile path => (site.buildToFile (site.place path)).2
  | .buildMany sources schedule => ((Batch.start site sources).follow schedule).site
  | .buildAll schedule =>
      ((Batch.start site (site.project.pages.keys.map Place.toPath)).follow schedule).site
  | .notifyChange path schedule =>
      let (project, sources) := site.concerned path
      ((Batch.start { site with project } sources).follow schedule).site
  | .change disk => { site with disk }

/-- What a log tells of an operation. -/
def deeds (site : Site) : Operation → List Deed
  | .loadPath path => Deed.arrivals site.project (site.perform (.loadPath path)).project
  | .loadPaths paths => Deed.arrivals site.project (site.perform (.loadPaths paths)).project
  | .scan _ => []
  | .register path => Deed.arrivals site.project (site.perform (.register path)).project
  | .build path => Deed.ofBuild site (site.place path) (site.build (site.place path)).1
  | .buildToFile path => Deed.ofBuild site (site.place path) (site.buildToFile (site.place path)).1
  | .buildMany sources schedule => (Batch.start site sources).deeds schedule
  | .buildAll schedule =>
      (Batch.start site (site.project.pages.keys.map Place.toPath)).deeds schedule
  | .notifyChange path schedule =>
      let (project, sources) := site.concerned path
      Deed.arrivals site.project project ++
        (Batch.start { site with project } sources).deeds schedule
  | .change _ => []

/-- The log of a run, and the site after it. -/
def run (site : Site) : List Operation → List Deed × Site
  | [] => ([], site)
  | operation :: rest =>
      let (log, last) := run (site.perform operation) rest
      (site.deeds operation ++ log, last)

theorem run_followed (site : Site) (earlier later : List Operation) :
    site.run (earlier ++ later) =
      ((site.run earlier).1 ++ ((site.run earlier).2.run later).1,
        ((site.run earlier).2.run later).2) := by
  induction earlier generalizing site with
  | nil => rfl
  | cons operation rest ih => simp only [List.cons_append, run, ih, List.append_assoc]

/-- A change of a file is answered by a batch. -/
theorem notifyChange_eq (site : Site) (path : Path) :
    site.notifyChange path =
      buildMany { site with project := (site.concerned path).1 } (site.concerned path).2 := by
  unfold notifyChange concerned
  dsimp only
  split <;> rfl

end Site

section

-- Both sides have the same call of it, which is not to be searched for a difference.
attribute [local irreducible] loadPath

theorem loadPaths_cons (project : Project) (disk : Disk) (path : Path) (rest : List Path) :
    project.loadPaths disk (path :: rest) =
      match project.loadPath disk path with
      | .error error => (.error error, project)
      | .ok (count, project) =>
          let (outcome, project) := project.loadPaths disk rest
          (outcome.map (count + ·), project) := by
  rfl

end

/-- What loading one path keeps, loading several keeps too, also when it fails in the middle. -/
theorem loadPaths_keeps {Keeps : Project → Project → Prop} {disk : Disk}
    (refl : ∀ project, Keeps project project)
    (trans : ∀ {before middle after}, Keeps before middle → Keeps middle after →
      Keeps before after)
    (load : ∀ {before after path count}, before.loadPath disk path = .ok (count, after) →
      Keeps before after)
    (project : Project) (paths : List Path) : Keeps project (project.loadPaths disk paths).2 := by
  induction paths generalizing project with
  | nil => exact refl project
  | cons path rest ih =>
      rw [loadPaths_cons]
      cases loaded : project.loadPath disk path with
      | error error => exact refl project
      | ok found => exact trans (load loaded) (ih found.2)

section

variable (site : Site)

/-- The batches of a site whose tasks take all their turns at once are operations. -/
theorem Site.perform_buildMany (sources : List Path) :
    site.perform (.buildMany sources (Batch.sequence 0 sources.length)) =
      (site.buildMany sources).2 :=
  Batch.site_sequence site sources

theorem Site.perform_buildAll :
    site.perform (.buildAll (Batch.sequence 0 (site.project.pages.keys.map Place.toPath).length)) =
      site.buildAll.2 :=
  site.perform_buildMany _

theorem Site.perform_notifyChange (path : Path) :
    site.perform (.notifyChange path (Batch.sequence 0 (site.concerned path).2.length)) =
      (site.notifyChange path).2 := by
  rw [notifyChange_eq]
  unfold perform
  dsimp only
  generalize site.concerned path = concerned
  exact Batch.site_sequence { site with project := concerned.1 } concerned.2

/-- A page that a build has come with was there before the turn, or was rendered with it. -/
theorem Site.page?_turn {page : Place} {stage : Stage} {rendered : Rendered}
    (carried : (site.turn page stage).1.page? = some rendered) :
    stage = .waiting ∧ site.project.render site.disk page = .ok rendered ∨
      stage.page? = some rendered := by
  cases stage with
  | waiting =>
      left
      rw [turn] at carried
      cases ran : site.project.render site.disk page with
      | error error =>
          rw [ran] at carried
          cases carried
      | ok page =>
          rw [ran] at carried
          cases carried
          exact ⟨rfl, rfl⟩
  | rendered page =>
      right
      rw [turn] at carried
      dsimp only at carried
      generalize site.disk.makeParents _ = made at carried
      rcases made with ⟨_ | _, disk⟩
      · cases carried
      · exact carried
  | prepared page =>
      right
      rw [turn] at carried
      dsimp only at carried
      generalize site.disk.write _ _ = written at carried
      cases written with
      | error fault => cases carried
      | ok disk => exact carried
  | written page => cases carried
  | done outcome => cases carried

end

namespace Batch

/-- The page that a task of a batch has come with was rendered in an earlier turn of the task, from
the page that was asked for. -/
def Renders (site : Site) (sources : List Path) (schedule : List Nat) : Prop :=
  ∀ number task rendered, ((start site sources).follow schedule).tasks[number]? = some task →
    task.stage.page? = some rendered → ∃ earlier later, schedule = earlier ++ number :: later ∧
      let batch := (start site sources).follow earlier
      batch.site.project.render batch.site.disk (batch.site.place task.source) = .ok rendered

variable {site : Site} {sources : List Path}

theorem Renders.advance {schedule : List Nat} (renders : Renders site sources schedule)
    (next : Nat) : Renders site sources (schedule ++ [next]) := by
  intro number task rendered held carried
  have before : ∀ task : Task, ((start site sources).follow schedule).tasks[number]? = some task →
      task.stage.page? = some rendered → ∃ earlier later,
        schedule ++ [next] = earlier ++ number :: later ∧
          let batch := (start site sources).follow earlier
          batch.site.project.render batch.site.disk (batch.site.place task.source) =
            .ok rendered := by
    intro task held carried
    obtain ⟨earlier, later, rfl, ran⟩ := renders number task rendered held carried
    exact ⟨earlier, later ++ [next], by simp, ran⟩
  rw [follow_concat] at held
  unfold Batch.advance at held
  cases old : ((start site sources).follow schedule).tasks[next]? with
  | none =>
      rw [old] at held
      exact before task held carried
  | some former =>
      rw [old] at held
      dsimp only at held
      by_cases own : next = number
      · subst own
        rw [List.getElem?_set_self (List.getElem?_eq_some_iff.mp old).1] at held
        obtain rfl := Option.some.inj held
        rcases Site.page?_turn _ carried with ⟨-, ran⟩ | carried
        · exact ⟨schedule, [], rfl, ran⟩
        · exact before former old carried
      · rw [List.getElem?_set_ne own] at held
        exact before task held carried

theorem follow_renders (site : Site) (sources : List Path) (schedule : List Nat) :
    Renders site sources schedule := by
  refine @follow_induction (start site sources) (fun schedule _ => Renders site sources schedule)
    ?_ (fun _ next renders => renders.advance next) schedule
  intro number task rendered held carried
  have waiting : task.stage = .waiting := by
    simp only [follow, start, List.foldl_nil, List.getElem?_map, Option.map_eq_some_iff] at held
    obtain ⟨source, -, rfl⟩ := held
    rfl
  rw [waiting] at carried
  cases carried

end Batch

/-- A project knows what another one knows, as it is remembered there, and new pages of which nothing
is remembered. -/
structure Grows (before after : Project) : Prop where
  kept : ∀ (source : Place) page, before.pages[source]? = some page →
    after.pages[source]? = some page
  new : ∀ (source : Place) page, before.pages[source]? = none → after.pages[source]? = some page →
    page = { source }

namespace Grows

variable {before middle after : Project}

theorem refl (project : Project) : project.Grows project :=
  ⟨fun _ _ => id, fun _ _ missing found => by rw [missing] at found; cases found⟩

theorem trans (first : before.Grows middle) (last : middle.Grows after) : before.Grows after := by
  constructor
  · exact fun source page found => last.kept source page (first.kept source page found)
  · intro source page missing found
    cases held : middle.pages[source]? with
    | none => exact last.new source page held found
    | some other =>
        obtain rfl := Option.some.inj ((last.kept source other held).symm.trans found)
        exact first.new source other missing held

theorem register (project : Project) (source : Place) : project.Grows (project.register source) := by
  unfold Project.register
  split
  · exact refl project
  next unknown =>
    have missing : project.pages[source]? = none := by
      rwa [knows, Std.ExtTreeMap.contains_eq_isSome_getElem?, Option.not_isSome_iff_eq_none]
        at unknown
    constructor
    · intro other page found
      simp only [Std.ExtTreeMap.getElem?_insert, Std.compare_eq_iff_eq]
      rw [if_neg]
      · exact found
      · rintro rfl
        rw [missing] at found
        cases found
    · intro other page absent found
      simp only [Std.ExtTreeMap.getElem?_insert, Std.compare_eq_iff_eq] at found
      split at found
      next same =>
        obtain rfl := same
        exact (Option.some.inj found).symm
      · rw [absent] at found
        cases found

theorem registerAll (project : Project) (sources : List Place) :
    project.Grows (project.registerAll sources).2 := by
  rw [registerAll_snd]
  induction sources generalizing project with
  | nil => exact refl project
  | cons source rest ih => exact (register project source).trans (ih _)

theorem loadPath {project : Project} {disk : Disk} {path : Path} {count : Nat}
    (loaded : project.loadPath disk path = .ok (count, after)) : project.Grows after := by
  rw [loadPath_eq] at loaded
  cases stands : project.layout.standsFor disk path with
  | error error =>
      rw [stands] at loaded
      cases loaded
  | ok pages =>
      rw [stands] at loaded
      have grows := registerAll project pages
      rwa [Except.ok.inj loaded] at grows

theorem loadPaths (project : Project) (disk : Disk) (paths : List Path) :
    project.Grows (project.loadPaths disk paths).2 :=
  loadPaths_keeps refl trans loadPath project paths

end Grows

theorem knows_eq_false_iff {project : Project} {source : Place} :
    project.knows source = false ↔ project.pages[source]? = none := by
  rw [knows, Std.ExtTreeMap.contains_eq_isSome_getElem?, Option.isSome_eq_false_iff,
    Option.isNone_iff_eq_none]

/-- A project remembers what a log tells. -/
structure Accounts (log : List Deed) (project : Project) : Prop where
  /-- Every page is known under its own place, which is in normal form. -/
  keyed : ∀ (key : Place) page, project.pages[key]? = some page →
    page.source = key ∧ Place.ofPath key.toPath = key
  known : ∀ page, project.knows page = true ↔ .registered page ∈ log
  /-- A page has become known once.  Its dependencies are those of the last build that has succeeded
  since then. -/
  remembered : ∀ page, project.knows page = true → ∃ before after,
    log = before ++ .registered page :: after ∧ .registered page ∉ before ++ after ∧
      project.dependencies? page = some ((after.reverse.findSome? (Deed.ofPage? page)).getD ∅)

section Arrivals

variable {before after : Project} {page : Place}

theorem registered_mem_arrivals : .registered page ∈ Deed.arrivals before after ↔
    after.knows page = true ∧ before.knows page = false := by
  simp [Deed.arrivals, knows]

theorem nodup_arrivals (before after : Project) : (Deed.arrivals before after).Nodup := by
  refine List.Pairwise.map _ (fun first second differ same => differ ?_)
    ((nodup_keys after).filter _)
  exact (Deed.registered.injEq first second).mp same

/-- No arrival is a build. -/
theorem findSome?_arrivals (page : Place) (before after : Project) :
    (Deed.arrivals before after).reverse.findSome? (Deed.ofPage? page) = none := by
  rw [List.findSome?_eq_none_iff]
  intro deed member
  rw [List.mem_reverse, Deed.arrivals, List.mem_map] at member
  obtain ⟨other, -, rfl⟩ := member
  rfl

/-- A page arrives once, and it is not built among the arrivals. -/
theorem split_arrivals (arrived : .registered page ∈ Deed.arrivals before after) :
    ∃ earlier later, Deed.arrivals before after = earlier ++ .registered page :: later ∧
      .registered page ∉ earlier ++ later ∧
        later.reverse.findSome? (Deed.ofPage? page) = none := by
  obtain ⟨earlier, later, split⟩ := List.append_of_mem arrived
  have once := nodup_arrivals before after
  have unbuilt := findSome?_arrivals page before after
  rw [split] at once unbuilt
  refine ⟨earlier, later, split, ?_, ?_⟩
  · have apart := (List.perm_middle.nodup_iff.mp once)
    exact (List.nodup_cons.mp apart).1
  · rw [List.reverse_append, List.reverse_cons, List.append_assoc, List.findSome?_append,
      Option.or_eq_none_iff] at unbuilt
    exact unbuilt.1

end Arrivals

namespace Accounts

variable {log : List Deed} {project after : Project}

theorem start (layout : Layout) (templates : Templates) :
    Accounts [] { layout, templates } := by
  constructor
  · intro key page found
    simp at found
  · simp [knows]
  · intro page known
    simp [knows] at known

/-- New pages go into the log as such. -/
theorem grow (accounts : Accounts log project) (grows : project.Grows after) :
    Accounts (log ++ Deed.arrivals project after) after := by
  have stays : ∀ page, project.knows page = true → after.knows page = true := by
    intro page known
    obtain ⟨held, found⟩ := knows_iff.mp known
    exact knows_iff.mpr ⟨held, grows.kept page held found⟩
  constructor
  · intro key page found
    refine ⟨?_, key.ofPath_toPath⟩
    cases held : project.pages[key]? with
    | none => rw [grows.new key page held found]
    | some other =>
        obtain rfl := Option.some.inj ((grows.kept key other held).symm.trans found)
        exact (accounts.keyed key other held).1
  · intro page
    rw [List.mem_append, registered_mem_arrivals, ← accounts.known]
    constructor
    · intro known
      by_cases old : project.knows page = true
      · exact .inl old
      · exact .inr ⟨known, Bool.eq_false_iff.mpr old⟩
    · rintro (old | ⟨known, -⟩)
      · exact stays page old
      · exact known
  · intro page known
    by_cases old : project.knows page = true
    · obtain ⟨before, behind, rfl, once, remembered⟩ := accounts.remembered page old
      refine ⟨before, behind ++ Deed.arrivals project after, by simp, ?_, ?_⟩
      · rw [← List.append_assoc, List.mem_append, not_or]
        refine ⟨once, fun arrived => ?_⟩
        rw [registered_mem_arrivals, old] at arrived
        cases arrived.2
      · obtain ⟨held, found, same⟩ := Option.map_eq_some_iff.mp remembered
        rw [dependencies?, grows.kept page held found, List.reverse_append, List.findSome?_append,
          findSome?_arrivals, Option.none_or, ← same]
        rfl
    · have missing := knows_eq_false_iff.mp (Bool.eq_false_iff.mpr old)
      have arrived := registered_mem_arrivals.mpr ⟨known, Bool.eq_false_iff.mpr old⟩
      have fresh : .registered page ∉ log := fun logged => old ((accounts.known page).mpr logged)
      obtain ⟨earlier, later, split, once, unbuilt⟩ := split_arrivals arrived
      obtain ⟨held, found⟩ := knows_iff.mp known
      refine ⟨log ++ earlier, later, by rw [split, List.append_assoc], ?_, ?_⟩
      · rw [List.append_assoc, List.mem_append, not_or]
        exact ⟨fresh, once⟩
      · rw [dependencies?, found, grows.new page held missing found, unbuilt]
        rfl

/-- A build that has succeeded goes into the log. -/
theorem record (accounts : Accounts log project) (source : Place)
    (dependencies : Std.ExtTreeSet Place) :
    Accounts (log ++ [.built source dependencies]) (project.record source dependencies) := by
  constructor
  · intro key page found
    refine ⟨?_, key.ofPath_toPath⟩
    rw [getElem?_record] at found
    split at found
    next same =>
      subst same
      obtain ⟨held, known, rfl⟩ := Option.map_eq_some_iff.mp found
      exact (accounts.keyed source held known).1
    · exact (accounts.keyed key page found).1
  · intro page
    rw [knows_record, accounts.known]
    simp
  · intro page known
    rw [knows_record] at known
    obtain ⟨before, behind, rfl, once, remembered⟩ := accounts.remembered page known
    refine ⟨before, behind ++ [.built source dependencies], by simp, ?_, ?_⟩
    · rw [← List.append_assoc, List.mem_append, not_or]
      exact ⟨once, by simp⟩
    · rw [List.reverse_append, List.reverse_singleton, List.singleton_append, List.findSome?_cons,
        dependencies?_record, Deed.ofPage?]
      by_cases same : source = page
      · subst same
        simp [remembered]
      · simp [same, remembered]

end Accounts

/-- A turn changes what is remembered when a build succeeds with it, and not otherwise. -/
theorem Site.project_turn (site : Site) (page : Place) (stage : Stage) :
    (site.turn page stage).2.project =
      match stage.page?, (site.turn page stage).1 with
      | some rendered, .done (.ok _) => site.project.record page rendered.dependencies
      | _, _ => site.project := by
  cases stage with
  | waiting => rfl
  | rendered rendered =>
      rw [turn]
      dsimp only
      generalize site.disk.makeParents (site.project.layout.destination page) = made
      rcases made with ⟨_ | _, disk⟩ <;> rfl
  | prepared rendered =>
      rw [turn]
      dsimp only
      generalize site.disk.write (site.project.layout.destination page) _ = written
      cases written <;> rfl
  | written rendered => rfl
  | done outcome => rfl

namespace Accounts

variable {log : List Deed} {batch : Batch} {site : Site}

theorem advance (accounts : Accounts log batch.site.project) (number : Nat) :
    Accounts (log ++ batch.deedsAt number) (batch.advance number).site.project := by
  unfold Batch.deedsAt Batch.advance
  cases batch.tasks[number]? with
  | none => simpa using accounts
  | some task =>
      dsimp only
      generalize batch.site.project.layout.resolve task.source = page
      rw [Site.project_turn]
      generalize (batch.site.turn page task.stage).1 = next
      cases task.stage.page? with
      | none => simpa using accounts
      | some rendered =>
          rcases next with _ | _ | _ | _ | ⟨error | output⟩
          case done.ok => exact accounts.record page rendered.dependencies
          all_goals simpa using accounts

theorem follow (accounts : Accounts log batch.site.project) (schedule : List Nat) :
    Accounts (log ++ batch.deeds schedule) (batch.follow schedule).site.project := by
  induction schedule generalizing batch log with
  | nil => simpa [Batch.deeds, Batch.follow] using accounts
  | cons number rest ih =>
      have onward := ih (accounts.advance number)
      rw [List.append_assoc] at onward
      exact onward

theorem build (accounts : Accounts log site.project) (page : Place) :
    Accounts (log ++ Deed.ofBuild site page (site.build page).1) (site.build page).2.project := by
  unfold Site.build Deed.ofBuild
  cases ran : site.project.render site.disk page with
  | error error => simpa using accounts
  | ok rendered => exact accounts.record page rendered.dependencies

theorem buildToFile (accounts : Accounts log site.project) (page : Place) :
    Accounts (log ++ Deed.ofBuild site page (site.buildToFile page).1)
      (site.buildToFile page).2.project := by
  unfold Site.buildToFile Deed.ofBuild
  cases ran : site.project.render site.disk page with
  | error error => simpa using accounts
  | ok rendered =>
      dsimp only
      unfold Site.finish
      generalize site.project.layout.writeOutput site.disk page rendered.content = written
      rcases written with ⟨fault | output, disk⟩
      · simpa using accounts
      · exact accounts.record page rendered.dependencies

/-- Every operation goes into the log with what it does. -/
theorem perform (accounts : Accounts log site.project) (operation : Operation) :
    Accounts (log ++ site.deeds operation) (site.perform operation).project := by
  cases operation with
  | loadPath path =>
      have grows : site.project.Grows (site.perform (.loadPath path)).project := by
        unfold Site.perform
        dsimp only
        cases loaded : site.project.loadPath site.disk path with
        | error error => exact .refl site.project
        | ok found => exact .loadPath loaded
      exact accounts.grow grows
  | loadPaths paths => exact accounts.grow (Grows.loadPaths site.project site.disk paths)
  | scan path =>
      rw [Site.deeds, List.append_nil]
      exact accounts
  | register path => exact accounts.grow (Grows.register site.project (site.place path))
  | build path =>
      unfold Site.deeds Site.perform
      exact accounts.build (site.place path)
  | buildToFile path =>
      unfold Site.deeds Site.perform
      exact accounts.buildToFile (site.place path)
  | buildMany sources schedule =>
      unfold Site.deeds Site.perform
      exact @follow log (.start site sources) accounts schedule
  | buildAll schedule =>
      unfold Site.deeds Site.perform
      exact @follow log (.start site (site.project.pages.keys.map Place.toPath)) accounts schedule
  | notifyChange path schedule =>
      have grows : site.project.Grows (site.concerned path).1 := by
        unfold Site.concerned
        dsimp only
        split
        · exact .register _ _
        · exact .refl _
      unfold Site.deeds Site.perform
      dsimp only
      generalize site.concerned path = concerned at grows ⊢
      have begun : Accounts (log ++ Deed.arrivals site.project concerned.1)
          (Batch.start { site with project := concerned.1 } concerned.2).site.project :=
        accounts.grow grows
      rw [← List.append_assoc]
      exact begun.follow schedule
  | change disk =>
      rw [Site.deeds, List.append_nil]
      exact accounts

theorem run (accounts : Accounts log site.project) (operations : List Operation) :
    Accounts (log ++ (site.run operations).1) (site.run operations).2.project := by
  induction operations generalizing site log with
  | nil => simpa [Site.run] using accounts
  | cons operation rest ih =>
      have onward := ih (accounts.perform operation)
      rw [List.append_assoc] at onward
      exact onward

end Accounts

/-- A project that starts with no pages remembers what the log of its run tells, and a page that it
knows at some point of the run stays known. -/
theorem Site.run_accounts (layout : Layout) (templates : Templates) (disk : Disk)
    (earlier later : List Operation) :
    let start : Site := ⟨{ layout, templates }, disk⟩
    Accounts (start.run (earlier ++ later)).1 (start.run (earlier ++ later)).2.project ∧
      ∀ page, (start.run earlier).2.project.knows page = true →
        (start.run (earlier ++ later)).2.project.knows page = true := by
  intro start
  have begun : Accounts [] start.project := .start layout templates
  have before : Accounts (start.run earlier).1 (start.run earlier).2.project := begun.run earlier
  have all : Accounts (start.run (earlier ++ later)).1 (start.run (earlier ++ later)).2.project :=
    begun.run (earlier ++ later)
  refine ⟨all, fun page known => ?_⟩
  rw [all.known, run_followed, List.mem_append]
  exact .inl ((before.known page).mp known)

/-- A build that fails leaves what is remembered of the page, whichever way the page is written. -/
example :
    let start : Site := ⟨{ layout := Batch.small.project.layout }, Batch.small.disk⟩
    let last := (start.run [.loadPath ⟨"i.p"⟩, .build ⟨"i.p"⟩,
      .change (.ofFiles [(⟨"/r/i.p"⟩, "</t:a>")]), .buildToFile ⟨"/r/d/../i.p"⟩]).2
    (last.project.dependencies? (.ofPath ⟨"/r/i.p"⟩)).map (·.toList) =
      some [.ofPath ⟨"/r/a.html"⟩] := by
  decide +kernel

end Stencil.Project
