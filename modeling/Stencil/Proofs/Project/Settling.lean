import Stencil.Proofs.Project.Interleaving

/-!
# Batches come to one end

Builds that do not meet leave one site and one report behind, in whatever order their turns were
taken: those of the pages that are built one after the other.  For each page this is what its build
does on its own.
-/

namespace Stencil.Project

open Render

variable {first : Site} {sources : List Path} {batch : Batch}

namespace Site

variable {site : Site} {page : Place} {path : Path}

/-- A build that succeeds has rendered the page, and has written the output in the directories that
it made. -/
theorem written_of_buildToFile (built : (site.buildToFile page).1 = .ok path) :
    path = site.project.layout.destination page ∧ ∃ rendered middle,
      site.project.render site.disk page = .ok rendered ∧
        site.disk.makeParents (site.project.layout.destination page) = (.ok (), middle) ∧
          middle.write (site.project.layout.destination page) rendered.content.toUTF8 =
            .ok (site.buildToFile page).2.disk := by
  unfold buildToFile finish at built ⊢
  cases ran : site.project.render site.disk page with
  | error error =>
      rw [ran] at built
      cases built
  | ok rendered =>
      rw [ran] at built
      dsimp only at built ⊢
      rw [Layout.writeOutput_eq] at built ⊢
      generalize site.project.layout.destination page = output at built ⊢
      generalize site.disk.makeParents output = made at built ⊢
      rcases made with ⟨fault | _, middle⟩
      · cases built
      · dsimp only at built ⊢
        cases written : middle.write output rendered.content.toUTF8 with
        | error fault =>
            rw [written] at built
            cases built
        | ok disk =>
            rw [written] at built
            exact ⟨(Except.ok.inj built).symm, rendered, middle, rfl, rfl, written⟩

/-- The output of a build that succeeds is a file, and it is what was rendered. -/
theorem output_of_buildToFile {above : List Name} {last : Component}
    (puts : site.project.layout.PutsAt page above last) (plain : site.disk.Plain)
    (built : (site.buildToFile page).1 = .ok path) :
    path = site.project.layout.outputPath page ∧ ∃ rendered html,
      site.project.render site.disk page = .ok rendered ∧ last = .name html ∧
        path = (Place.mk .root (above ++ [html])).toPath ∧
          Place.Reachable ⟨.root, above ++ [html]⟩ ∧
            (site.buildToFile page).2.disk.get? (above ++ [html]) =
              some (.file rendered.content.toUTF8) := by
  obtain ⟨own, rendered, middle, ran, made, written⟩ := written_of_buildToFile built
  obtain ⟨after, prepared, paved⟩ := puts.makeParents plain
  rw [prepared] at made
  obtain ⟨reached, rfl⟩ := Prod.mk.inj made
  have middlePlain := paved.plain plain
  rw [(Disk.pavement_ok reached).1] at paved
  have target := puts.target middlePlain (paved.pavement reached) paved.directory
  have inner := puts.inner
  rw [puts.destination] at own
  refine ⟨own, rendered, ?_⟩
  cases last with
  | root => cases inner
  | current => cases inner
  | parent =>
      rw [Disk.write, target] at written
      cases written
  | name html =>
      have place : site.project.layout.outputPath page =
          (Place.mk .root (above ++ [html])).toPath := by
        rw [puts.path, (Place.absolute_root _).toPath, Path.fromRoot, List.map_append]
        rfl
      rw [puts.destination, place] at written
      obtain ⟨-, -, reachable, held⟩ :=
        Disk.of_write middlePlain (Place.absolute_root _) written
      exact ⟨html, ran, rfl, own.trans place, reachable, held⟩

/-- Four turns of a task on its own build its page. -/
theorem solo_four {source : Path} {number : Nat} (asked : sources[number]? = some source) :
    first.solo sources (fun _ => 4) number = (first.buildToFile (first.place source)).2 := by
  rw [solo, asked]
  dsimp only
  rw [alone_four]

end Site

/-- The failure of a page, when its build has failed. -/
def Failure.ofOutcome? (source : Path) : Except Error Path → Option Failure
  | .error error => some ⟨source, error⟩
  | .ok _ => none

namespace Report

variable {α : Type} (source : α → Path) (outcome : α → Except Error Path) (pages : List α)

/-- The files that were written are those of the pages whose builds have succeeded. -/
theorem written_perm : (ofOutcomes (pages.map fun page => (source page, outcome page))).written.Perm
    (pages.filterMap fun page => (outcome page).toOption) := by
  refine (List.mergeSort_perm _ _).trans ?_
  rw [List.filterMap_map]
  exact .refl _

theorem failures_perm :
    (ofOutcomes (pages.map fun page => (source page, outcome page))).failures.Perm
      (pages.filterMap fun page => Failure.ofOutcome? (source page) (outcome page)) := by
  refine (List.mergeSort_perm _ _).trans ?_
  rw [List.filterMap_map]
  apply List.Perm.of_eq
  congr 1
  funext page
  cases failed : outcome page <;> simp [failed, Failure.ofOutcome?]

/-- The pages that failed are those whose builds have not succeeded. -/
theorem sources_failures_perm (outcome : Path → Except Error Path) (sources : List Path) :
    ((ofOutcomes (sources.map fun source => (source, outcome source))).failures.map
      Failure.source).Perm (sources.filter fun source => !(outcome source).isOk) := by
  refine ((failures_perm (fun source => source) outcome sources).map _).trans ?_
  rw [List.map_filterMap, ← List.filterMap_eq_filter]
  apply List.Perm.of_eq
  congr 1
  funext source
  cases failed : outcome source <;>
    simp [failed, Failure.ofOutcome?, Except.isOk, Except.toBool, Option.guard]

end Report

namespace Site.Separates

variable (separates : first.Separates sources)

include separates

theorem nodup : sources.Nodup := by
  refine separates.apart.imp fun {source other} apart same => apart.1 ?_
  subst same
  exact List.prefix_refl _

/-- No two pages write the same output. -/
theorem nodup_written : (sources.filterMap fun source =>
    (first.buildToFile (first.place source)).1.toOption).Nodup := by
  rw [List.Nodup, List.pairwise_filterMap]
  refine separates.apart.imp fun {source other} apart path built otherPath otherBuilt same => ?_
  obtain ⟨rfl, -⟩ := written_of_buildToFile (ok_of_toOption built)
  obtain ⟨rfl, -⟩ := written_of_buildToFile (ok_of_toOption otherBuilt)
  have placed : ∀ source, (first.place source).Absolute := separates.absolute.root.resolve
  rw [Layout.destination_eq (placed _), Layout.destination_eq (placed _)] at same
  have outputs : first.output source = first.output other := by rw [output, output, same]
  rw [outputs] at apart
  exact apart.1 (List.prefix_refl _)

end Site.Separates

/-- A batch has come to the one end that its pages can come to. -/
structure Batch.Settles (first : Site) (sources : List Path) (batch : Batch) : Prop where
  /-- The report and the site are those of building the pages one after the other. -/
  same : (some batch.report, batch.site) = first.buildMany sources
  outcomes : batch.outcomes =
    sources.map fun source => (source, (first.buildToFile (first.place source)).1)
  /-- Each page is in the report once, with its output or as a failure. -/
  written : batch.report.written.Perm
    (sources.filterMap fun source => (first.buildToFile (first.place source)).1.toOption)
  failures : (batch.report.failures.map Failure.source).Perm
    (sources.filter fun source => !(first.buildToFile (first.place source)).1.isOk)
  once : batch.report.written.Nodup ∧ (batch.report.failures.map Failure.source).Nodup
  /-- The output of a page is there as the build of the page on its own writes it. -/
  output : ∀ source ∈ sources, ∀ path, (first.buildToFile (first.place source)).1 = .ok path →
    path = first.project.layout.outputPath (first.place source) ∧
      ∃ rendered, first.project.render first.disk (first.place source) = .ok rendered ∧
        (first.buildToFile (first.place source)).2.disk.read path =
            .ok (.file rendered.content.toUTF8) ∧
          batch.site.disk.read path = .ok (.file rendered.content.toUTF8)
  dependencies : ∀ source ∈ sources, batch.site.project.dependencies? (first.place source) =
    (first.buildToFile (first.place source)).2.project.dependencies? (first.place source)

namespace Batch

section Done

variable {α : Type} {all : List α} {source : α → Path} {outcome : α → Except Error Path}
  (tasks : batch.tasks = all.map fun a => ⟨source a, .done (outcome a)⟩)

include tasks

/-- A batch in which all builds are done is finished when they have all come to an end. -/
theorem finished_iff_of_done : batch.Finished ↔ ∀ a ∈ all, Error.ends (outcome a) = true := by
  rw [Finished, tasks, List.forall_mem_map]
  refine forall₂_congr fun a _ => ?_
  rw [Stage.outcome?]
  split <;> simp [*]

theorem outcomes_of_done (finished : batch.Finished) :
    batch.outcomes = all.map fun a => (source a, outcome a) := by
  have ends := (finished_iff_of_done tasks).mp finished
  rw [outcomes, tasks, List.filterMap_map, ← List.filterMap_eq_map]
  refine List.filterMap_congr fun a member => ?_
  simp [Stage.outcome?, ends a member]

end Done

/-- Tasks that take all their turns at once build the pages one after the other. -/
theorem start_follow_sequence (first : Site) (sources : List Path) :
    (start first sources).follow (sequence 0 sources.length) =
      ⟨(first.buildEach sources).2, (first.buildEach sources).1.map fun (source, outcome) =>
        ⟨source, .done outcome⟩⟩ :=
  follow_sequence first [] sources

theorem site_sequence (first : Site) (sources : List Path) :
    ((start first sources).follow (sequence 0 sources.length)).site = (first.buildMany sources).2 :=
  congrArg site (start_follow_sequence first sources)

theorem stopped_sequence (first : Site) (sources : List Path) :
    ((start first sources).follow (sequence 0 sources.length)).Stopped := by
  intro task member
  rw [start_follow_sequence, List.mem_map] at member
  obtain ⟨outcome, -, rfl⟩ := member
  exact ⟨_, rfl⟩

/-- They finish when all builds end. -/
theorem finished_sequence_iff (first : Site) (sources : List Path) :
    ((start first sources).follow (sequence 0 sources.length)).Finished ↔
      ∀ outcome ∈ (first.buildEach sources).1, Error.ends outcome.2 = true :=
  finished_iff_of_done (congrArg tasks (start_follow_sequence first sources))

theorem outcomes_sequence
    (finished : ((start first sources).follow (sequence 0 sources.length)).Finished) :
    ((start first sources).follow (sequence 0 sources.length)).outcomes =
      (first.buildEach sources).1 :=
  (outcomes_of_done (congrArg tasks (start_follow_sequence first sources)) finished).trans
    (List.map_id _)

theorem report_sequence
    (finished : ((start first sources).follow (sequence 0 sources.length)).Finished) :
    (some ((start first sources).follow (sequence 0 sources.length)).report,
      ((start first sources).follow (sequence 0 sources.length)).site) =
        first.buildMany sources := by
  have ends := (finished_sequence_iff first sources).mp finished
  rw [report, outcomes_sequence finished, start_follow_sequence]
  exact Prod.ext (Report.ofOutcomes?_eq_some.mpr ⟨ends, rfl⟩).symm rfl

/-- Building pages one after the other is one order of the turns of their tasks, in which each has the
four that it needs.  There is no report when there is no room for one of the builds. -/
theorem buildMany_eq_sequence (first : Site) (sources : List Path) :
    first.buildMany sources =
      (if ((start first sources).follow (sequence 0 sources.length)).Overflows then none
        else some ((start first sources).follow (sequence 0 sources.length)).report,
        ((start first sources).follow (sequence 0 sources.length)).site) := by
  by_cases fits : ((start first sources).follow (sequence 0 sources.length)).Overflows
  · rw [if_pos fits, site_sequence]
    refine Prod.ext ?_ rfl
    cases told : (first.buildMany sources).1 with
    | none => rfl
    | some report =>
        have ends := (Report.ofOutcomes?_eq_some.mp told).1
        exact absurd fits ((finished_sequence_iff first sources).mpr ends).fits
  · rw [if_neg fits, report_sequence ((stopped_sequence first sources).finished fits)]

theorem le_count_sequence {count number : Nat} (inside : number < count) :
    4 ≤ (sequence 0 count).count number := by
  have all : ∀ start, start ≤ number → number < start + count →
      4 ≤ (sequence start count).count number := by
    clear inside
    induction count with
    | zero => omega
    | succ count ih =>
        intro start least inside
        rw [sequence, List.count_append]
        by_cases own : number = start
        · rw [own, List.count_replicate_self]
          exact Nat.le_add_right _ _
        · exact Nat.le_add_left_of_le (ih (start + 1) (by omega) (by omega))
  exact all 0 (Nat.zero_le _) (by omega)

namespace Mirrors

variable (mirrors : batch.Mirrors first sources fun _ => 4)

include mirrors

theorem tasks_eq : batch.tasks = sources.map fun source =>
    ⟨source, .done (first.buildToFile (first.place source)).1⟩ := by
  apply List.ext_getElem?
  intro number
  rw [mirrors.tasks, List.getElem?_map]
  simp only [Site.alone_four]

/-- Such a batch is finished when each page is built on its own. -/
theorem finished_iff : batch.Finished ↔
    ∀ source ∈ sources, Error.ends (first.buildToFile (first.place source)).1 = true :=
  finished_iff_of_done mirrors.tasks_eq

theorem outcomes_eq (finished : batch.Finished) : batch.outcomes =
    sources.map fun source => (source, (first.buildToFile (first.place source)).1) :=
  outcomes_of_done mirrors.tasks_eq finished

variable (separates : first.Separates sources)

include separates

theorem output {source path : Path} (member : source ∈ sources)
    (built : (first.buildToFile (first.place source)).1 = .ok path) :
    path = first.project.layout.outputPath (first.place source) ∧
      ∃ rendered, first.project.render first.disk (first.place source) = .ok rendered ∧
        (first.buildToFile (first.place source)).2.disk.read path =
            .ok (.file rendered.content.toUTF8) ∧
          batch.site.disk.read path = .ok (.file rendered.content.toUTF8) := by
  obtain ⟨number, asked⟩ := List.mem_iff_getElem?.mp member
  obtain ⟨above, last, puts⟩ := separates.putsAt asked
  obtain ⟨own, rendered, html, ran, isName, place, reachable, held⟩ :=
    Site.output_of_buildToFile puts separates.plain built
  have solo := @Site.solo_four first sources source number asked
  have plain := separates.solo_plain (fun _ => 4) number
  have together : batch.site.disk.get? (above ++ [html]) =
      (first.solo sources (fun _ => 4) number).disk.get? (above ++ [html]) :=
    (mirrors.disk _).eq_each fun other differ =>
      separates.get?_output _ asked puts isName differ
  rw [solo] at plain together
  refine ⟨own, rendered, ran, ?_, ?_⟩
  · rw [place]
    exact (Disk.read_toPath plain (Place.absolute_root _) _).mpr ⟨reachable, held⟩
  · rw [place]
    exact (Disk.read_toPath (mirrors.plain separates) (Place.absolute_root _) _).mpr
      ⟨reachable, together.trans held⟩

theorem dependencies {source : Path} (member : source ∈ sources) :
    batch.site.project.dependencies? (first.place source) =
      (first.buildToFile (first.place source)).2.project.dependencies? (first.place source) := by
  obtain ⟨number, asked⟩ := List.mem_iff_getElem?.mp member
  have together : batch.site.project.pages[first.place source]? =
      (first.solo sources (fun _ => 4) number).project.pages[first.place source]? :=
    (mirrors.pages _).eq_each fun other differ => separates.getElem?_page _ asked differ
  rw [Project.dependencies?, together, Site.solo_four asked]
  rfl

theorem settles (finished : batch.Finished)
    (same : (some batch.report, batch.site) = first.buildMany sources) :
    batch.Settles first sources := by
  have written := Report.written_perm (fun source => source)
    (fun source => (first.buildToFile (first.place source)).1) sources
  have failures := Report.sources_failures_perm
    (fun source => (first.buildToFile (first.place source)).1) sources
  have outcomes := mirrors.outcomes_eq finished
  rw [← outcomes] at written failures
  constructor
  · exact same
  · exact outcomes
  · exact written
  · exact failures
  · exact ⟨written.nodup_iff.mpr separates.nodup_written,
      failures.nodup_iff.mpr (separates.nodup.filter _)⟩
  · exact fun source member path built => mirrors.output separates member built
  · exact fun source member => mirrors.dependencies separates member

end Mirrors

/-- Builds that do not meet finish when each has had its four turns, and then they have come to one
end, in whatever order they took their turns. -/
theorem follow_settles (separates : first.Separates sources) (fits : first.Fits sources)
    (schedule : List Nat) :
    ((∀ number < sources.length, 4 ≤ schedule.count number) →
        (((start first sources).follow schedule).Finished ↔ ∀ source ∈ sources,
          Error.ends (first.buildToFile (first.place source)).1 = true)) ∧
      (((start first sources).follow schedule).Finished →
        ((start first sources).follow schedule).Settles first sources) := by
  have mirrors := (Mirrors.start first sources).follow separates fits
  constructor
  · intro enough
    refine ((mirrors schedule).settled ((mirrors schedule).stopped fun number inside => ?_)).finished_iff
    rw [Nat.zero_add]
    exact enough number inside
  · intro finished
    have settled := (mirrors schedule).settled finished.stopped
    have inSequence := (mirrors _).settled (stopped_sequence first sources)
    have same := settled.unique inSequence
    apply settled.settles separates finished
    rw [same] at finished ⊢
    exact report_sequence finished

/-- When a batch of two pages settles, it does not matter to the second page that the first one was
built before. -/
theorem Settles.second {page other : Path}
    (finished : ((start first [page, other]).follow (sequence 0 2)).Finished)
    (settles : ((start first [page, other]).follow (sequence 0 2)).Settles first [page, other]) :
    ((first.buildToFile (first.place page)).2.buildToFile
        ((first.buildToFile (first.place page)).2.place other)).1 =
      (first.buildToFile (first.place other)).1 := by
  have outcomes := (outcomes_sequence finished).symm.trans settles.outcomes
  rw [Site.buildEach_eq, Site.buildEach_eq] at outcomes
  simp only [List.map_cons, List.cons.injEq, Prod.mk.injEq, true_and] at outcomes
  exact outcomes.1

/-- A project whose output goes to a directory outside of its root, with two pages that can be built
and one that cannot. -/
def small : Site where
  project := {
    layout := {
      root := .ofPath ⟨"/r"⟩
      outDir := .ofPath ⟨"/b/o"⟩
      extension := ".p"
      scanDepth := 1
      exclude := []
      dialect := {}
      room := 16 }
    pages := .ofList (["/r/i.p", "/r/d/k.p"].map fun text =>
      (Place.ofPath ⟨text⟩, { source := .ofPath ⟨text⟩ })) compare }
  disk := .ofFiles [(⟨"/r/a.html"⟩, "1"), (⟨"/r/i.p"⟩, "<t:a/>"), (⟨"/r/j.p"⟩, "</t:a>"),
    (⟨"/r/d/k.p"⟩, "<t:a/>2")]

/-- Two pages that are built and one that fails take their turns in disorder. -/
theorem follow_settles_small :
    let pages : List Path := [⟨"/r/i.p"⟩, ⟨"/r/j.p"⟩, ⟨"/r/d/k.p"⟩]
    let schedule := [2, 0, 1, 2, 2, 0, 1, 0, 2, 0, 1, 1]
    ((start small pages).follow schedule).Finished ∧
      ((start small pages).follow schedule).Settles small pages := by
  intro pages schedule
  have separates : small.Separates pages := by decide +kernel
  have fits : small.Fits pages := by
    intro source member
    apply Disk.fits_of_short
    revert source
    unfold Disk.Short
    decide +kernel
  obtain ⟨finishes, settles⟩ := follow_settles separates fits schedule
  have finished := (finishes (by decide +kernel)).mpr (by decide +kernel)
  exact ⟨finished, settles finished⟩

/-- A page in a directory with a name of any length, which would lie beside the directory of the
output. -/
def deep (more : Nat) : Place where
  anchor := .root
  names := [⟨"b", by decide, by decide, by decide, by decide⟩, .row more,
    ⟨"x.p", by decide, by decide, by decide, by decide⟩]

theorem fault?_deep {more : Nat} (few : more ≤ 1000) : (deep more).toPath.fault? = none := by
  have written : (deep more).toPath.text =
      "/b/n" ++ String.ofList (.replicate more 'n') ++ "/x.p" := by
    have chars : (deep more).toPath.text.toList = _ := Path.toList_fromRoot (deep more).names
    rw [← String.toList_inj, chars]
    simp [deep, Name.row, Path.piecesOf, Path.joined]
  have clean : (deep more).toPath.text.toList.contains '\x00' = false := by
    simp [written]
  have size : (deep more).toPath.text.utf8ByteSize = 4 + more + 4 := by
    rw [written, String.utf8ByteSize_append, String.utf8ByteSize_append, utf8ByteSize_replicate]
    rfl
  have filled : (deep more).toPath.text ≠ "" := by
    intro empty
    rw [empty] at size
    have none : "".utf8ByteSize = 0 := rfl
    omega
  rw [Path.fault?, clean, if_neg Bool.false_ne_true, if_neg filled, if_neg]
  rw [size, Path.sizeLimit]
  omega

/-- Such a page fails for its directory when this is missing, and for the name when it is there. -/
theorem build_deep {site : Site} {more : Nat} {fault : Disk.Fault} (plain : site.disk.Plain)
    (few : more ≤ 1000) (absent : site.disk.absence? [] (deep more).names = some fault) :
    site.disk.readText (deep more).toPath = .error fault ∧
      (site.buildToFile (deep more)).1 = .error (.disk fault) := by
  have found : site.disk.find (deep more).toPath = .error fault := by
    rw [@Disk.find_eq site.disk plain (deep more) rfl (List.cons_ne_nil _ _), fault?_deep few, absent]
    rfl
  have unread : site.disk.readText (deep more).toPath = .error fault := by
    rw [Disk.readText, Disk.read, found]
  refine ⟨unread, ?_⟩
  rw [Site.buildToFile, Project.render, unread]

theorem place_deep (more : Nat) : small.place (deep more).toPath = deep more :=
  Place.resolve_toPath _ rfl

/-- On its own, the page is missing like its directory. -/
theorem missing_deep : small.disk.readText (deep 255).toPath = .error .notFound ∧
    (small.buildToFile (deep 255)).1 = .error (.disk .notFound) :=
  build_deep (by decide +kernel) (by decide) (by decide +kernel)

theorem separates_deep : small.Separates [⟨"/r/i.p"⟩, (deep 255).toPath] := by
  have one : small.Separates [⟨"/r/i.p"⟩] := by decide +kernel
  have candidates : small.candidates (deep 255).toPath = ∅ := by
    have files : small.project.templates = .files := rfl
    rw [Site.candidates, files, place_deep]
    dsimp only
    rw [Project.lookups, missing_deep.1]
  have output : small.output (deep 255).toPath = (⟨"/b/o/x.html"⟩ : Path).components := by
    rw [Site.output, place_deep]
    decide +kernel
  constructor
  · exact one.plain
  · exact one.absolute
  · rintro source member other looked
    rcases List.mem_cons.mp member with rfl | member
    · exact one.beside _ (List.mem_singleton_self _) other looked
    · obtain rfl := List.mem_singleton.mp member
      rw [Site.LooksAt, place_deep, candidates] at looked
      obtain rfl := looked.resolve_right Std.ExtTreeSet.not_mem_empty
      decide +kernel
  · intro source member
    rcases List.mem_cons.mp member with rfl | member
    · exact one.below _ (List.mem_singleton_self _)
    · obtain rfl := List.mem_singleton.mp member
      rw [output]
      decide +kernel
  · rw [List.pairwise_pair, output]
    decide +kernel

/-- When another build has made its directory, a page with a name that is too long fails for the
name. -/
theorem not_settles_deep :
    let pages : List Path := [⟨"/r/i.p"⟩, (deep 255).toPath]
    let schedule := [0, 0, 0, 0, 1, 1, 1, 1]
    small.Separates pages ∧ ((start small pages).follow schedule).Finished ∧
      ¬((start small pages).follow schedule).Settles small pages := by
  intro pages schedule
  obtain ⟨-, tooLong⟩ := @build_deep (small.buildToFile (small.place ⟨"/r/i.p"⟩)).2 255 .nameTooLong
    (by decide +kernel) (by decide) (by decide +kernel)
  have place : (small.buildToFile (small.place ⟨"/r/i.p"⟩)).2.place (deep 255).toPath = deep 255 :=
    Place.resolve_toPath _ rfl
  have finished : ((start small pages).follow schedule).Finished := by
    apply (finished_sequence_iff small pages).mpr
    rw [Site.buildEach_eq, Site.buildEach_eq, place, tooLong]
    simp only [Site.buildEach, List.forall_mem_cons]
    exact ⟨by decide +kernel, rfl, List.forall_mem_nil _⟩
  refine ⟨separates_deep, finished, fun settles => ?_⟩
  have same := settles.second finished
  rw [place_deep, missing_deep.2, place, tooLong] at same
  cases same

/-- A project like the small one, with a template that includes itself. -/
def endless : Site where
  project := { layout := { small.project.layout with room := 2 } }
  disk := .ofFiles [(⟨"/r/a.html"⟩, "<t:a/>"), (⟨"/r/i.p"⟩, "<t:a/>"), (⟨"/r/k.p"⟩, "2")]

theorem separates_endless : endless.Separates [⟨"/r/i.p"⟩, ⟨"/r/k.p"⟩] := by
  decide +kernel

theorem fits_endless : endless.Fits [⟨"/r/i.p"⟩, ⟨"/r/k.p"⟩] := by
  intro source member
  apply Disk.fits_of_short
  revert source
  unfold Disk.Short
  decide +kernel

theorem not_ends_endless : Error.ends (endless.buildToFile (endless.place ⟨"/r/i.p"⟩)).1 = false := by
  decide +kernel

/-- A batch does not finish when one of its builds does not end on its own. -/
theorem not_finished_of_not_ends (separates : first.Separates sources) (fits : first.Fits sources)
    {source : Path} (member : source ∈ sources)
    (never : Error.ends (first.buildToFile (first.place source)).1 = false) (schedule : List Nat) :
    ¬((start first sources).follow schedule).Finished := by
  intro finished
  have mirrors := (Mirrors.start first sources).follow separates fits schedule
  have ends := (mirrors.settled finished.stopped).finished_iff.mp finished source member
  rw [never] at ends
  cases ends

/-- Builds that do not meet need not settle: a failure may be another one, and a page whose template
includes itself keeps the other pages from their report. -/
theorem exists_not_settles :
    (∃ pages schedule, small.Separates pages ∧ ((start small pages).follow schedule).Finished ∧
      ¬((start small pages).follow schedule).Settles small pages) ∧
    ∃ pages, endless.Separates pages ∧ endless.Fits pages ∧
      ∀ schedule, ¬((start endless pages).follow schedule).Finished :=
  ⟨⟨_, _, not_settles_deep⟩, _, separates_endless, fits_endless,
    not_finished_of_not_ends separates_endless fits_endless List.mem_cons_self not_ends_endless⟩

end Batch

end Stencil.Project
