import Stencil.Proofs.Project.Turns

/-!
# Builds that do not meet

The builds of a batch share a site.  When none of them looks where another one writes, and no output
is in the way of another one, each of them goes on as it would on its own, in whatever order they
take their turns.  What the site holds in the end is what each build on its own makes of it, put
together.
-/

namespace Stencil.Project

open Render

/-- A value is the first one unless some have changed it, and then it is as these have it. -/
structure Merges {α : Type} (first : α) (each : Nat → α) (last : α) : Prop where
  changed : ∀ number, each number ≠ first → last = each number
  kept : (∀ number, each number = first) → last = first

namespace Merges

variable {α : Type} {first last next : α} {each others : Nat → α} {number : Nat}

theorem start (first : α) : Merges first (fun _ => first) first :=
  ⟨fun _ differs => absurd rfl differs, fun _ => rfl⟩

theorem unique (merges : Merges first each last) (also : Merges first each next) : last = next := by
  by_cases all : ∀ number, each number = first
  · rw [merges.kept all, also.kept all]
  · obtain ⟨number, differs⟩ := Classical.not_forall.mp all
    rw [merges.changed number differs, also.changed number differs]

/-- What no other has changed is as the one has it. -/
theorem eq_each (merges : Merges first each last)
    (alone : ∀ other, other ≠ number → each other = first) : last = each number := by
  by_cases same : each number = first
  · rw [same]
    apply merges.kept
    intro other
    by_cases own : other = number
    · rw [own, same]
    · exact alone other own
  · exact merges.changed number same

/-- When each has kept the value or changed it in one way, the value is kept or changed in this
way. -/
theorem cases (merges : Merges first each last) (way : α → Prop)
    (all : ∀ number, each number = first ∨ way (each number)) : last = first ∨ way last := by
  by_cases same : ∀ number, each number = first
  · exact .inl (merges.kept same)
  · obtain ⟨number, differs⟩ := Classical.not_forall.mp same
    rw [merges.changed number differs]
    exact .inr ((all number).resolve_left differs)

end Merges

namespace Site

/-- The place of a page that is asked for. -/
def place (site : Site) (source : Path) : Place :=
  site.project.layout.resolve source

/-- The components of the output of a page that is asked for. -/
def output (site : Site) (source : Path) : List Component :=
  (site.project.layout.outputPath (site.place source)).components

/-- The places at which the build of a page looks for templates. -/
def candidates (site : Site) (source : Path) : Std.ExtTreeSet Place :=
  match site.project.templates with
  | .files => site.project.lookups site.disk (site.place source)
  | .library _ => ∅

/-- The build of a page looks at a place, for the page or for a template. -/
def LooksAt (site : Site) (source : Path) (place : Place) : Prop :=
  place = site.place source ∨ place ∈ site.candidates source

/-- The builds of pages do not meet: none looks into the directory of the output or at one above it,
all have their outputs below it, and no output is another one or a directory above another one. -/
structure Separates (site : Site) (sources : List Path) : Prop where
  plain : site.disk.Plain
  absolute : site.project.layout.Absolute
  beside : ∀ source ∈ sources, ∀ place, site.LooksAt source place →
    ¬place.Within site.project.layout.outDir ∧ ¬site.project.layout.outDir.Within place
  below : ∀ source ∈ sources, site.project.layout.outDir.components <+: site.output source ∧
    site.project.layout.outDir.components ≠ site.output source
  apart : sources.Pairwise fun first second =>
    ¬site.output first <+: site.output second ∧ ¬site.output second <+: site.output first

instance (site : Site) (sources : List Path) : Decidable (site.Separates sources) :=
  decidable_of_iff
    (site.disk.Plain ∧ (site.project.layout.root.Absolute ∧ site.project.layout.outDir.Absolute) ∧
      (∀ source ∈ sources, ∀ place ∈ site.place source :: (site.candidates source).toList,
        ¬place.Within site.project.layout.outDir ∧ ¬site.project.layout.outDir.Within place) ∧
      (∀ source ∈ sources, site.project.layout.outDir.components <+: site.output source ∧
        site.project.layout.outDir.components ≠ site.output source) ∧
      sources.Pairwise fun first second =>
        ¬site.output first <+: site.output second ∧ ¬site.output second <+: site.output first) <| by
    simp only [List.mem_cons, Std.ExtTreeSet.mem_toList]
    exact ⟨fun ⟨plain, ⟨root, outDir⟩, beside, below, apart⟩ =>
        ⟨plain, ⟨root, outDir⟩, beside, below, apart⟩,
      fun separates => ⟨separates.plain, ⟨separates.absolute.root, separates.absolute.outDir⟩,
        separates.beside, separates.below, separates.apart⟩⟩

/-- No page has a name that is too long in a directory which is missing above the output. -/
def Fits (site : Site) (sources : List Path) : Prop :=
  ∀ source ∈ sources, site.disk.Fits site.project.layout.outDir.names (site.place source).names

/-- The site that the build of a page makes in some turns on its own. -/
def solo (site : Site) (sources : List Path) (turns : Nat → Nat) (number : Nat) : Site :=
  match sources[number]? with
  | none => site
  | some source => (site.alone (site.place source) (turns number)).2

end Site

variable {first : Site} {sources : List Path} {turns : Nat → Nat} {batch : Batch}

/-- Each task of a batch has come as far as it comes on its own, and the site is put together from
what the tasks make of it on their own. -/
structure Batch.Mirrors (first : Site) (sources : List Path) (turns : Nat → Nat) (batch : Batch) :
    Prop where
  tasks : ∀ number, batch.tasks[number]? = sources[number]?.map fun source =>
    { source, stage := (first.alone (first.place source) (turns number)).1 : Task }
  layout : batch.site.project.layout = first.project.layout
  templates : batch.site.project.templates = first.project.templates
  here : batch.site.disk.here = first.disk.here
  disk : ∀ location, Merges (first.disk.get? location)
    (fun number => (first.solo sources turns number).disk.get? location)
    (batch.site.disk.get? location)
  pages : ∀ place : Place, Merges first.project.pages[place]?
    (fun number => (first.solo sources turns number).project.pages[place]?)
    batch.site.project.pages[place]?

theorem Site.output_eq {source : Path} {above : List Name} {last : Component} {html : Name}
    (puts : first.project.layout.PutsAt (first.place source) above last)
    (isName : last = .name html) : first.output source = .root :: (above ++ [html]).map .name := by
  have path : first.output source = .root :: (above.map .name ++ [last]) := puts.components
  simp [path, isName]

namespace Site.Separates

variable (separates : first.Separates sources) {source other : Path} {number second : Nat}
  {above : List Name} {last : Component}

include separates

theorem putsAt (asked : sources[number]? = some source) :
    ∃ above last, first.project.layout.PutsAt (first.place source) above last := by
  have member := List.mem_of_getElem? asked
  rcases Layout.outputPath_shape separates.absolute (separates.absolute.root.resolve source) with
    puts | bare
  · exact puts
  · have same : first.output source = first.project.layout.outDir.components := by
      rw [Site.output, Site.place, Layout.resolve, bare, Layout.components_bare separates.absolute]
    exact absurd same.symm (separates.below source member).2

theorem not_output_prefix (asked : sources[number]? = some source)
    (also : sources[second]? = some other) (differ : number ≠ second) :
    ¬first.output source <+: first.output other := by
  obtain ⟨inside, rfl⟩ := List.getElem?_eq_some_iff.mp asked
  obtain ⟨within, rfl⟩ := List.getElem?_eq_some_iff.mp also
  have apart := List.pairwise_iff_getElem.mp separates.apart
  rcases Nat.lt_or_gt_of_ne differ with before | behind
  · exact (apart number second inside within before).1
  · exact (apart second number within inside behind).2

theorem output_ne (asked : sources[number]? = some source)
    (also : sources[second]? = some other) (differ : number ≠ second) :
    first.output source ≠ first.output other := by
  intro same
  have apart := separates.not_output_prefix asked also differ
  rw [same] at apart
  exact apart (List.prefix_refl _)

/-- No output of the batch is on the way to an output. -/
theorem not_output_above (asked : sources[number]? = some source)
    (also : sources[second]? = some other)
    (puts : first.project.layout.PutsAt (first.place source) above last) {names : List Name}
    (written : first.output other = .root :: names.map .name) : ¬names <+: above := by
  intro within
  have path : first.output source = (.root :: above.map .name) ++ [last] := puts.components
  have before : first.output other <+: .root :: above.map .name := by
    rw [written]
    exact (List.prefix_cons_inj _).mpr (within.map _)
  by_cases own : second = number
  · subst own
    obtain rfl := Option.some.inj (asked.symm.trans also)
    have shorter := before.length_le
    rw [path, List.length_append, List.length_singleton] at shorter
    omega
  · apply separates.not_output_prefix also asked own
    rw [path]
    exact before.trans (List.prefix_append _ _)

/-- What a task may change on its own. -/
theorem confined (turns : Nat → Nat) (asked : sources[number]? = some source)
    (puts : first.project.layout.PutsAt (first.place source) above last) :
    (first.solo sources turns number).Confined (first.place source) above last first := by
  rw [solo, asked]
  exact (confined_alone puts rfl separates.plain _).1

/-- A task on its own changes nothing, or what it may. -/
theorem solo_cases (turns : Nat → Nat) (number : Nat) :
    first.solo sources turns number = first ∨ ∃ source above last,
      sources[number]? = some source ∧
        first.project.layout.PutsAt (first.place source) above last ∧
          (first.solo sources turns number).Confined (first.place source) above last first := by
  cases asked : sources[number]? with
  | none =>
      left
      rw [solo, asked]
  | some source =>
      obtain ⟨above, last, puts⟩ := separates.putsAt asked
      exact .inr ⟨source, above, last, rfl, puts, separates.confined turns asked puts⟩

theorem solo_plain (turns : Nat → Nat) (number : Nat) :
    (first.solo sources turns number).disk.Plain := by
  rcases separates.solo_cases turns number with same | ⟨source, above, last, -, -, confined⟩
  · rw [same]
    exact separates.plain
  · exact confined.plain separates.plain

/-- On the way to an output, tasks make nothing but directories. -/
theorem get?_way (turns : Nat → Nat) (asked : sources[number]? = some source)
    (puts : first.project.layout.PutsAt (first.place source) above last)
    {location : Disk.Location} (within : location <+: above) (second : Nat) :
    (first.solo sources turns second).disk.get? location = first.disk.get? location ∨
      first.disk.get? location = none ∧
        (first.solo sources turns second).disk.get? location = some .directory := by
  rcases separates.solo_cases turns second with
    same | ⟨other, aboveOther, lastOther, also, putsOther, confined⟩
  · rw [same]
    exact .inl rfl
  · rcases confined.disk location with
      same | ⟨-, missing, made⟩ | ⟨html, content, isName, rfl, -⟩
    · exact .inl same
    · exact .inr ⟨missing, made⟩
    · exact absurd within
        (separates.not_output_above asked also puts (output_eq putsOther isName))

/-- No other task changes an output. -/
theorem get?_output (turns : Nat → Nat) (asked : sources[number]? = some source)
    (puts : first.project.layout.PutsAt (first.place source) above last) {html : Name}
    (isName : last = .name html) (differ : second ≠ number) :
    (first.solo sources turns second).disk.get? (above ++ [html]) =
      first.disk.get? (above ++ [html]) := by
  rcases separates.solo_cases turns second with
    same | ⟨other, aboveOther, lastOther, also, putsOther, confined⟩
  · rw [same]
  · rcases confined.disk (above ++ [html]) with
      same | ⟨within, -, -⟩ | ⟨htmlOther, content, isNameOther, same, -⟩
    · exact same
    · exact absurd within
        (separates.not_output_above also asked putsOther (output_eq puts isName))
    · have paths : first.output other = first.output source := by
        rw [output_eq putsOther isNameOther, output_eq puts isName, same]
      exact absurd paths (separates.output_ne also asked differ)

/-- No other task changes what is remembered of a page. -/
theorem getElem?_page (turns : Nat → Nat) (asked : sources[number]? = some source)
    (differ : second ≠ number) :
    (first.solo sources turns second).project.pages[first.place source]? =
      first.project.pages[first.place source]? := by
  rcases separates.solo_cases turns second with
    same | ⟨other, aboveOther, lastOther, also, putsOther, confined⟩
  · rw [same]
  · apply confined.pages
    intro same
    apply separates.output_ne also asked differ
    exact congrArg (fun place => (first.project.layout.outputPath place).components) same.symm

/-- Each task on its own changes nothing outside of the directory of the output, but for the
directories above it. -/
theorem solo_spares (turns : Nat → Nat) (number : Nat) :
    Disk.Spares first.project.layout.outDir.names first.disk
      (first.solo sources turns number).disk := by
  rcases separates.solo_cases turns number with same | ⟨source, above, last, -, puts, confined⟩
  · rw [same]
    exact fun _ => .inl rfl
  · intro location
    rcases confined.disk location with
      same | ⟨within, missing, made⟩ | ⟨html, content, -, rfl, -⟩
    · exact .inl same
    · rcases List.prefix_or_prefix_of_prefix within puts.within with outside | inside
      · exact .inr (.inr ⟨outside, missing, made⟩)
      · exact .inr (.inl inside)
    · exact .inr (.inl (puts.within.trans (List.prefix_append _ _)))

end Site.Separates

namespace Batch.Mirrors

theorem start (first : Site) (sources : List Path) :
    (Batch.start first sources).Mirrors first sources fun _ => 0 := by
  have unmoved : first.solo sources (fun _ => 0) = fun _ => first := by
    funext number
    unfold Site.solo
    split <;> rfl
  refine ⟨fun number => ?_, rfl, rfl, rfl, fun location => ?_, fun place => ?_⟩
  · simp [Batch.start, Site.alone, Site.turns]
  · rw [unmoved]
    exact .start _
  · rw [unmoved]
    exact .start _

/-- What is put together is determined. -/
theorem unique {other : Batch} (mirrors : batch.Mirrors first sources turns)
    (also : other.Mirrors first sources turns) : batch = other := by
  have tasks : batch.tasks = other.tasks :=
    List.ext_getElem? fun number => by rw [mirrors.tasks, also.tasks]
  have disk : batch.site.disk = other.site.disk :=
    Disk.ext (fun location => (mirrors.disk location).unique (also.disk location))
      (mirrors.here.trans also.here.symm)
  have pages : batch.site.project.pages = other.site.project.pages :=
    Std.ExtTreeMap.ext_getElem? fun place => (mirrors.pages place).unique (also.pages place)
  have layout := mirrors.layout.trans also.layout.symm
  have templates := mirrors.templates.trans also.templates.symm
  rcases batch with ⟨⟨⟨_, _, _⟩, _⟩, _⟩
  rcases other with ⟨⟨⟨_, _, _⟩, _⟩, _⟩
  simp_all

variable (mirrors : batch.Mirrors first sources turns) (separates : first.Separates sources)
  {source : Path} {number : Nat} {above : List Name} {last : Component}

include mirrors separates

theorem plain : batch.site.disk.Plain := by
  intro location target
  have way := (mirrors.disk location).cases (fun held => held ≠ some (.link target))
    fun number => .inr (separates.solo_plain turns number location target)
  rcases way with same | unlinked
  · rw [same]
    exact separates.plain location target
  · exact unlinked

theorem spares :
    Disk.Spares first.project.layout.outDir.names first.disk batch.site.disk := by
  intro location
  by_cases inside : first.project.layout.outDir.names <+: location
  · exact .inr (.inl inside)
  · have way := (mirrors.disk location).cases
      (fun held => location <+: first.project.layout.outDir.names ∧
        first.disk.get? location = none ∧ held = some .directory)
      fun number => ((separates.solo_spares turns number) location).imp_right
        fun changed => changed.resolve_left inside
    exact way.imp_right .inr

/-- On the way to an output, no more than directories is made. -/
theorem get?_way (asked : sources[number]? = some source)
    (puts : first.project.layout.PutsAt (first.place source) above last)
    {location : Disk.Location} (within : location <+: above) :
    batch.site.disk.get? location = first.disk.get? location ∨
      first.disk.get? location = none ∧ batch.site.disk.get? location = some .directory :=
  (mirrors.disk location).cases
    (fun held => first.disk.get? location = none ∧ held = some .directory)
    (separates.get?_way turns asked puts within)

end Batch.Mirrors

section Rendering

variable (separates : first.Separates sources) (fits : first.Fits sources)

include separates fits

/-- A page is rendered alike on all sites that spare what is beside the directory of the output. -/
theorem Site.Separates.render {site : Site} (layout : site.project.layout = first.project.layout)
    (templates : site.project.templates = first.project.templates) (plain : site.disk.Plain)
    (spares : Disk.Spares first.project.layout.outDir.names first.disk site.disk) {source : Path}
    (member : source ∈ sources) :
    site.project.render site.disk (first.place source) =
      first.project.render first.disk (first.place source) := by
  have absolute := separates.absolute
  have apart : ∀ place : Place, place.Absolute → first.LooksAt source place →
      Disk.Apart first.project.layout.outDir.names place.names := by
    intro place placeAbsolute looked
    obtain ⟨outside, above⟩ := separates.beside source member place looked
    rw [placeAbsolute.within_iff absolute.outDir] at outside
    rw [absolute.outDir.within_iff placeAbsolute] at above
    exact ⟨outside, above⟩
  have sourceAbsolute : (first.place source).Absolute := absolute.root.resolve source
  rw [Project.render_eq_of_same layout templates]
  apply Project.render_of_answers
  · exact spares.readText separates.plain plain sourceAbsolute
      (apart _ sourceAbsolute (.inl rfl)) (fits source member)
  · intro path looked
    cases kind : first.project.templates with
    | library library => simp only [Project.library, kind]
    | files =>
        simp only [Project.library, kind] at looked ⊢
        have placeAbsolute := absolute.root.resolve path
        have candidate : first.project.layout.root.resolve path ∈ first.candidates source := by
          rw [Site.candidates, kind]
          exact looked
        apply Template.Library.fetch_below_congr separates.plain plain absolute.root path
        exact spares.file? (apart _ placeAbsolute (.inr candidate))

end Rendering

namespace Batch.Mirrors

theorem resembles (mirrors : batch.Mirrors first sources turns)
    (separates : first.Separates sources) (fits : first.Fits sources)
    {source : Path} {number : Nat} {above : List Name} {last : Component}
    (asked : sources[number]? = some source)
    (puts : first.project.layout.PutsAt (first.place source) above last) :
    batch.site.Resembles (first.place source) above last (first.solo sources turns number) := by
  have confined := separates.confined turns asked puts
  have member := List.mem_of_getElem? asked
  have plain := mirrors.plain separates
  constructor
  · rw [mirrors.layout, confined.layout]
  · rw [separates.render fits mirrors.layout mirrors.templates plain (mirrors.spares separates)
        member,
      separates.render fits confined.layout confined.templates (confined.plain separates.plain)
        (separates.solo_spares turns number) member]
  · intro location within
    rw [Disk.file?_of_made (mirrors.get?_way separates asked puts within),
      Disk.file?_of_made (separates.get?_way turns asked puts within number)]
  · intro location within there
    by_cases same : (first.solo sources turns number).disk.get? location = first.disk.get? location
    · rcases mirrors.get?_way separates asked puts within with kept | ⟨missing, -⟩
      · rw [kept, ← same, there]
      · rw [← same, there] at missing
        cases missing
    · rw [(mirrors.disk location).changed number same, there]
  · intro html isName
    exact (mirrors.disk _).eq_each fun other differ =>
      separates.get?_output turns asked puts isName differ
  · exact (mirrors.pages _).eq_each fun other differ =>
      separates.getElem?_page turns asked differ

end Batch.Mirrors

/-- One more turn of a task. -/
def oneMore (turns : Nat → Nat) (number : Nat) : Nat → Nat :=
  fun other => if other = number then turns other + 1 else turns other

theorem solo_oneMore_of_ne (first : Site) (sources : List Path) (turns : Nat → Nat)
    {number other : Nat} (differ : other ≠ number) :
    first.solo sources (oneMore turns number) other = first.solo sources turns other := by
  unfold Site.solo
  split
  · rfl
  · rw [oneMore, if_neg differ]

theorem solo_oneMore_self {number : Nat} {source : Path} (asked : sources[number]? = some source) :
    first.solo sources (oneMore turns number) number =
      ((first.solo sources turns number).turn (first.place source)
        (first.alone (first.place source) (turns number)).1).2 := by
  rw [Site.solo, Site.solo, asked]
  dsimp only
  rw [oneMore, if_pos rfl, Site.alone_succ]

section OneMore

variable {α : Type} (see : Site → α) {value last next : α} {number : Nat}

/-- A turn that changes nothing of what is seen leaves it put together as it was. -/
theorem Merges.oneMore_kept
    (merges : Merges value (fun other => see (first.solo sources turns other)) last)
    (kept : see (first.solo sources (oneMore turns number) number) =
      see (first.solo sources turns number)) :
    Merges value (fun other => see (first.solo sources (oneMore turns number) other)) last := by
  have same : ∀ other, see (first.solo sources (oneMore turns number) other) =
      see (first.solo sources turns other) := by
    intro other
    by_cases own : other = number
    · rw [own, kept]
    · rw [solo_oneMore_of_ne first sources turns own]
  simpa only [same] using merges

/-- A turn that changes what is seen, to what others have changed it to if they have, is put together
with theirs. -/
theorem Merges.oneMore_changed
    (agree : ∀ other, other ≠ number →
      see (first.solo sources turns other) = value ∨ see (first.solo sources turns other) = next)
    (moved : see (first.solo sources (oneMore turns number) number) = next) :
    Merges value (fun other => see (first.solo sources (oneMore turns number) other)) next := by
  constructor
  · intro other differs
    by_cases own : other = number
    · rw [own, moved]
    · rw [solo_oneMore_of_ne first sources turns own] at differs ⊢
      exact ((agree other own).resolve_left differs).symm
  · exact fun all => moved.symm.trans (all number)

end OneMore

namespace Batch

/-- Turns in which no task gets any further do not count. -/
theorem Mirrors.congr {others : Nat → Nat} (mirrors : batch.Mirrors first sources turns)
    (same : ∀ number source, sources[number]? = some source →
      first.alone (first.place source) (others number) =
        first.alone (first.place source) (turns number)) :
    batch.Mirrors first sources others := by
  have solo : first.solo sources others = first.solo sources turns := by
    funext number
    unfold Site.solo
    split
    · rfl
    next source asked => rw [same number source asked]
  refine ⟨fun number => ?_, mirrors.layout, mirrors.templates, mirrors.here, ?_, ?_⟩
  · rw [mirrors.tasks]
    cases asked : sources[number]? with
    | none => rfl
    | some source => rw [Option.map_some, Option.map_some, same number source asked]
  · rw [solo]
    exact mirrors.disk
  · rw [solo]
    exact mirrors.pages

theorem Mirrors.advance_eq (mirrors : batch.Mirrors first sources turns) {number : Nat}
    {source : Path} (asked : sources[number]? = some source) :
    batch.advance number =
      ⟨(batch.site.turn (first.place source)
          (first.alone (first.place source) (turns number)).1).2,
        batch.tasks.set number ⟨source, (batch.site.turn (first.place source)
          (first.alone (first.place source) (turns number)).1).1⟩⟩ := by
  have task := mirrors.tasks number
  rw [asked, Option.map_some] at task
  have place : batch.site.project.layout.resolve source = first.place source := by
    rw [mirrors.layout]
    rfl
  unfold Batch.advance
  rw [task]
  dsimp only
  rw [place]

/-- A number that belongs to no task has no turn. -/
theorem Mirrors.advance_of_none (mirrors : batch.Mirrors first sources turns) {number : Nat}
    (none : sources[number]? = none) :
    (batch.advance number).Mirrors first sources (oneMore turns number) := by
  have task := mirrors.tasks number
  rw [none] at task
  have idle : batch.advance number = batch := by
    unfold Batch.advance
    rw [task]
    rfl
  rw [idle]
  apply mirrors.congr
  intro other source asked
  have differ : other ≠ number := by
    rintro rfl
    rw [none] at asked
    cases asked
  rw [oneMore, if_neg differ]

section Turn

variable (mirrors : batch.Mirrors first sources turns) (separates : first.Separates sources)
  {source : Path} {number : Nat} {above : List Name} {last : Component}
  (asked : sources[number]? = some source)

include mirrors separates asked

/-- A disk that a turn changes like that of the task on its own is put together as before. -/
theorem Mirrors.merges_disk (puts : first.project.layout.PutsAt (first.place source) above last)
    {disk : Disk}
    (alike : Site.ChangesAlike above last (first.solo sources turns number).disk batch.site.disk
      (first.solo sources (oneMore turns number) number).disk disk) (location : Disk.Location) :
    Merges (first.disk.get? location)
      (fun other => (first.solo sources (oneMore turns number) other).disk.get? location)
      (disk.get? location) := by
  rcases alike location with ⟨kept, otherKept⟩ | ⟨within, -, made, otherMade⟩ |
    ⟨html, content, isName, rfl, written, otherWritten⟩
  · rw [kept]
    exact Merges.oneMore_kept (·.disk.get? location) (mirrors.disk location) otherKept
  · rw [made]
    refine Merges.oneMore_changed (·.disk.get? location) ?_ otherMade
    exact fun other _ => (separates.get?_way turns asked puts within other).imp_right And.right
  · rw [written]
    refine Merges.oneMore_changed (·.disk.get? (above ++ [html])) ?_ otherWritten
    exact fun other differ => .inl (separates.get?_output turns asked puts isName differ)

/-- What is remembered of the pages is put together as before when a turn changes it like that of the
task on its own. -/
theorem Mirrors.merges_page {place : Place} {page : Option Page}
    (alike : page = batch.site.project.pages[place]? ∧
        (first.solo sources (oneMore turns number) number).project.pages[place]? =
          (first.solo sources turns number).project.pages[place]? ∨
      place = first.place source ∧
        page = (first.solo sources (oneMore turns number) number).project.pages[place]?) :
    Merges first.project.pages[place]?
      (fun other => (first.solo sources (oneMore turns number) other).project.pages[place]?)
      page := by
  rcases alike with ⟨rfl, otherKept⟩ | ⟨rfl, moved⟩
  · exact Merges.oneMore_kept (·.project.pages[place]?) (mirrors.pages place) otherKept
  · refine Merges.oneMore_changed (·.project.pages[first.place source]?) ?_ moved.symm
    exact fun other differ => .inl (separates.getElem?_page turns asked differ)

end Turn

/-- A turn of a batch is a turn of one of its tasks on its own. -/
theorem Mirrors.advance (mirrors : batch.Mirrors first sources turns)
    (separates : first.Separates sources) (fits : first.Fits sources) (number : Nat) :
    (batch.advance number).Mirrors first sources (oneMore turns number) := by
  cases asked : sources[number]? with
  | none => exact mirrors.advance_of_none asked
  | some source =>
      obtain ⟨above, last, puts⟩ := separates.putsAt asked
      obtain ⟨confined, holds⟩ := Site.confined_alone puts rfl separates.plain (turns number)
      have self := @solo_oneMore_self first sources turns number source asked
      have solo : first.solo sources turns number =
          (first.alone (first.place source) (turns number)).2 := by
        rw [Site.solo, asked]
      have next : first.alone (first.place source) (oneMore turns number number) =
          (first.alone (first.place source) (turns number)).2.turn (first.place source)
            (first.alone (first.place source) (turns number)).1 := by
        rw [oneMore, if_pos rfl, Site.alone_succ]
      rw [← solo] at confined holds next
      have alike := Site.turnAlike puts confined.layout
        (mirrors.resembles separates fits asked puts) (mirrors.plain separates)
        (confined.plain separates.plain) _ holds
      have task := mirrors.tasks number
      rw [asked, Option.map_some] at task
      rw [mirrors.advance_eq asked]
      generalize (first.alone (first.place source) (turns number)).1 = stage
        at self next alike ⊢
      refine ⟨fun other => ?_, ?_, ?_, ?_, ?_, fun place => ?_⟩
      · by_cases own : other = number
        · subst own
          have inside := (List.getElem?_eq_some_iff.mp task).1
          rw [List.getElem?_set_self inside, asked, Option.map_some, next, alike.next]
        · rw [List.getElem?_set_ne (Ne.symm own), mirrors.tasks, oneMore, if_neg own]
      · rw [Site.layout_turn, mirrors.layout]
      · rw [Site.templates_turn, mirrors.templates]
      · rw [alike.here, mirrors.here]
      · apply mirrors.merges_disk separates asked puts
        rw [self]
        exact alike.disk
      · apply mirrors.merges_page separates asked
        rw [self]
        exact alike.pages place

/-- After a schedule, each task has come as far as it comes on its own in as many turns. -/
theorem Mirrors.follow (mirrors : batch.Mirrors first sources turns)
    (separates : first.Separates sources) (fits : first.Fits sources)
    (schedule : List Nat) :
    (batch.follow schedule).Mirrors first sources
      fun number => turns number + schedule.count number := by
  induction schedule generalizing batch turns with
  | nil => exact mirrors
  | cons number rest ih =>
      have onward := ih (mirrors.advance separates fits number)
      have counts : (fun other => oneMore turns number other + rest.count other) =
          fun other => turns other + (number :: rest).count other := by
        funext other
        rw [List.count_cons, oneMore]
        by_cases own : other = number
        · simp only [own, if_true, beq_self_eq_true]
          omega
        · simp [own, Ne.symm own]
      rwa [counts] at onward

/-- No build has anything left to do. -/
def Stopped (batch : Batch) : Prop :=
  ∀ task ∈ batch.tasks, ∃ outcome, task.stage = .done outcome

/-- There was no room for one of the builds. -/
def Overflows (batch : Batch) : Prop :=
  ∃ task ∈ batch.tasks, task.stage = .done (.error .tooDeep)

instance (stage : Stage) : Decidable (stage = .done (.error .tooDeep)) :=
  match stage with
  | .waiting | .rendered _ | .prepared _ | .written _ => isFalse nofun
  | .done outcome => decidable_of_iff (¬Error.ends outcome = true) <| by
      rw [Error.ends_iff, Decidable.not_not, Stage.done.injEq]

instance (batch : Batch) : Decidable batch.Overflows :=
  inferInstanceAs (Decidable (∃ _ ∈ _, _))

theorem Finished.stopped (finished : batch.Finished) : batch.Stopped := by
  intro task member
  have ended := finished task member
  cases stage : task.stage with
  | done outcome => exact ⟨outcome, rfl⟩
  | _ =>
      rw [stage] at ended
      cases ended

/-- A batch that has stopped is finished, if there was room for all builds. -/
theorem Stopped.finished (stopped : batch.Stopped) (fits : ¬batch.Overflows) : batch.Finished := by
  intro task member
  obtain ⟨outcome, stage⟩ := stopped task member
  have ends : Error.ends outcome = true := by
    rw [Error.ends_iff]
    rintro rfl
    exact fits ⟨task, member, stage⟩
  rw [stage, Stage.outcome?, if_pos ends]
  rfl

theorem Finished.fits (finished : batch.Finished) : ¬batch.Overflows := by
  rintro ⟨task, member, stage⟩
  have ended := finished task member
  rw [stage] at ended
  cases ended

/-- A batch has stopped when each task has had four turns. -/
theorem Mirrors.stopped (mirrors : batch.Mirrors first sources turns)
    (enough : ∀ number < sources.length, 4 ≤ turns number) : batch.Stopped := by
  intro task member
  obtain ⟨number, held⟩ := List.mem_iff_getElem?.mp member
  rw [mirrors.tasks] at held
  obtain ⟨source, asked, rfl⟩ := Option.map_eq_some_iff.mp held
  have four := Site.alone_four first (first.place source)
  have done := Site.alone_add_of_done (congrArg Prod.fst four) (turns number - 4)
  rw [Nat.add_sub_cancel' (enough number (List.getElem?_eq_some_iff.mp asked).1), four] at done
  rw [done]
  exact ⟨_, rfl⟩

/-- In a batch that has stopped, each task has done what four turns do. -/
theorem Mirrors.settled (mirrors : batch.Mirrors first sources turns) (stopped : batch.Stopped) :
    batch.Mirrors first sources fun _ => 4 := by
  apply mirrors.congr
  intro number source asked
  have task := mirrors.tasks number
  rw [asked, Option.map_some] at task
  obtain ⟨outcome, done⟩ := stopped _ (List.mem_of_getElem? task)
  exact (Site.alone_of_done done).symm

end Batch

namespace Site

theorem layout_turns (site : Site) (source : Place) (stage : Stage) (count : Nat) :
    (site.turns source stage count).2.project.layout = site.project.layout := by
  induction count with
  | zero => rfl
  | succ count ih => rw [turns, layout_turn, ih]

/-- The first page is built, and the others on the site that it leaves. -/
theorem buildEach_eq (site : Site) (source : Path) (rest : List Path) :
    site.buildEach (source :: rest) =
      ((source, (site.buildToFile (site.place source)).1) ::
          ((site.buildToFile (site.place source)).2.buildEach rest).1,
        ((site.buildToFile (site.place source)).2.buildEach rest).2) := by
  have place : site.project.layout.resolve source = site.place source := rfl
  rw [buildEach, place]

end Site

namespace Batch

/-- Turns of one task go on with its build. -/
theorem follow_replicate {number : Nat} {source : Path} {stage : Stage}
    (task : batch.tasks[number]? = some ⟨source, stage⟩) (count : Nat) :
    batch.follow (List.replicate count number) =
      ⟨(batch.site.turns (batch.site.place source) stage count).2,
        batch.tasks.set number
          ⟨source, (batch.site.turns (batch.site.place source) stage count).1⟩⟩ := by
  obtain ⟨inside, held⟩ := List.getElem?_eq_some_iff.mp task
  induction count with
  | zero =>
      have same : batch.tasks.set number ⟨source, stage⟩ = batch.tasks := by
        rw [← held, List.set_getElem_self]
      simp only [Site.turns, same]
      rfl
  | succ count ih =>
      rw [List.replicate_succ', follow, List.foldl_append]
      unfold follow at ih
      rw [ih, List.foldl_cons, List.foldl_nil, advance]
      dsimp only
      rw [List.getElem?_set_self inside]
      dsimp only
      rw [Site.layout_turns, List.set_set]
      rfl

/-- One task after the other takes four turns. -/
def sequence : (number count : Nat) → List Nat
  | _, 0 => []
  | number, count + 1 => List.replicate 4 number ++ sequence (number + 1) count

/-- Pages that are built one after the other are built by tasks that take all their turns at once. -/
theorem follow_sequence (site : Site) (before : List Task) (sources : List Path) :
    (Batch.mk site (before ++ (start site sources).tasks)).follow
        (sequence before.length sources.length) =
      ⟨(site.buildEach sources).2,
        before ++ (site.buildEach sources).1.map fun (source, outcome) =>
          ⟨source, .done outcome⟩⟩ := by
  induction sources generalizing site before with
  | nil => rfl
  | cons source rest ih =>
      have task : (Batch.mk site (before ++ (start site (source :: rest)).tasks)).tasks[before.length]?
          = some ⟨source, .waiting⟩ := by
        simp [start]
      have four : site.turns (site.place source) .waiting 4 =
          (.done (site.buildToFile (site.place source)).1,
            (site.buildToFile (site.place source)).2) :=
        Site.alone_four site (site.place source)
      have moved := follow_replicate task 4
      dsimp only at moved
      rw [four] at moved
      have onward := ih (site.buildToFile (site.place source)).2
        (before ++ [⟨source, .done (site.buildToFile (site.place source)).1⟩])
      rw [List.length_append, List.length_singleton] at onward
      have tasks : (before ++ (start site (source :: rest)).tasks).set before.length
            ⟨source, .done (site.buildToFile (site.place source)).1⟩ =
          before ++ [⟨source, .done (site.buildToFile (site.place source)).1⟩] ++
            (start (site.buildToFile (site.place source)).2 rest).tasks := by
        simp [start]
      rw [tasks] at moved
      unfold follow at moved onward ⊢
      rw [List.length_cons, sequence, List.foldl_append, moved, onward]
      rw [Site.buildEach_eq, List.append_assoc]
      rfl

end Batch

end Stencil.Project
