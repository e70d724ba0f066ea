import Stencil.Proofs.Disk.Saving
import Stencil.Proofs.Render.Lookups
import Stencil.Proofs.Render.Noninterference
import Stencil.Proofs.Template.Shelves

/-!
# Files or memory

A page gives the same with templates in memory as with the same templates in files below a
directory, as long as it asks for nothing outside of the directory.  The places differ, and with
them the keys of fragments, so that the two are not compared step by step.  Each is compared with
rendering without reuse, where places only show in the dependencies.

What lies outside of the directory is replaced by a fault in both.  A page that does not end in
this fault has not met it.
-/

namespace Stencil.Render

open Text (NotSeparator Unseparated)

/-- Dependencies on places in a directory, and the same without the directory. -/
structure Prefixed (root : Place) (inner outer : Std.ExtTreeSet Place) : Prop where
  inside : ∀ place ∈ inner, place.anchor = .above 0
  mem_iff : ∀ place, place ∈ outer ↔
    ∃ names, (⟨.above 0, names⟩ : Place) ∈ inner ∧ place = root.below names

theorem prefixed_empty (root : Place) : Prefixed root ∅ ∅ := by
  constructor <;> simp

theorem Prefixed.insert {root : Place} {inner outer : Std.ExtTreeSet Place}
    (prefixed : Prefixed root inner outer) (names : List Name) :
    Prefixed root (inner.insert ⟨.above 0, names⟩) (outer.insert (root.below names)) := by
  constructor
  · intro place member
    rcases Std.ExtTreeSet.mem_insert.mp member with same | member
    · rw [← Std.compare_eq_iff_eq.mp same]
    · exact prefixed.inside place member
  · intro place
    simp only [Std.ExtTreeSet.mem_insert, Std.compare_eq_iff_eq, prefixed.mem_iff, Place.mk.injEq,
      true_and, or_and_right, exists_or, exists_eq_left']
    rw [eq_comm]

/-- Two pages fail with the same error, or give the same output with dependencies that differ in a
directory. -/
inductive Corresponds (root : Place) : Except Error Rendered → Except Error Rendered → Prop
  | value {page other : Rendered} : page.content = other.content →
      Prefixed root page.dependencies other.dependencies → Corresponds root (.ok page) (.ok other)
  | failure {error : Error} : Corresponds root (.error error) (.error error)

theorem Corresponds.eq_error_iff {root : Place} {outcome outcomeOther : Except Error Rendered}
    (corresponds : Corresponds root outcome outcomeOther) {error : Error} :
    outcome = .error error ↔ outcomeOther = .error error := by
  cases corresponds with
  | value => exact ⟨nofun, nofun⟩
  | failure => exact Iff.rfl

theorem Corresponds.content {root : Place} {outcome outcomeOther : Except Error Rendered}
    (corresponds : Corresponds root outcome outcomeOther) :
    outcome.map Rendered.content = outcomeOther.map Rendered.content := by
  cases corresponds with
  | value same => exact congrArg Except.ok same
  | failure => rfl

/-- An outcome is not every fault. -/
theorem exists_other_fault {α : Type} (outcome : Except Error α) :
    ∃ fault : Disk.Fault, outcome ≠ .error (.disk fault) := by
  by_cases missing : outcome = .error (.disk .notFound)
  · exact ⟨.alreadyExists, by rw [missing]; nofun⟩
  · exact ⟨.notFound, missing⟩

/-- In both libraries the same template is found, unless the first one comes to the fault. -/
theorem searchAmong_moved {root : Place} {fault : Disk.Fault} {library other : Template.Library}
    (moved : library.Moved root fault other) (name : String) (attempted : List Path)
    (candidates : List Template.Candidate) :
    searchAmong library name attempted candidates = .error (.disk fault) ∨
      (∃ error, searchAmong library name attempted candidates = .error error ∧
        searchAmong other name attempted candidates = .error error) ∨
      ∃ names kind content,
        searchAmong library name attempted candidates = .ok ⟨⟨.above 0, names⟩, kind, content⟩ ∧
          searchAmong other name attempted candidates = .ok ⟨root.below names, kind, content⟩ := by
  induction candidates generalizing attempted with
  | nil => exact .inr (.inl ⟨_, rfl, rfl⟩)
  | cons candidate others ih =>
      rw [searchAmong, searchAmong]
      rcases place : library.identify candidate.path with ⟨anchor, names⟩
      by_cases inside : anchor = .above 0
      · subst inside
        obtain ⟨leads, same⟩ := moved.inside candidate.path names place
        rw [same, leads]
        rcases library.fetch candidate.path with fault | _ | content
        · exact .inr (.inl ⟨_, rfl, rfl⟩)
        · exact ih _
        · exact .inr (.inr ⟨names, candidate.kind, content, rfl, rfl⟩)
      · rw [moved.outside candidate.path (by rwa [place])]
        exact .inl rfl

namespace Rendering

/-- From stores with corresponding dependencies two renderings end alike, with such stores, unless
the first one comes to the fault. -/
def Carries (root : Place) (fault : Disk.Fault) {α : Type} (Good : α → Prop)
    (first second : Rendering α) : Prop :=
  ∀ store other, Prefixed root store.dependencies other.dependencies →
    (runFrom first store).1 ≠ .error (.disk fault) →
      Alike Good (runFrom first store).1 (runFrom second other).1 ∧
        Prefixed root (runFrom first store).2.dependencies (runFrom second other).2.dependencies

variable {root : Place} {fault : Disk.Fault}

theorem Carries.sequence {α β : Type} {Good : α → Prop} {Result : β → Prop}
    {first second : Rendering α} {next nextOther : α → Rendering β}
    (start : Carries root fault Good first second)
    (rest : ∀ a, Good a → Carries root fault Result (next a) (nextOther a)) :
    Carries root fault Result (first >>= next) (second >>= nextOther) := by
  intro store other prefixed sound
  have starts := start store other prefixed
  rw [runFrom_bind] at sound ⊢
  rw [runFrom_bind]
  generalize runFrom first store = ended at starts sound ⊢
  generalize runFrom second other = endedOther at starts ⊢
  rcases ended with ⟨outcome, middle⟩
  rcases endedOther with ⟨_, middleOther⟩
  cases outcome with
  | error error =>
      obtain ⟨⟨rfl, _⟩, prefixed⟩ := starts (by simpa using sound)
      exact ⟨⟨rfl, nofun⟩, prefixed⟩
  | ok a =>
      obtain ⟨⟨rfl, good⟩, prefixed⟩ := starts nofun
      exact rest a (good a rfl) middle middleOther prefixed sound

/-- The logic of renderings with templates in two places. -/
def carrying (root : Place) (fault : Disk.Fault) : Logic where
  Rel := Carries root fault
  value good _ _ prefixed _ := ⟨⟨rfl, fun _ same => Except.ok.inj same ▸ good⟩, prefixed⟩
  failure _ _ _ prefixed _ := ⟨⟨rfl, nofun⟩, prefixed⟩
  sequence := Carries.sequence

/-- All ends count but those in the fault. -/
def sparing (fault : Disk.Fault) : Admission where
  admits failure _ := failure ≠ some (.disk fault)
  settled _ := True
  failed _ := ⟨nofun, fun _ => trivial⟩
  consult _ := nofun
  content _ := nofun
  fragment _ := ⟨nofun, trivial⟩

theorem sparing_answers (library : Template.Library) (inside : Place → Bool) (fault : Disk.Fault) :
    (sparing fault).Answers (library.confined inside fault) library := by
  refine ⟨rfl, fun path store admitted _ => ?_⟩
  simp only [Template.Library.confined] at admitted ⊢
  split at admitted
  next known => rw [if_pos known]
  · exact absurd rfl admitted

end Rendering

namespace Composer

open Rendering

/-! ## Rendering from both places -/

/-- Two composers with the same templates in two places. -/
structure Counterparts (root : Place) (fault : Disk.Fault) (composer other : Composer) : Prop where
  dialect : composer.dialect = other.dialect
  moved : composer.library.Moved root fault other.library
  comparable : Comparable True composer
  comparableOther : Comparable True other

namespace Counterparts

variable {composer other : Composer} {root : Place} {fault : Disk.Fault} {levels : Nat}
  {origin : Path} {source : String} {scope : Bindings}

theorem carries_expandForgetful (counterparts : Counterparts root fault composer other)
    (renders : ∀ origin elsewhere body scope, Carries root fault Any
      (composer.forgetful.renderBody levels origin body scope)
      (other.forgetful.renderBody levels elsewhere body scope))
    (origin elsewhere : Path) (scope : Bindings) (inclusion : Inclusion) :
    Carries root fault Any (composer.expandForgetful levels origin scope inclusion)
      (other.expandForgetful levels elsewhere scope inclusion) := by
  intro store storeOther prefixed sound
  obtain ⟨last, reads, found⟩ := @runFrom_locateAmong _ counterparts.comparable.coherent false
    inclusion.name [] (Template.candidates inclusion.name) store nofun
  obtain ⟨lastOther, readsOther, foundOther⟩ := @runFrom_locateAmong _
    counterparts.comparableOther.coherent false inclusion.name []
    (Template.candidates inclusion.name) storeOther nofun
  have prefixedLast : Prefixed root last.dependencies lastOther.dependencies := by
    rw [reads.dependencies, readsOther.dependencies]
    exact prefixed
  rw [runFrom_expandForgetful, runFrom_produce, locate, found] at sound ⊢
  rw [runFrom_expandForgetful, runFrom_produce, locate, foundOther, ← counterparts.dialect]
  rcases searchAmong_moved counterparts.moved inclusion.name []
      (Template.candidates inclusion.name) with
    outside | ⟨error, failed, failedOther⟩ | ⟨names, kind, content, here, there⟩
  · rw [outside] at sound
    exact absurd rfl sound
  · rw [failed, failedOther]
    exact ⟨⟨rfl, fun _ _ => trivial⟩, prefixedLast⟩
  · rw [here] at sound ⊢
    rw [there]
    dsimp only at sound ⊢
    have rendered := renders (Place.mk (.above 0) names).toPath (root.below names).toPath
      (inclusion.enter composer.dialect scope content).2
      (inclusion.enter composer.dialect scope content).1 last lastOther prefixedLast
    generalize runFrom (composer.forgetful.renderBody levels _ _ _) last = ended
      at rendered sound ⊢
    generalize runFrom (other.forgetful.renderBody levels _ _ _) lastOther = endedOther
      at rendered ⊢
    rcases ended with ⟨error | text, final⟩
    · obtain ⟨⟨same, _⟩, prefixedFinal⟩ := rendered (by simpa using sound)
      rcases endedOther with ⟨_, finalOther⟩
      obtain rfl := same
      exact ⟨⟨rfl, fun _ _ => trivial⟩, prefixedFinal⟩
    · obtain ⟨⟨same, _⟩, prefixedFinal⟩ := rendered (by simp)
      rcases endedOther with ⟨_, finalOther⟩
      obtain rfl := same
      exact ⟨⟨rfl, fun _ _ => trivial⟩, prefixedFinal.insert names⟩

/-- Without reuse a body is rendered alike from both places. -/
theorem carries_renderBody (counterparts : Counterparts root fault composer other) (levels : Nat)
    (origin elsewhere : Path) (body : String) (scope : Bindings) :
    Carries root fault Any (composer.forgetful.renderBody levels origin body scope)
      (other.forgetful.renderBody levels elsewhere body scope) := by
  induction levels generalizing origin elsewhere body scope with
  | zero => exact (carrying root fault).failure _
  | succ levels ih =>
      have dialect : composer.forgetful.dialect = other.forgetful.dialect := counterparts.dialect
      apply (carrying root fault).renderBody_any dialect
      exact counterparts.carries_expandForgetful ih origin elsewhere scope

/-- Without reuse a page is rendered alike from both places. -/
theorem run_forgetful (counterparts : Counterparts root fault composer other)
    (sound : (composer.forgetful.run levels origin source scope).1 ≠ .error (.disk fault)) :
    Corresponds root (composer.forgetful.run levels origin source scope).1
      (other.forgetful.run levels origin source scope).1 := by
  have carries := counterparts.carries_renderBody levels origin origin
    (Preamble.read source scope).2 (Preamble.read source scope).1 .empty .empty
    (prefixed_empty root) (sound ∘ run_eq_error_iff.mpr)
  rw [run_eq, run_eq]
  generalize runFrom (composer.forgetful.renderBody levels origin _ _) .empty = ended at carries ⊢
  generalize runFrom (other.forgetful.renderBody levels origin _ _) .empty = endedOther
    at carries ⊢
  rcases ended with ⟨outcome, last⟩
  rcases endedOther with ⟨_, lastOther⟩
  obtain ⟨⟨same, _⟩, prefixed⟩ := carries
  obtain rfl := same
  cases outcome with
  | error error => exact .failure
  | ok text => exact .value rfl prefixed

variable (counterparts : Counterparts root fault composer other) (sourceMade : Unseparated source)
  (scopeMade : scope.IsMadeOf NotSeparator)

include counterparts sourceMade scopeMade

/-- Pages that are rendered from both places correspond, unless the first one ends in the fault. -/
theorem run {more : Nat}
    (accepted : (composer.run levels origin source scope).1 ≠ .error .tooDeep)
    (sound : (composer.run levels origin source scope).1 ≠ .error (.disk fault))
    (acceptedOther : (other.run more origin source scope).1 ≠ .error .tooDeep) :
    Corresponds root (composer.run levels origin source scope).1
      (other.run more origin source scope).1 := by
  obtain ⟨enough, settles⟩ := Composer.run_forgetful counterparts.comparable origin scope sourceMade
    scopeMade (fun _ => rfl) (.inl trivial) accepted
  obtain ⟨enoughOther, settlesOther⟩ := Composer.run_forgetful counterparts.comparableOther origin
    scope sourceMade scopeMade (fun _ => rfl) (.inl trivial) acceptedOther
  have settled := (settles (max enough enoughOther) (by omega)).2 trivial
  have settledOther := (settlesOther (max enough enoughOther) (by omega)).2 trivial
  rw [← settled, ← settledOther]
  apply counterparts.run_forgetful
  rwa [settled]

/-- A page that is rendered from the first place, and does not end in the fault, is rendered from
the second one. -/
theorem exists_accepted_other
    (accepted : (composer.run levels origin source scope).1 ≠ .error .tooDeep)
    (sound : (composer.run levels origin source scope).1 ≠ .error (.disk fault)) :
    ∃ more, (other.run more origin source scope).1 ≠ .error .tooDeep := by
  obtain ⟨enough, settles⟩ := Composer.run_forgetful counterparts.comparable origin scope sourceMade
    scopeMade (fun _ => rfl) (.inl trivial) accepted
  have settled := (settles enough (Nat.le_refl enough)).2 trivial
  rw [← settled] at accepted sound
  have alike := counterparts.run_forgetful sound
  refine ⟨enough, accepted_of_forgetful counterparts.comparableOther sourceMade scopeMade ?_⟩
  exact accepted ∘ alike.eq_error_iff.mpr

/-- A page that is rendered from the second place is rendered from the first one. -/
theorem exists_accepted
    (accepted : (other.run levels origin source scope).1 ≠ .error .tooDeep) :
    ∃ more, (composer.run more origin source scope).1 ≠ .error .tooDeep := by
  obtain ⟨enough, settles⟩ := Composer.run_forgetful counterparts.comparableOther origin scope
    sourceMade scopeMade (fun _ => rfl) (.inl trivial) accepted
  have settled := (settles enough (Nat.le_refl enough)).2 trivial
  rw [← settled] at accepted
  refine ⟨enough, accepted_of_forgetful counterparts.comparable sourceMade scopeMade fun deep => ?_⟩
  have sound : (composer.forgetful.run enough origin source scope).1 ≠ .error (.disk fault) := by
    rw [deep]
    nofun
  exact accepted ((counterparts.run_forgetful sound).eq_error_iff.mp deep)

end Counterparts

/-! ## Confined pages -/

/-- The composer with a fault in place of what is not inside. -/
abbrev confined (composer : Composer) (inside : Place → Bool) (fault : Disk.Fault) : Composer :=
  { composer with library := composer.library.confined inside fault }

section Confined

variable {composer : Composer} {inside : Place → Bool} {fault : Disk.Fault} {levels : Nat}
  {origin : Path} {source : String} {scope : Bindings}

theorem comparable_confined (coherent : composer.library.Coherent)
    (made : ∀ path content,
      (composer.library.confined inside fault).fetch path = .ok (some content) →
        Unseparated content) : Comparable True (composer.confined inside fault) :=
  ⟨coherent.confined inside fault, made, .inl trivial⟩

/-- A page that does not end in the fault has not met it. -/
theorem run_confined
    (sound : ((composer.confined inside fault).run levels origin source scope).1 ≠
      .error (.disk fault)) :
    composer.run levels origin source scope =
      (composer.confined inside fault).run levels origin source scope := by
  have tracks := @tracks_renderBody (sparing fault) (composer.confined inside fault) composer rfl rfl
    (sparing_answers composer.library inside fault) levels origin (Preamble.read source scope).2
    (Preamble.read source scope).1 .empty
  have counts : (sparing fault).Ends (runFrom ((composer.confined inside fault).renderBody levels
      origin (Preamble.read source scope).2 (Preamble.read source scope).1) .empty) := by
    intro failed
    apply sound
    rw [run_eq_error_iff]
    generalize (runFrom (renderBody _ levels origin _ _) .empty).1 = outcome at failed ⊢
    cases outcome with
    | error error => exact congrArg Except.error (Option.some.inj failed)
    | ok text => cases failed
  rw [run_eq, run_eq, (tracks.2 counts).2]

/-- A page is not affected by a fault in places that it does not ask for. -/
theorem run_confined_of_consulted
    (known : ∀ place ∈ (composer.run levels origin source scope).2.consulted, inside place = true) :
    (composer.confined inside fault).run levels origin source scope =
      composer.run levels origin source scope :=
  run_of_consulted rfl fun _ member => if_pos (known _ member)

theorem accepted_confined
    (accepted : (composer.run levels origin source scope).1 ≠ .error .tooDeep) :
    ((composer.confined inside fault).run levels origin source scope).1 ≠ .error .tooDeep := by
  intro deep
  have sound : ((composer.confined inside fault).run levels origin source scope).1 ≠
      .error (.disk fault) := by
    rw [deep]
    nofun
  rw [run_confined sound] at accepted
  exact accepted deep

end Confined

/-! ## Files and memory -/

/-- A composer with templates in memory. -/
abbrev ofTexts (dialect : Dialect) (templates : List (Path × String)) : Composer :=
  { dialect, library := .ofList templates }

/-- A composer with templates in the files of a directory. -/
abbrev ofFiles (dialect : Dialect) (disk : Disk) (root : Place) : Composer :=
  { dialect, library := .below disk root }

section Interchange

variable {disk : Disk} {root : Place} {templates : List (Path × String)}
  (absolute : root.Absolute) (stores : disk.Stores root templates)
  (made : ∀ path text, (path, text) ∈ templates → Unseparated text) (dialect : Dialect)

include absolute stores made

/-- With a fault in place of all that is outside, templates in memory and in files are the same. -/
theorem counterparts_confined (fault : Disk.Fault) :
    Counterparts root fault ((ofTexts dialect templates).confined (·.anchor = .above 0) fault)
      ((ofFiles dialect disk root).confined (·.Within root) fault) where
  dialect := rfl
  moved := Template.Library.moved_of_stores stores absolute fault
  comparable := by
    apply comparable_confined (Template.Library.coherent_ofList templates)
    intro path content found
    obtain ⟨written, member⟩ :=
      Template.Library.mem_of_fetch_ofList (Template.Library.fetch_of_confined found)
    exact made written content member
  comparableOther := by
    apply comparable_confined (Template.Library.coherent_below disk root)
    intro path content found
    obtain ⟨written, member⟩ := Template.Library.mem_of_fetch_confined stores found
    exact made written content member

variable {dialect} {origin : Path} {source : String} {scope : Bindings}
  (sourceMade : Unseparated source) (scopeMade : scope.IsMadeOf NotSeparator)

include sourceMade scopeMade

/-- Templates in memory and the same templates in files can be exchanged for each other.  As long as
a page asks for nothing outside of the directory, it is rendered from one when it is from the other,
and then both fail with the same error, or give the same output, with dependencies that differ in
the directory only. -/
theorem run_interchange
    (inside : ∀ levels, ∀ place ∈ ((ofTexts dialect templates).run levels origin source
      scope).2.consulted, place.anchor = .above 0) :
    ((∃ levels, ((ofTexts dialect templates).run levels origin source scope).1 ≠ .error .tooDeep) ↔
        ∃ levels, ((ofFiles dialect disk root).run levels origin source scope).1 ≠
          .error .tooDeep) ∧
      ∀ levels more,
        ((ofTexts dialect templates).run levels origin source scope).1 ≠ .error .tooDeep →
          ((ofFiles dialect disk root).run more origin source scope).1 ≠ .error .tooDeep →
            Corresponds root ((ofTexts dialect templates).run levels origin source scope).1
              ((ofFiles dialect disk root).run more origin source scope).1 := by
  have counterparts := counterparts_confined absolute stores made dialect
  -- In memory nothing outside is asked for, so that the fault does not show.
  have same (fault : Disk.Fault) (levels : Nat) :
      ((ofTexts dialect templates).confined (·.anchor = .above 0) fault).run levels origin source
          scope = (ofTexts dialect templates).run levels origin source scope :=
    run_confined_of_consulted fun place member => decide_eq_true (inside levels place member)
  have alike (fault : Disk.Fault) {levels more : Nat}
      (accepted : ((ofTexts dialect templates).run levels origin source scope).1 ≠ .error .tooDeep)
      (sound : ((ofTexts dialect templates).run levels origin source scope).1 ≠
        .error (.disk fault))
      (acceptedFiles : (((ofFiles dialect disk root).confined (·.Within root) fault).run more origin
        source scope).1 ≠ .error .tooDeep) :
      Corresponds root ((ofTexts dialect templates).run levels origin source scope).1
        ((ofFiles dialect disk root).run more origin source scope).1 := by
    rw [← same fault] at accepted sound ⊢
    have corresponds := (counterparts fault).run sourceMade scopeMade accepted sound acceptedFiles
    rw [run_confined (sound ∘ corresponds.eq_error_iff.mpr)]
    exact corresponds
  constructor
  · constructor
    · rintro ⟨levels, accepted⟩
      obtain ⟨fault, sound⟩ := exists_other_fault
        ((ofTexts dialect templates).run levels origin source scope).1
      obtain ⟨more, acceptedFiles⟩ := (counterparts fault).exists_accepted_other sourceMade
        scopeMade (same fault levels ▸ accepted) (same fault levels ▸ sound)
      exact ⟨more, accepted ∘ (alike fault accepted sound acceptedFiles).eq_error_iff.mpr⟩
    · rintro ⟨levels, accepted⟩
      obtain ⟨more, acceptedMore⟩ := (counterparts .notFound).exists_accepted sourceMade scopeMade
        (accepted_confined accepted)
      exact ⟨more, same .notFound more ▸ acceptedMore⟩
  · intro levels more accepted acceptedFiles
    obtain ⟨fault, sound⟩ := exists_other_fault
      ((ofTexts dialect templates).run levels origin source scope).1
    exact alike fault accepted sound (accepted_confined acceptedFiles)

end Interchange

/-- A template that includes another one along a path that goes up again. -/
def twoTexts : List (Path × String) :=
  [(⟨"a.html"⟩, "({{k}})"), (⟨"p//b.html"⟩, "<t:p.:a k='2'/>")]

/-- The same templates in files, and a file outside of the directory. -/
def twoFiles : Disk :=
  .ofFiles [(⟨"/r/a.html"⟩, "({{k}})"), (⟨"/r/p/b.html"⟩, "<t:p.:a k='2'/>"),
    (⟨"/a.html"⟩, "outside")]

theorem stores_twoFiles : twoFiles.Stores (.ofPath ⟨"/r"⟩) twoTexts := by
  have held : ∀ entry ∈ twoTexts,
      entry.1.components = (entry.1.components.filterMap Component.name?).map .name ∧
        (((Place.ofPath ⟨"/r"⟩).below
            (entry.1.components.filterMap Component.name?)).toPath.fault? = none ∧
          ∀ name ∈ ((Place.ofPath ⟨"/r"⟩).below
              (entry.1.components.filterMap Component.name?)).names,
            name.text.utf8ByteSize ≤ Disk.nameLimit) ∧
        twoFiles.get? ((Place.ofPath ⟨"/r"⟩).names ++
          entry.1.components.filterMap Component.name?) = some (.file entry.2.toUTF8) := by
    decide +kernel
  have all : ∀ found ∈ twoFiles.entries.toList, found.2 ≠ .directory →
      (Place.ofPath ⟨"/r"⟩).names <+: found.1 → ∃ entry ∈ twoTexts, entry.1.components =
        (found.1.drop (Place.ofPath ⟨"/r"⟩).names.length).map .name := by decide +kernel
  apply Disk.Plain.stores (Disk.plain_ofFiles (by decide)) (by decide +kernel)
  · exact fun path text member => ⟨_, held (path, text) member⟩
  · intro names content there
    have listed := Std.ExtTreeMap.mem_toList_iff_getElem?_eq_some.mpr there
    obtain ⟨⟨path, text⟩, member, named⟩ := all _ listed nofun (List.prefix_append _ _)
    rw [List.drop_left] at named
    exact ⟨path, text, member, named⟩

/-- The page and its first template come to the other one along two paths. -/
theorem run_interchange_twice :
    ∃ levels, ((ofFiles {} twoFiles (.ofPath ⟨"/r"⟩)).run levels ⟨"i.html"⟩
      "<t:p.b/><t:a k='1'/>" ∅).1.map Rendered.content = .ok "(2)(1)" := by
  have output : (((ofTexts {} twoTexts).run 3 ⟨"i.html"⟩ "<t:p.b/><t:a k='1'/>" ∅).1.map
      Rendered.content).toOption = some "(2)(1)" := by decide +kernel
  have accepted : ((ofTexts {} twoTexts).run 3 ⟨"i.html"⟩ "<t:p.b/><t:a k='1'/>" ∅).1 ≠
      .error .tooDeep := by
    intro deep
    simp [deep, Except.map, Except.toOption] at output
  have made : ∀ entry ∈ twoTexts, Unseparated entry.2 := by decide +kernel
  have asked : ∀ levels < 4, ∀ place ∈ ((ofTexts {} twoTexts).run levels ⟨"i.html"⟩
      "<t:p.b/><t:a k='1'/>" ∅).2.consulted.toList, place.anchor = .above 0 := by decide +kernel
  have inside : ∀ levels, ∀ place ∈ ((ofTexts {} twoTexts).run levels ⟨"i.html"⟩
      "<t:p.b/><t:a k='1'/>" ∅).2.consulted, place.anchor = .above 0 := by
    intro levels place member
    by_cases few : levels < 4
    · exact asked levels few place (Std.ExtTreeSet.mem_toList.mpr member)
    · rw [run_of_le _ (by omega) accepted] at member
      exact asked 3 (by omega) place (Std.ExtTreeSet.mem_toList.mpr member)
  have sourceMade : Unseparated "<t:p.b/><t:a k='1'/>" := by decide +kernel
  obtain ⟨same, alike⟩ := run_interchange (by decide +kernel) stores_twoFiles
    (fun path text => made (path, text)) sourceMade Bindings.isMadeOf_empty inside
  obtain ⟨levels, acceptedFiles⟩ := same.mp ⟨3, accepted⟩
  refine ⟨levels, ?_⟩
  rw [← (alike 3 levels accepted acceptedFiles).content]
  exact ok_of_toOption output

end Composer

end Stencil.Render
