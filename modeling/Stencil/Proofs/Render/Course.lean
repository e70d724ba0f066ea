import Stencil.Proofs.Render.Logic

/-!
# Renderings that take the same course

Two renderings with different libraries, or with different bounds on the nesting, often take the
same course, but only when the first one ends in a certain way.  An admission says which ends
count.  Whatever the first rendering has asked the library by then, the second one has to get the
same answer.
-/

namespace Stencil.Render

namespace Rendering

/-- The error of an outcome, if any. -/
def failure? {α : Type} : Except Error α → Option Error
  | .ok _ => none
  | .error error => some error

/-- The ends of a rendering that count, given by the error and the store at the end.  When an end
counts, so do all stores on the way there, and every template that a fragment was made from is
settled. -/
structure Admission where
  admits : Option Error → Store → Prop
  settled : Place → Prop
  failed : ∀ {error store}, admits (some error) store → admits none store ∧ ∀ place, settled place
  consult : ∀ {store place}, admits none (store.consult place) → admits none store
  content : ∀ {store place content},
    admits none (store.keepContent place content) → admits none store
  fragment : ∀ {store key fragment place},
    admits none (store.keepFragment key fragment place) → admits none store ∧ settled place

namespace Admission

variable (admission : Admission) {α β : Type}

/-- The end of a run counts. -/
def Ends (ended : Except Error α × Store) : Prop :=
  admission.admits (failure? ended.1) ended.2

/-- When the first rendering has an end that counts, the second one takes the same course. -/
def Tracks (Good : α → Prop) (first second : Rendering α) : Prop :=
  ∀ store,
    (∀ a, (runFrom first store).1 = .ok a → Good a) ∧
      (admission.Ends (runFrom first store) →
        admission.admits none store ∧ runFrom second store = runFrom first store)

variable {admission}

theorem Tracks.sequence {Good : α → Prop} {Result : β → Prop} {first second : Rendering α}
    {next other : α → Rendering β} (start : admission.Tracks Good first second)
    (rest : ∀ a, Good a → admission.Tracks Result (next a) (other a)) :
    admission.Tracks Result (first >>= next) (second >>= other) := by
  intro store
  obtain ⟨good, starts⟩ := start store
  rw [runFrom_bind, runFrom_bind]
  rcases ran : runFrom first store with ⟨error | a, middle⟩ <;> rw [ran] at good starts
  · constructor
    · exact nofun
    · intro admitted
      obtain ⟨admittedStore, same⟩ := starts admitted
      rw [same]
      exact ⟨admittedStore, rfl⟩
  · obtain ⟨result, goes⟩ := rest a (good a rfl) middle
    constructor
    · exact result
    · intro admitted
      obtain ⟨admittedMiddle, sameNext⟩ := goes admitted
      obtain ⟨admittedStore, same⟩ := starts admittedMiddle
      rw [same]
      exact ⟨admittedStore, sameNext⟩

variable (admission)

/-- The logic of renderings that take the same course. -/
def tracking : Logic where
  Rel := admission.Tracks
  value good _ := ⟨fun _ same => Except.ok.inj same ▸ good, fun admitted => ⟨admitted, rfl⟩⟩
  failure _ _ := ⟨nofun, fun admitted => ⟨(admission.failed admitted).1, rfl⟩⟩
  sequence := Tracks.sequence

/-- As long as the end counts, the second library answers every question like the first one. -/
structure Answers (library other : Template.Library) : Prop where
  identify : other.identify = library.identify
  fetch : ∀ (path : Path) (store : Store),
    admission.admits (failure? ((library.fetch path).mapError Error.disk))
        (store.consult (library.identify path)) →
      (∀ content, library.fetch path = .ok (some content) →
        admission.settled (library.identify path)) →
          other.fetch path = library.fetch path

variable {admission} {library other : Template.Library}

theorem tracks_locateAmong (answers : admission.Answers library other) (reuse : Bool)
    (name : String) (attempted : List Path) (candidates : List Template.Candidate) (store : Store)
    (admitted : admission.Ends (runFrom (locateAmong library reuse name attempted candidates) store))
    (settled : ∀ template,
      (runFrom (locateAmong library reuse name attempted candidates) store).1 = .ok template →
        admission.settled template.place) :
    admission.admits none store ∧
      runFrom (locateAmong other reuse name attempted candidates) store =
        runFrom (locateAmong library reuse name attempted candidates) store := by
  induction candidates generalizing attempted store with
  | nil => exact ⟨(admission.failed admitted).1, rfl⟩
  | cons candidate others ih =>
      have asked := answers.fetch candidate.path store
      simp only [runFrom_locateAmong_cons, answers.identify] at admitted settled ⊢
      generalize (if reuse then store.contents[library.identify candidate.path]? else none) = held
        at admitted settled ⊢
      cases held with
      | some content => exact ⟨admitted, rfl⟩
      | none =>
          dsimp only at admitted settled ⊢
          rcases fetched : library.fetch candidate.path with fault | _ | content <;>
            rw [fetched] at asked <;> simp only [fetched] at admitted settled ⊢
          · rw [asked admitted nofun]
            exact ⟨admission.consult (admission.failed admitted).1, rfl⟩
          · obtain ⟨admittedStore, same⟩ := ih _ _ admitted settled
            rw [asked admittedStore nofun]
            exact ⟨admission.consult admittedStore, same⟩
          · have admittedStore := admission.content admitted
            rw [asked admittedStore fun _ _ => settled _ rfl]
            exact ⟨admission.consult admittedStore, rfl⟩

end Admission

end Rendering

namespace Composer

open Rendering

variable {admission : Admission} {composer other : Composer}
  (dialect : composer.dialect = other.dialect) (reuse : composer.reuse = other.reuse)
  (answers : admission.Answers composer.library other.library)

include dialect reuse answers

theorem tracks_produce {render renderOther : Path → String → Bindings → Rendering String}
    (renders : ∀ origin body scope,
      admission.Tracks Any (render origin body scope) (renderOther origin body scope))
    (scope : Bindings) (inclusion : Inclusion) (store : Store)
    (admitted : admission.Ends (runFrom (composer.produce render scope inclusion) store))
    (settled : ∀ found, (runFrom (composer.produce render scope inclusion) store).1 = .ok found →
      admission.settled found.1) :
    admission.admits none store ∧
      runFrom (other.produce renderOther scope inclusion) store =
        runFrom (composer.produce render scope inclusion) store := by
  have located := Admission.tracks_locateAmong answers composer.reuse inclusion.name []
    (Template.candidates inclusion.name) store
  rw [runFrom_produce] at admitted settled ⊢
  rw [runFrom_produce, ← dialect, ← reuse]
  unfold locate at admitted settled ⊢
  generalize runFrom (locateAmong composer.library _ _ _ _) store = ended
    at located admitted settled ⊢
  rcases ended with ⟨error | template, middle⟩
  · obtain ⟨admittedStore, same⟩ := located admitted nofun
    rw [same]
    exact ⟨admittedStore, rfl⟩
  · dsimp only at admitted settled ⊢
    have rendered := (renders template.place.toPath
      (inclusion.enter composer.dialect scope template.content).2
      (inclusion.enter composer.dialect scope template.content).1 middle).2
    generalize runFrom (render _ _ _) middle = ended at rendered admitted settled ⊢
    -- A template is settled when a fragment is made from it, or when a failure counts.
    have whole : admission.Ends ended ∧ admission.settled template.place := by
      rcases ended with ⟨error | text, last⟩
      · exact ⟨admitted, (admission.failed admitted).2 _⟩
      · exact ⟨admitted, settled _ rfl⟩
    obtain ⟨admittedMiddle, sameText⟩ := rendered whole.1
    obtain ⟨admittedStore, same⟩ := located admittedMiddle fun _ found =>
      Except.ok.inj found ▸ whole.2
    rw [same]
    dsimp only
    rw [sameText]
    exact ⟨admittedStore, rfl⟩

theorem tracks_expand {render renderOther : Path → String → Bindings → Rendering String}
    (renders : ∀ origin body scope,
      admission.Tracks Any (render origin body scope) (renderOther origin body scope))
    (origin : Path) (scope : Bindings) (inclusion : Inclusion) :
    admission.Tracks Any (composer.expand render origin scope inclusion)
      (other.expand renderOther origin scope inclusion) := by
  intro store
  refine ⟨fun _ _ => trivial, fun admitted => ?_⟩
  have produced := tracks_produce dialect reuse answers renders scope inclusion store
  rw [runFrom_expand] at admitted ⊢
  rw [runFrom_expand, ← reuse]
  dsimp only at admitted ⊢
  generalize (if composer.reuse then store.fragments[inclusion.fragmentKey origin scope]? else none)
    = held at admitted ⊢
  cases held with
  | some fragment => exact ⟨admitted, rfl⟩
  | none =>
      dsimp only at admitted ⊢
      generalize runFrom (composer.produce render scope inclusion) store = ended
        at produced admitted ⊢
      rcases ended with ⟨error | ⟨place, fragment⟩, last⟩
      · obtain ⟨admittedStore, same⟩ := produced admitted nofun
        rw [same]
        exact ⟨admittedStore, rfl⟩
      · obtain ⟨admittedLast, settled⟩ := admission.fragment admitted
        obtain ⟨admittedStore, same⟩ := produced admittedLast fun _ found =>
          Except.ok.inj found ▸ settled
        rw [same]
        exact ⟨admittedStore, rfl⟩

/-- A body that ends in a way that counts is rendered alike with the other library. -/
theorem tracks_renderBody (levels : Nat) (origin : Path) (body : String) (scope : Bindings) :
    admission.Tracks Any (composer.renderBody levels origin body scope)
      (other.renderBody levels origin body scope) := by
  induction levels generalizing origin body scope with
  | zero => exact admission.tracking.failure _
  | succ levels ih =>
      apply admission.tracking.renderBody_any dialect
      exact tracks_expand dialect reuse answers ih origin scope

end Composer

end Stencil.Render
