import Stencil.Proofs.Render.Course
import Stencil.Proofs.Template.Coherence

/-!
# Where a page looks for templates

The places at which the library was asked decide a page: a library that answers alike at all of them
gives the same page.  When the page is rendered, each of these places where there was anything is
one of its dependencies.
-/

namespace Stencil.Render

namespace Rendering

/-- All ends count at which the library was asked for none but the given places. -/
def asking (asked : Std.ExtTreeSet Place) : Admission where
  admits _ store := ∀ place ∈ store.consulted, place ∈ asked
  settled _ := True
  failed admitted := ⟨admitted, fun _ => trivial⟩
  consult admitted place member := admitted place (Std.ExtTreeSet.mem_insert.mpr (.inr member))
  content admitted := admitted
  fragment admitted := ⟨admitted, trivial⟩

theorem asking_answers {asked : Std.ExtTreeSet Place} {library other : Template.Library}
    (identify : other.identify = library.identify)
    (agrees : ∀ path, library.identify path ∈ asked → other.fetch path = library.fetch path) :
    (asking asked).Answers library other := by
  refine ⟨identify, fun path store admitted _ => agrees path ?_⟩
  exact admitted _ Std.ExtTreeSet.mem_insert_self

/-- Between two stores, every place that was asked for and holds something has become a
dependency. -/
structure Settles (library : Template.Library) (before after : Store) : Prop where
  dependencies : ∀ place ∈ before.dependencies, place ∈ after.dependencies
  consulted : ∀ path, library.identify path ∈ after.consulted → library.fetch path ≠ .ok none →
    library.identify path ∈ before.consulted ∨ library.identify path ∈ after.dependencies

variable {library : Template.Library}

theorem Settles.refl (store : Store) : Settles library store store :=
  ⟨fun _ => id, fun _ member _ => .inl member⟩

theorem Settles.trans {before middle after : Store} (first : Settles library before middle)
    (last : Settles library middle after) : Settles library before after := by
  constructor
  · exact fun place member => last.dependencies place (first.dependencies place member)
  · intro path member filled
    rcases last.consulted path member filled with earlier | settled
    · exact (first.consulted path earlier filled).imp id (last.dependencies _)
    · exact .inr settled

/-- The logic of renderings that settle what they ask for when they succeed. -/
def settling (library : Template.Library) : Logic where
  Rel good rendering _ := ∀ store a, (runFrom rendering store).1 = .ok a →
    good a ∧ Settles library store (runFrom rendering store).2
  value good store a same := ⟨Except.ok.inj same ▸ good, .refl store⟩
  failure _ _ _ := nofun
  sequence start rest := by
    intro store b ended
    rw [runFrom_bind] at ended ⊢
    rcases ran : runFrom _ store with ⟨_ | a, middle⟩ <;> rw [ran] at ended
    · cases ended
    · obtain ⟨good, first⟩ := start store a (by rw [ran])
      obtain ⟨result, last⟩ := rest a good middle b ended
      rw [ran] at first
      exact ⟨result, first.trans last⟩

/-- Of the candidates that were asked for, only the one that was found holds anything. -/
theorem consulted_locateAmong (coherent : library.Coherent) (reuse : Bool) (name : String)
    (attempted : List Path) (candidates : List Template.Candidate) (store : Store)
    {template : Located}
    (found : (runFrom (locateAmong library reuse name attempted candidates) store).1 = .ok template) :
    let after := (runFrom (locateAmong library reuse name attempted candidates) store).2
    after.dependencies = store.dependencies ∧
      ∀ path, library.identify path ∈ after.consulted → library.fetch path ≠ .ok none →
        library.identify path ∈ store.consulted ∨ library.identify path = template.place := by
  induction candidates generalizing attempted store with
  | nil => cases found
  | cons candidate others ih =>
      rw [runFrom_locateAmong_cons] at found ⊢
      dsimp only at found ⊢
      split at found
      · exact ⟨rfl, fun _ member _ => .inl member⟩
      · rcases fetched : library.fetch candidate.path with fault | _ | content <;>
          simp only [fetched] at found
        · cases found
        · obtain ⟨same, consulted⟩ := ih _ _ found
          constructor
          · exact same
          · intro path member filled
            rcases consulted path member filled with earlier | settled
            · rcases Std.ExtTreeSet.mem_insert.mp earlier with asked | earlier
              · -- The candidate itself holds nothing, under whatever path it is asked for.
                have asked := coherent (Std.compare_eq_iff_eq.mp asked)
                exact absurd (asked.symm.trans fetched) filled
              · exact .inl earlier
            · exact .inr settled
        · obtain rfl := Except.ok.inj found
          constructor
          · rfl
          · intro path member _
            rcases Std.ExtTreeSet.mem_insert.mp member with asked | earlier
            · exact .inr (Std.compare_eq_iff_eq.mp asked).symm
            · exact .inl earlier

end Rendering

namespace Composer

open Rendering

variable (composer : Composer)

theorem settles_expand (coherent : composer.library.Coherent)
    {render : Path → String → Bindings → Rendering String}
    (renders : ∀ origin body scope, (settling composer.library).Rel Any
      (render origin body scope) (render origin body scope))
    (origin : Path) (scope : Bindings) (inclusion : Inclusion) :
    (settling composer.library).Rel Any (composer.expand render origin scope inclusion)
      (composer.expand render origin scope inclusion) := by
  intro store text ended
  refine ⟨trivial, ?_⟩
  have located := @consulted_locateAmong composer.library coherent composer.reuse inclusion.name []
    (Template.candidates inclusion.name) store
  rw [runFrom_expand] at ended ⊢
  dsimp only at ended ⊢
  split at ended
  · exact .refl store
  · rw [runFrom_produce] at ended ⊢
    unfold locate at ended ⊢
    generalize runFrom (locateAmong _ _ _ _ _) store = first at located ended ⊢
    rcases first with ⟨_ | template, middle⟩
    · cases ended
    · obtain ⟨same, consulted⟩ := located rfl
      have rendered := renders template.place.toPath
        (inclusion.enter composer.dialect scope template.content).2
        (inclusion.enter composer.dialect scope template.content).1 middle
      dsimp only at ended ⊢
      generalize runFrom (render _ _ _) middle = second at rendered ended ⊢
      rcases second with ⟨_ | body, last⟩
      · cases ended
      · obtain ⟨-, inner⟩ := rendered body rfl
        constructor
        · intro place member
          exact Std.ExtTreeSet.mem_insert.mpr
            (.inr (inner.dependencies place (same ▸ member)))
        · intro path member filled
          rcases inner.consulted path member filled with earlier | settled
          · rcases consulted path earlier filled with before | located
            · exact .inl before
            · exact .inr (Std.ExtTreeSet.mem_insert.mpr
                (.inl (Std.compare_eq_iff_eq.mpr located.symm)))
          · exact .inr (Std.ExtTreeSet.mem_insert.mpr (.inr settled))

theorem settles_renderBody (coherent : composer.library.Coherent) (levels : Nat) (origin : Path)
    (body : String) (scope : Bindings) :
    (settling composer.library).Rel Any (composer.renderBody levels origin body scope)
      (composer.renderBody levels origin body scope) := by
  induction levels generalizing origin body scope with
  | zero => exact (settling composer.library).failure _
  | succ levels ih =>
      apply (settling composer.library).renderBody_self
      exact composer.settles_expand coherent ih origin scope

variable {composer} {levels : Nat} {origin : Path} {source : String} {scope : Bindings}

/-- A page comes out the same with a library that answers alike wherever it was asked. -/
theorem run_of_consulted {other : Template.Library}
    (identify : other.identify = composer.library.identify)
    (agrees : ∀ path,
      composer.library.identify path ∈ (composer.run levels origin source scope).2.consulted →
        other.fetch path = composer.library.fetch path) :
    { composer with library := other }.run levels origin source scope =
      composer.run levels origin source scope := by
  have tracks := @tracks_renderBody (asking (composer.run levels origin source scope).2.consulted)
    composer { composer with library := other } rfl rfl (asking_answers identify agrees) levels
    origin (Preamble.read source scope).2 (Preamble.read source scope).1 .empty
  rw [run_eq, run_eq, (tracks.2 fun _ => id).2]

/-- In a page that was rendered, every place where something was found is a dependency. -/
theorem mem_dependencies_of_consulted (coherent : composer.library.Coherent) {rendered : Rendered}
    (ran : (composer.run levels origin source scope).1 = .ok rendered) {path : Path}
    (consulted :
      composer.library.identify path ∈ (composer.run levels origin source scope).2.consulted)
    (filled : composer.library.fetch path ≠ .ok none) :
    composer.library.identify path ∈ rendered.dependencies := by
  have settles := composer.settles_renderBody coherent levels origin
    (Preamble.read source scope).2 (Preamble.read source scope).1 .empty
  rw [run_eq] at ran consulted
  generalize runFrom (composer.renderBody levels origin _ _) .empty = ended at settles ran consulted
  rcases ended with ⟨_ | text, store⟩
  · cases ran
  · obtain rfl := Except.ok.inj ran
    obtain ⟨-, settles⟩ := settles text rfl
    rcases settles.consulted path consulted filled with before | settled
    · simp [Store.empty] at before
    · exact settled

end Composer

end Stencil.Render
