import Stencil.Proofs.Render.Course

/-!
# Levels of nesting

The number of levels only bounds how deep templates may be nested.  A rendering that is not refused
for its depth takes the same course with every greater number of levels.
-/

namespace Stencil.Render

namespace Rendering

/-- All ends count but a refusal for depth. -/
def shallow : Admission where
  admits failure _ := failure ≠ some .tooDeep
  settled _ := True
  failed _ := ⟨nofun, fun _ => trivial⟩
  consult _ := nofun
  content _ := nofun
  fragment _ := ⟨nofun, trivial⟩

theorem shallow_ends {α : Type} {outcome : Except Error α} {store : Store} :
    shallow.Ends (outcome, store) ↔ outcome ≠ .error .tooDeep := by
  cases outcome <;> simp [Admission.Ends, shallow, failure?]

theorem shallow_answers (library : Template.Library) : shallow.Answers library library :=
  ⟨rfl, fun _ _ _ _ => rfl⟩

end Rendering

namespace Composer

open Rendering

variable (composer : Composer)

/-- A body that is not nested too deep for some levels is rendered alike with more levels. -/
theorem tracks_renderBody_of_le {levels more : Nat} (deeper : levels ≤ more) (origin : Path)
    (body : String) (scope : Bindings) :
    shallow.Tracks Any (composer.renderBody levels origin body scope)
      (composer.renderBody more origin body scope) := by
  induction levels generalizing more origin body scope with
  | zero => exact fun _ => ⟨nofun, fun admitted => absurd rfl admitted⟩
  | succ levels ih =>
      obtain ⟨more, rfl⟩ : ∃ fewer, more = fewer + 1 := ⟨more - 1, by omega⟩
      apply shallow.tracking.renderBody_any rfl
      exact tracks_expand rfl rfl (shallow_answers _) (fun _ _ _ => ih (by omega) _ _ _) origin scope

/-- A page that is not nested too deep for some levels is rendered alike with more levels. -/
theorem run_of_le {levels more : Nat} (deeper : levels ≤ more) {origin : Path} {source : String}
    {scope : Bindings} (accepted : (composer.run levels origin source scope).1 ≠ .error .tooDeep) :
    composer.run more origin source scope = composer.run levels origin source scope := by
  have tracks := (composer.tracks_renderBody_of_le deeper origin (Preamble.read source scope).2
    (Preamble.read source scope).1 .empty).2
  rw [run_eq, run_eq, (tracks (shallow_ends.mpr (accepted ∘ run_eq_error_iff.mpr))).2]

end Composer

end Stencil.Render
