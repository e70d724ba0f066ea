import Stencil.Proofs.Render.Logic

/-!
# Renderings that use nothing again

Without reuse the store is written and never read.  The outcome of such a rendering is the same
from every store, and so are the dependencies that it adds.
-/

namespace Stencil.Render

/-- Between their stores before and after, two renderings have added the same dependencies. -/
structure Store.AddsAlike (before after beforeOther afterOther : Store) : Prop where
  kept : ∀ place ∈ before.dependencies, place ∈ after.dependencies
  keptOther : ∀ place ∈ beforeOther.dependencies, place ∈ afterOther.dependencies
  added : ∀ place ∈ after.dependencies,
    place ∈ before.dependencies ∨ place ∈ afterOther.dependencies
  addedOther : ∀ place ∈ afterOther.dependencies,
    place ∈ beforeOther.dependencies ∨ place ∈ after.dependencies

namespace Store.AddsAlike

theorem of_eq {before after beforeOther afterOther : Store}
    (same : after.dependencies = before.dependencies)
    (sameOther : afterOther.dependencies = beforeOther.dependencies) :
    AddsAlike before after beforeOther afterOther :=
  ⟨by simp [same], by simp [sameOther], fun _ member => .inl (same ▸ member),
    fun _ member => .inl (sameOther ▸ member)⟩

theorem trans {before middle after beforeOther middleOther afterOther : Store}
    (first : AddsAlike before middle beforeOther middleOther)
    (second : AddsAlike middle after middleOther afterOther) :
    AddsAlike before after beforeOther afterOther where
  kept place member := second.kept place (first.kept place member)
  keptOther place member := second.keptOther place (first.keptOther place member)
  added place member := by
    rcases second.added place member with member | member
    · exact (first.added place member).imp_right (second.keptOther place)
    · exact .inr member
  addedOther place member := by
    rcases second.addedOther place member with member | member
    · exact (first.addedOther place member).imp_right (second.kept place)
    · exact .inr member

end Store.AddsAlike

theorem Store.AddsAlike.keepFragment {before after beforeOther afterOther : Store}
    (adds : AddsAlike before after beforeOther afterOther) (key fragment : String) (place : Place) :
    AddsAlike before (after.keepFragment key fragment place)
      beforeOther (afterOther.keepFragment key fragment place) := by
  rcases adds with ⟨kept, keptOther, added, addedOther⟩
  constructor <;> simp only [Store.keepFragment, Std.ExtTreeSet.mem_insert] <;> grind

namespace Rendering

/-- From any two stores, two renderings have the same outcome, and they add the same
dependencies. -/
def Independent {α : Type} (Good : α → Prop) (first second : Rendering α) : Prop :=
  ∀ store other,
    Alike Good (runFrom first store).1 (runFrom second other).1 ∧
      Store.AddsAlike store (runFrom first store).2 other (runFrom second other).2

theorem Independent.sequence {α β : Type} {Good : α → Prop} {Result : β → Prop}
    {first second : Rendering α} {next nextOther : α → Rendering β}
    (start : Independent Good first second)
    (rest : ∀ a, Good a → Independent Result (next a) (nextOther a)) :
    Independent Result (first >>= next) (second >>= nextOther) := by
  intro store other
  obtain ⟨⟨same, good⟩, adds⟩ := start store other
  rw [runFrom_bind, runFrom_bind]
  generalize runFrom first store = ended at same good adds ⊢
  generalize runFrom second other = endedOther at same adds ⊢
  rcases ended with ⟨outcome, middle⟩
  rcases endedOther with ⟨_, middleOther⟩
  obtain rfl := same
  cases outcome with
  | error error => exact ⟨⟨rfl, nofun⟩, adds⟩
  | ok a =>
      obtain ⟨result, more⟩ := rest a (good a rfl) middle middleOther
      exact ⟨result, adds.trans more⟩

/-- The logic of renderings that do not depend on the store. -/
def independence : Logic where
  Rel := Independent
  value good _ _ := ⟨⟨rfl, fun _ same => Except.ok.inj same ▸ good⟩, .of_eq rfl rfl⟩
  failure _ _ _ := ⟨⟨rfl, nofun⟩, .of_eq rfl rfl⟩
  sequence := Independent.sequence

theorem independent_locateAmong (library : Template.Library) (name : String)
    (attempted : List Path) (candidates : List Template.Candidate) :
    Independent Any (locateAmong library false name attempted candidates)
      (locateAmong library false name attempted candidates) := by
  induction candidates generalizing attempted with
  | nil => exact independence.failure _
  | cons candidate others ih =>
      intro store other
      have value : ∀ outcome : Except Error Located, Alike Any outcome outcome :=
        fun _ => ⟨rfl, fun _ _ => trivial⟩
      simp only [runFrom_locateAmong_cons, Bool.false_eq_true, if_false]
      cases library.fetch candidate.path with
      | error fault => exact ⟨value _, .of_eq rfl rfl⟩
      | ok found =>
          cases found with
          | none =>
              let place := library.identify candidate.path
              have asked : Store.AddsAlike store (store.consult place) other (other.consult place) :=
                .of_eq rfl rfl
              obtain ⟨outcome, adds⟩ :=
                ih (candidate.path :: attempted) (store.consult place) (other.consult place)
              exact ⟨outcome, asked.trans adds⟩
          | some content => exact ⟨value _, .of_eq rfl rfl⟩

end Rendering

namespace Composer

open Rendering

variable {composer : Composer} (anew : composer.reuse = false)

include anew

theorem independent_produce {render : Path → String → Bindings → Rendering String}
    (renders : ∀ origin body scope,
      Independent Any (render origin body scope) (render origin body scope))
    (scope : Bindings) (inclusion : Inclusion) :
    Independent Any (composer.produce render scope inclusion)
      (composer.produce render scope inclusion) := by
  unfold produce
  rw [anew]
  apply Independent.sequence (independent_locateAmong _ _ _ _)
  intro template _
  apply Independent.sequence (renders _ _ _)
  intro text _
  exact independence.value trivial

theorem independent_expand {render : Path → String → Bindings → Rendering String}
    (renders : ∀ origin body scope,
      Independent Any (render origin body scope) (render origin body scope))
    (origin : Path) (scope : Bindings) (inclusion : Inclusion) :
    Independent Any (composer.expand render origin scope inclusion)
      (composer.expand render origin scope inclusion) := by
  intro store other
  obtain ⟨⟨same, _⟩, adds⟩ := independent_produce anew renders scope inclusion store other
  rw [runFrom_expand, runFrom_expand, anew]
  dsimp only
  generalize runFrom (composer.produce render scope inclusion) store = ended at same adds ⊢
  generalize runFrom (composer.produce render scope inclusion) other = endedOther at same adds ⊢
  rcases ended with ⟨outcome, last⟩
  rcases endedOther with ⟨_, lastOther⟩
  obtain rfl := same
  rcases outcome with _ | ⟨place, fragment⟩
  · exact ⟨⟨rfl, nofun⟩, adds⟩
  · exact ⟨⟨rfl, fun _ _ => trivial⟩, adds.keepFragment _ _ _⟩

/-- Without reuse, the output of a body and the dependencies that it adds are the same from every
store. -/
theorem independent_renderBody (levels : Nat) (origin : Path) (body : String) (scope : Bindings) :
    Independent Any (composer.renderBody levels origin body scope)
      (composer.renderBody levels origin body scope) := by
  induction levels generalizing origin body scope with
  | zero => exact independence.failure _
  | succ levels ih =>
      exact independence.renderBody_self (independent_expand anew ih origin scope)

end Composer

end Stencil.Render
