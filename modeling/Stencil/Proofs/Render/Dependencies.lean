import Stencil.Proofs.Render.Course
import Stencil.Proofs.Render.Loaded

/-!
# Dependencies of pages

The dependencies of a page are complete: as long as no template appears where there was none, only
a change to one of them can change the page.  They are exact in that every one of them was loaded.
-/

namespace Stencil.Render

namespace Rendering

/-- The ends of renderings that succeed with no dependencies but the given ones. -/
def within (dependencies : Std.ExtTreeSet Place) : Admission where
  admits failure store := failure = none ∧ ∀ place ∈ store.dependencies, place ∈ dependencies
  settled place := place ∈ dependencies
  failed admitted := by cases admitted.1
  consult admitted := admitted
  content admitted := admitted
  fragment admitted := by
    rcases admitted with ⟨_, inside⟩
    have place := inside _ Std.ExtTreeSet.mem_insert_self
    exact ⟨⟨rfl, fun _ member => inside _ (Std.ExtTreeSet.mem_insert.mpr (.inr member))⟩, place⟩

theorem within_answers {dependencies : Std.ExtTreeSet Place} {library other : Template.Library}
    (identify : other.identify = library.identify)
    (agrees : ∀ path, library.identify path ∈ dependencies →
      other.fetch path = library.fetch path)
    (absent : ∀ path, library.fetch path = .ok none → other.fetch path = .ok none) :
    (within dependencies).Answers library other := by
  constructor
  · exact identify
  · intro path store admitted settled
    rcases fetched : library.fetch path with fault | _ | content
    · rw [fetched] at admitted
      cases admitted.1
    · exact absent path fetched
    · exact fetched ▸ agrees path (settled content fetched)

end Rendering

namespace Composer

open Rendering

variable {composer : Composer} {other : Template.Library} {levels : Nat} {origin : Path}
  {source : String} {scope : Bindings} {rendered : Rendered}

/-- A page stays as it is, with its dependencies, when the library changes only where the page has
no dependencies and adds no template where there was none.  Every dependency is a template that
the library was asked for and that it gave. -/
theorem run_dependencies
    (ran : (composer.run levels origin source scope).1 = .ok rendered) :
    (∀ other : Template.Library, other.identify = composer.library.identify →
      (∀ path, composer.library.identify path ∈ rendered.dependencies →
        other.fetch path = composer.library.fetch path) →
      (∀ path, composer.library.fetch path = .ok none → other.fetch path = .ok none) →
        ({ composer with library := other }.run levels origin source scope).1 = .ok rendered) ∧
      ∀ place ∈ rendered.dependencies,
        place ∈ (composer.run levels origin source scope).2.consulted ∧
          ∃ path content, composer.library.identify path = place ∧
            composer.library.fetch path = .ok (some content) ∧
              (composer.run levels origin source scope).2.contents[place]? = some content := by
  have loaded := composer.loaded_run levels origin source scope
  have tracks := fun admission other answers =>
    @tracks_renderBody admission composer { composer with library := other } rfl rfl answers levels
      origin (Preamble.read source scope).2 (Preamble.read source scope).1 .empty
  rw [run_eq] at ran loaded ⊢
  simp only [run_eq]
  generalize runFrom (composer.renderBody levels origin _ _) .empty = ended
    at ran loaded tracks ⊢
  rcases ended with ⟨outcome, store⟩
  cases outcome with
  | error error => cases ran
  | ok text =>
      obtain rfl := Except.ok.inj ran
      constructor
      · intro other identify agrees absent
        have answers := within_answers identify agrees absent
        have same := (tracks _ other answers).2 ⟨rfl, fun _ member => member⟩
        rw [same.2]
        rfl
      · intro place member
        obtain ⟨content, held⟩ := Option.isSome_iff_exists.mp
          (Std.ExtTreeMap.mem_iff_isSome_getElem?.mp (loaded.dependencies place member))
        obtain ⟨consulted, path, same, fetched⟩ := loaded.contents place content held
        exact ⟨consulted, path, content, same, fetched, held⟩

/-- Of three templates the page includes one, and that one the second.  The third may change. -/
theorem run_dependencies_unused :
    let templates : List (Path × String) :=
      [(⟨"a.html"⟩, "<t:b/>!"), (⟨"b.html"⟩, "b"), (⟨"c.html"⟩, "c")]
    let other : List (Path × String) := [(⟨"a.html"⟩, "<t:b/>!"), (⟨"b.html"⟩, "b")]
    let composer : Composer := { dialect := {}, library := .ofList templates }
    ∃ rendered, (composer.run 3 ⟨"index.html"⟩ "<t:a/>" ∅).1 = .ok rendered ∧
      rendered.content = "b!" ∧
      rendered.dependencies.toList = [Place.ofPath ⟨"a.html"⟩, Place.ofPath ⟨"b.html"⟩] ∧
      ({ composer with library := .ofList other }.run 3 ⟨"index.html"⟩ "<t:a/>" ∅).1 =
        .ok rendered := by
  intro templates other composer
  have given : ((composer.run 3 ⟨"index.html"⟩ "<t:a/>" ∅).1.toOption.map fun rendered =>
      (rendered.content, rendered.dependencies.toList)) =
        some ("b!", [Place.ofPath ⟨"a.html"⟩, Place.ofPath ⟨"b.html"⟩]) := by decide +kernel
  rcases ran : (composer.run 3 ⟨"index.html"⟩ "<t:a/>" ∅).1 with _ | rendered
  · simp [ran, Except.toOption] at given
  · simp only [ran, Except.toOption, Option.map_some, Option.some.injEq, Prod.mk.injEq] at given
    refine ⟨rendered, rfl, given.1, given.2, ?_⟩
    have dependencies := given.2
    have apart : Place.ofPath ⟨"c.html"⟩ ≠ Place.ofPath ⟨"a.html"⟩ ∧
        Place.ofPath ⟨"c.html"⟩ ≠ Place.ofPath ⟨"b.html"⟩ := by decide
    apply (run_dependencies ran).1
    · rfl
    · intro path member
      have member : Place.ofPath path ∈ rendered.dependencies := member
      simp only [← Std.ExtTreeSet.mem_toList, dependencies, List.mem_cons, List.not_mem_nil,
        or_false] at member
      simp only [composer, templates, other, Template.Library.ofList, List.foldl_cons,
        List.foldl_nil, Std.ExtTreeMap.getElem?_insert, Std.compare_eq_iff_eq]
      rcases member with same | same <;> simp [same, apart]
    · intro path absent
      simp only [composer, templates, other, Template.Library.ofList, List.foldl_cons,
        List.foldl_nil, Std.ExtTreeMap.getElem?_insert, Std.compare_eq_iff_eq] at absent ⊢
      split at absent
      · cases absent
      · exact absent

end Composer

end Stencil.Render
