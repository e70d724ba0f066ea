import Stencil.Proofs.Render.Evaluation

/-!
# Texts in the store

A store keeps the texts of templates so that they are not fetched again.  As long as these are the
texts that the library has, a template is found alike from every store, and a page is rendered
alike from stores that differ in nothing else.
-/

namespace Stencil.Render

/-- The texts in a store are those of the library. -/
def Store.Truthful (library : Template.Library) (store : Store) : Prop :=
  ∀ path content, store.contents[library.identify path]? = some content →
    library.fetch path = .ok (some content)

namespace Store

variable {library : Template.Library} {store : Store}

theorem truthful_empty : Store.empty.Truthful library := by
  intro path content held
  simp [Store.empty] at held

theorem Truthful.keepContent (truthful : store.Truthful library) (coherent : library.Coherent)
    {path : Path} {content : String} (fetched : library.fetch path = .ok (some content)) :
    (store.keepContent (library.identify path) content).Truthful library := by
  intro elsewhere found held
  simp only [Store.keepContent, Std.ExtTreeMap.getElem?_insert, Std.compare_eq_iff_eq] at held
  split at held
  next same => rw [← coherent same, fetched, Option.some.inj held]
  · exact truthful elsewhere found held

/-- A later store that may hold more texts of the library and nothing else. -/
structure Reads (library : Template.Library) (store last : Store) : Prop where
  truthful : store.Truthful library → last.Truthful library
  fragments : last.fragments = store.fragments
  dependencies : last.dependencies = store.dependencies

/-- The stores agree on all but the texts, which are those of the library. -/
structure SameBut (library : Template.Library) (store other : Store) : Prop where
  truthful : store.Truthful library
  truthfulOther : other.Truthful library
  fragments : store.fragments = other.fragments
  dependencies : store.dependencies = other.dependencies

end Store

open Rendering

/-- Only with reuse something in a store is used again. -/
theorem of_reuse {α : Type} {reuse : Bool} {held? : Option α} {a : α}
    (held : (if reuse then held? else none) = some a) : reuse = true ∧ held? = some a := by
  split at held
  next used => exact ⟨used, held⟩
  · cases held

/-- The library decides which template is found, unless other texts than its own are used again. -/
theorem runFrom_locateAmong {library : Template.Library} (coherent : library.Coherent)
    {reuse : Bool} (name : String) {attempted : List Path} {candidates : List Template.Candidate}
    {store : Store} (truthful : reuse = true → store.Truthful library) :
    ∃ last, store.Reads library last ∧
      runFrom (locateAmong library reuse name attempted candidates) store =
        (searchAmong library name attempted candidates, last) := by
  induction candidates generalizing attempted store with
  | nil => exact ⟨store, ⟨id, rfl, rfl⟩, rfl⟩
  | cons candidate others ih =>
      let asked := store.consult (library.identify candidate.path)
      have askedReads : store.Reads library asked := ⟨id, rfl, rfl⟩
      rw [runFrom_locateAmong_cons, searchAmong]
      dsimp only
      cases held : (if reuse then store.contents[library.identify candidate.path]? else none) with
      | some content =>
          obtain ⟨used, kept⟩ := of_reuse held
          rw [truthful used candidate.path content kept]
          exact ⟨store, ⟨id, rfl, rfl⟩, rfl⟩
      | none =>
          rcases fetched : library.fetch candidate.path with fault | _ | content
          · exact ⟨asked, askedReads, rfl⟩
          · obtain ⟨last, reads, found⟩ := @ih (candidate.path :: attempted) asked truthful
            exact ⟨last, ⟨reads.truthful, reads.fragments, reads.dependencies⟩, found⟩
          · exact ⟨asked.keepContent (library.identify candidate.path) content,
              ⟨fun held => Store.Truthful.keepContent held coherent fetched, rfl, rfl⟩, rfl⟩

/-- What is found is in the library. -/
theorem fetch_of_searchAmong {library : Template.Library} {name : String} {attempted : List Path}
    {candidates : List Template.Candidate} {template : Located}
    (found : searchAmong library name attempted candidates = .ok template) :
    ∃ path, library.fetch path = .ok (some template.content) := by
  induction candidates generalizing attempted with
  | nil => cases found
  | cons candidate others ih =>
      rw [searchAmong] at found
      rcases fetched : library.fetch candidate.path with fault | _ | content <;>
        simp only [fetched] at found
      · cases found
      · exact ih found
      · obtain rfl := Except.ok.inj found
        exact ⟨candidate.path, fetched⟩

namespace Rendering

/-- From stores that differ in their texts only, two renderings end alike, with such stores. -/
def Indifferent (library : Template.Library) {α : Type} (Good : α → Prop)
    (first second : Rendering α) : Prop :=
  ∀ store other, store.SameBut library other →
    Alike Good (runFrom first store).1 (runFrom second other).1 ∧
      (runFrom first store).2.SameBut library (runFrom second other).2

theorem Indifferent.sequence {library : Template.Library} {α β : Type} {Good : α → Prop}
    {Result : β → Prop} {first second : Rendering α} {next nextOther : α → Rendering β}
    (start : Indifferent library Good first second)
    (rest : ∀ a, Good a → Indifferent library Result (next a) (nextOther a)) :
    Indifferent library Result (first >>= next) (second >>= nextOther) := by
  intro store other same
  obtain ⟨⟨outcomes, good⟩, sameMiddle⟩ := start store other same
  rw [runFrom_bind, runFrom_bind]
  generalize runFrom first store = ended at outcomes good sameMiddle ⊢
  generalize runFrom second other = endedOther at outcomes sameMiddle ⊢
  rcases ended with ⟨outcome, middle⟩
  rcases endedOther with ⟨_, middleOther⟩
  obtain rfl := outcomes
  cases outcome with
  | error error => exact ⟨⟨rfl, nofun⟩, sameMiddle⟩
  | ok a => exact rest a (good a rfl) middle middleOther sameMiddle

/-- The logic of renderings that the texts in the store do not matter to. -/
def indifference (library : Template.Library) : Logic where
  Rel := Indifferent library
  value good _ _ same := ⟨⟨rfl, fun _ found => Except.ok.inj found ▸ good⟩, same⟩
  failure _ _ _ same := ⟨⟨rfl, nofun⟩, same⟩
  sequence := Indifferent.sequence

end Rendering

namespace Composer

variable {composer : Composer} (coherent : composer.library.Coherent)

include coherent

theorem indifferent_locate (name : String) :
    Indifferent composer.library Any (locate composer.library composer.reuse name)
      (locate composer.library composer.reuse name) := by
  intro store other same
  obtain ⟨last, reads, found⟩ := runFrom_locateAmong coherent name fun _ => same.truthful
  obtain ⟨lastOther, readsOther, foundOther⟩ :=
    runFrom_locateAmong coherent name fun _ => same.truthfulOther
  unfold locate
  rw [found, foundOther]
  constructor
  · exact ⟨rfl, fun _ _ => trivial⟩
  · constructor
    · exact reads.truthful same.truthful
    · exact readsOther.truthful same.truthfulOther
    · rw [reads.fragments, readsOther.fragments, same.fragments]
    · rw [reads.dependencies, readsOther.dependencies, same.dependencies]

theorem indifferent_expand {render : Path → String → Bindings → Rendering String}
    (renders : ∀ origin body scope,
      Indifferent composer.library Any (render origin body scope) (render origin body scope))
    (origin : Path) (scope : Bindings) (inclusion : Inclusion) :
    Indifferent composer.library Any (composer.expand render origin scope inclusion)
      (composer.expand render origin scope inclusion) := by
  have produces : Indifferent composer.library Any (composer.produce render scope inclusion)
      (composer.produce render scope inclusion) := by
    unfold produce
    apply Indifferent.sequence (indifferent_locate coherent _)
    intro template _
    apply Indifferent.sequence (renders _ _ _)
    intro text _
    exact (indifference _).value trivial
  intro store other same
  obtain ⟨⟨outcomes, _⟩, sameLast⟩ := produces store other same
  rw [runFrom_expand, runFrom_expand, same.fragments]
  dsimp only
  cases (if composer.reuse then other.fragments[inclusion.fragmentKey origin scope]? else none) with
  | some fragment => exact ⟨⟨rfl, fun _ _ => trivial⟩, same⟩
  | none =>
      dsimp only
      generalize runFrom (composer.produce render scope inclusion) store = ended
        at outcomes sameLast ⊢
      generalize runFrom (composer.produce render scope inclusion) other = endedOther
        at outcomes sameLast ⊢
      rcases ended with ⟨outcome, last⟩
      rcases endedOther with ⟨_, lastOther⟩
      obtain rfl := outcomes
      rcases outcome with error | ⟨place, fragment⟩
      · exact ⟨⟨rfl, nofun⟩, sameLast⟩
      · have sameLast : last.SameBut composer.library lastOther := sameLast
        constructor
        · exact ⟨rfl, fun _ _ => trivial⟩
        · constructor
          · exact sameLast.truthful
          · exact sameLast.truthfulOther
          · simp only [Store.keepFragment, sameLast.fragments]
          · simp only [Store.keepFragment, sameLast.dependencies]

/-- A body is rendered alike whatever texts of the library are in the store. -/
theorem indifferent_renderBody (levels : Nat) (origin : Path) (body : String) (scope : Bindings) :
    Indifferent composer.library Any (composer.renderBody levels origin body scope)
      (composer.renderBody levels origin body scope) := by
  induction levels generalizing origin body scope with
  | zero => exact (indifference _).failure _
  | succ levels ih =>
      exact (indifference _).renderBody_self (indifferent_expand coherent ih origin scope)

end Composer

end Stencil.Render
