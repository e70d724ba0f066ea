import Stencil.Proofs.Render.Logic

/-!
# What a rendering has loaded

The texts in a store are the templates that the library has given in answer to a question.  Every
dependency is among them, because a fragment is finished only after its template was loaded.
-/

namespace Stencil.Render

/-- The texts of a store are templates of the library that were asked for, and all dependencies are
among them. -/
structure Store.Loaded (library : Template.Library) (store : Store) : Prop where
  contents : ∀ place content, store.contents[place]? = some content →
    place ∈ store.consulted ∧
      ∃ path, library.identify path = place ∧ library.fetch path = .ok (some content)
  dependencies : ∀ place ∈ store.dependencies, place ∈ store.contents

namespace Store

variable {library : Template.Library} {store : Store} {place : Place}

theorem loaded_empty : Store.empty.Loaded library := by
  constructor <;> intro place <;> simp [Store.empty]

theorem Loaded.consult (loaded : store.Loaded library) (place : Place) :
    (store.consult place).Loaded library := by
  refine ⟨fun found content held => ?_, loaded.dependencies⟩
  obtain ⟨consulted, given⟩ := loaded.contents found content held
  exact ⟨Std.ExtTreeSet.mem_insert.mpr (.inr consulted), given⟩

theorem Loaded.keepContent (loaded : store.Loaded library) {path : Path} {content : String}
    (consulted : library.identify path ∈ store.consulted)
    (fetched : library.fetch path = .ok (some content)) :
    (store.keepContent (library.identify path) content).Loaded library := by
  constructor
  · intro place text held
    simp only [Store.keepContent, Std.ExtTreeMap.getElem?_insert, Std.compare_eq_iff_eq] at held
    split at held
    next same => exact same ▸ Option.some.inj held ▸ ⟨consulted, path, rfl, fetched⟩
    · exact loaded.contents place text held
  · intro place member
    exact Std.ExtTreeMap.mem_insert.mpr (.inr (loaded.dependencies place member))

theorem Loaded.keepFragment (loaded : store.Loaded library) (kept : place ∈ store.contents)
    (key fragment : String) : (store.keepFragment key fragment place).Loaded library := by
  constructor
  · exact loaded.contents
  · intro found member
    rcases Std.ExtTreeSet.mem_insert.mp member with same | member
    · exact Std.compare_eq_iff_eq.mp same ▸ kept
    · exact loaded.dependencies found member

end Store

namespace Rendering

variable {library : Template.Library}

/-- A rendering keeps the store to what was loaded, and forgets no text. -/
def Loads (library : Template.Library) {α : Type} (Good : α → Prop) (rendering _other : Rendering α) :
    Prop :=
  ∀ store, store.Loaded library →
    (runFrom rendering store).2.Loaded library ∧
      (∀ place ∈ store.contents, place ∈ (runFrom rendering store).2.contents) ∧
        ∀ a, (runFrom rendering store).1 = .ok a → Good a

theorem Loads.sequence {α β : Type} {Good : α → Prop} {Result : β → Prop}
    {first second : Rendering α} {next other : α → Rendering β}
    (start : Loads library Good first second)
    (rest : ∀ a, Good a → Loads library Result (next a) (other a)) :
    Loads library Result (first >>= next) (second >>= other) := by
  intro store loaded
  obtain ⟨loadedMiddle, kept, good⟩ := start store loaded
  rw [runFrom_bind]
  generalize runFrom first store = ended at loadedMiddle kept good ⊢
  rcases ended with ⟨_ | a, middle⟩
  · exact ⟨loadedMiddle, kept, nofun⟩
  · obtain ⟨loadedLast, keptLast, result⟩ := rest a (good a rfl) middle loadedMiddle
    exact ⟨loadedLast, fun place member => keptLast place (kept place member), result⟩

/-- The logic of renderings that only load. -/
def loading (library : Template.Library) : Logic where
  Rel := Loads library
  value good _ loaded := ⟨loaded, fun _ => id, fun _ same => Except.ok.inj same ▸ good⟩
  failure _ _ loaded := ⟨loaded, fun _ => id, nofun⟩
  sequence := Loads.sequence

/-- A template that was located has been loaded. -/
theorem loaded_locateAmong (reuse : Bool) (name : String) (attempted : List Path)
    (candidates : List Template.Candidate) {store : Store} (loaded : store.Loaded library) :
    let ended := runFrom (locateAmong library reuse name attempted candidates) store
    ended.2.Loaded library ∧ (∀ place ∈ store.contents, place ∈ ended.2.contents) ∧
      ∀ template, ended.1 = .ok template →
        ended.2.contents[template.place]? = some template.content := by
  induction candidates generalizing attempted store with
  | nil => exact ⟨loaded, fun _ => id, nofun⟩
  | cons candidate others ih =>
      rw [runFrom_locateAmong_cons]
      have asked := loaded.consult (library.identify candidate.path)
      have consulted : library.identify candidate.path ∈
          (store.consult (library.identify candidate.path)).consulted :=
        Std.ExtTreeSet.mem_insert_self
      dsimp only
      split
      next content held =>
        refine ⟨loaded, fun _ => id, fun template same => ?_⟩
        obtain rfl := Except.ok.inj same
        cases reuse <;> simp_all
      · rcases fetched : library.fetch candidate.path with fault | _ | content
        · exact ⟨asked, fun _ => id, nofun⟩
        · exact ih _ asked
        · refine ⟨asked.keepContent consulted fetched, fun place member => ?_, ?_⟩
          · exact Std.ExtTreeMap.mem_insert.mpr (.inr member)
          · intro template same
            obtain rfl := Except.ok.inj same
            exact Std.ExtTreeMap.getElem?_insert_self

end Rendering

namespace Composer

open Rendering

variable (composer : Composer)

theorem loads_expand {render : Path → String → Bindings → Rendering String}
    (renders : ∀ origin body scope,
      Loads composer.library Any (render origin body scope) (render origin body scope))
    (origin : Path) (scope : Bindings) (inclusion : Inclusion) :
    Loads composer.library Any (composer.expand render origin scope inclusion)
      (composer.expand render origin scope inclusion) := by
  intro store loaded
  obtain ⟨loadedMiddle, kept, found⟩ := loaded_locateAmong composer.reuse inclusion.name []
    (Template.candidates inclusion.name) loaded
  rw [runFrom_expand]
  dsimp only
  split
  · exact ⟨loaded, fun _ => id, fun _ _ => trivial⟩
  · rw [runFrom_produce]
    unfold locate
    generalize runFrom (locateAmong _ _ _ _ _) store = ended at loadedMiddle kept found ⊢
    rcases ended with ⟨_ | template, middle⟩
    · exact ⟨loadedMiddle, kept, nofun⟩
    · obtain ⟨loadedLast, keptLast, -⟩ := renders template.place.toPath
        (inclusion.enter composer.dialect scope template.content).2
        (inclusion.enter composer.dialect scope template.content).1 middle loadedMiddle
      dsimp only
      generalize runFrom (render _ _ _) middle = ended at loadedLast keptLast ⊢
      have grown : ∀ place ∈ store.contents, place ∈ ended.2.contents :=
        fun place member => keptLast place (kept place member)
      have held : template.place ∈ ended.2.contents :=
        keptLast _ (Std.ExtTreeMap.mem_iff_isSome_getElem?.mpr (by rw [found template rfl]; rfl))
      rcases ended with ⟨_ | text, last⟩
      · exact ⟨loadedLast, grown, nofun⟩
      · exact ⟨loadedLast.keepFragment held _ _, grown, fun _ _ => trivial⟩

/-- Rendering a body keeps the store to what was loaded. -/
theorem loads_renderBody (levels : Nat) (origin : Path) (body : String) (scope : Bindings) :
    Loads composer.library Any (composer.renderBody levels origin body scope)
      (composer.renderBody levels origin body scope) := by
  induction levels generalizing origin body scope with
  | zero => exact (loading composer.library).failure _
  | succ levels ih =>
      exact (loading composer.library).renderBody_self (composer.loads_expand ih origin scope)

theorem loaded_run (levels : Nat) (origin : Path) (source : String) (scope : Bindings) :
    (composer.run levels origin source scope).2.Loaded composer.library :=
  (composer.loads_renderBody levels origin _ _ .empty Store.loaded_empty).1

end Composer

end Stencil.Render
