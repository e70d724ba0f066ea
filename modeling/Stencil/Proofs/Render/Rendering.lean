import Stencil.Render.Page

/-!
# Running a rendering

A rendering takes a store to an outcome and to the store at the end.  This module says what each of
the steps that renderings are made of does to the store.
-/

namespace Stencil

theorem ok_of_toOption {ε α : Type} {outcome : Except ε α} {a : α}
    (given : outcome.toOption = some a) : outcome = .ok a := by
  cases outcome with
  | error error => cases given
  | ok other => exact congrArg Except.ok (Option.some.inj given)

namespace Render

namespace Rendering

variable {α β : Type}

/-- The outcome of a rendering that starts from a store, with the store at the end. -/
def runFrom (rendering : Rendering α) (store : Store) : Except Error α × Store :=
  rendering.run.run store

@[simp]
theorem runFrom_pure (a : α) (store : Store) :
    runFrom (pure a) store = (.ok a, store) := rfl

@[simp]
theorem runFrom_throw (error : Error) (store : Store) :
    runFrom (throw error : Rendering α) store = (.error error, store) := rfl

@[simp]
theorem runFrom_get (store : Store) :
    runFrom (get : Rendering Store) store = (.ok store, store) := rfl

@[simp]
theorem runFrom_modify (change : Store → Store) (store : Store) :
    runFrom (modify change : Rendering PUnit) store = (.ok ⟨⟩, change store) := rfl

/-- The second rendering starts where the first one has ended, unless that one has failed. -/
theorem runFrom_bind (rendering : Rendering α) (next : α → Rendering β) (store : Store) :
    runFrom (rendering >>= next) store =
      match runFrom rendering store with
      | (.ok a, middle) => runFrom (next a) middle
      | (.error error, middle) => (.error error, middle) := by
  change (ExceptT.bindCont next (rendering store).1).run (rendering store).2 = _
  unfold runFrom
  change _ = match rendering store with
    | (.ok a, middle) => next a middle
    | (.error error, middle) => (.error error, middle)
  rcases rendering store with ⟨_ | _, _⟩ <;> rfl

/-- A function of the value changes nothing else. -/
theorem runFrom_map (rendering : Rendering α) (change : α → β) (store : Store) :
    runFrom (rendering >>= fun a => pure (change a)) store =
      ((runFrom rendering store).1.map change, (runFrom rendering store).2) := by
  rw [runFrom_bind]
  rcases runFrom rendering store with ⟨_ | a, middle⟩ <;> rfl

/-- A rendering in two steps that does not fail went through both. -/
theorem runFrom_bind_ok {first : Rendering α} {rest : α → Rendering β} {b : β}
    {store reached : Store} (run : runFrom (first >>= rest) store = (.ok b, reached)) :
    ∃ a middle, runFrom first store = (.ok a, middle) ∧
      runFrom (rest a) middle = (.ok b, reached) := by
  rw [runFrom_bind] at run
  generalize runFrom first store = started at run ⊢
  rcases started with ⟨_ | a, middle⟩
  · cases run
  · exact ⟨a, middle, rfl, run⟩

theorem runFrom_of_toOption {rendering : Rendering α} {store : Store} {a : α}
    (outcome : (runFrom rendering store).1.toOption = some a) :
    runFrom rendering store = (.ok a, (runFrom rendering store).2) :=
  Prod.ext (ok_of_toOption outcome) rfl

end Rendering

open Rendering

/-- A candidate in the store is taken from there.  Any other candidate is asked for, and the next
one has its turn when there is no template. -/
theorem runFrom_locateAmong_cons (library : Template.Library) (reuse : Bool) (name : String)
    (attempted : List Path) (candidate : Template.Candidate) (others : List Template.Candidate)
    (store : Store) :
    runFrom (locateAmong library reuse name attempted (candidate :: others)) store =
      let place := library.identify candidate.path
      match if reuse then store.contents[place]? else none with
      | some content => (.ok ⟨place, candidate.kind, content⟩, store)
      | none =>
          match library.fetch candidate.path with
          | .error fault => (.error (.disk fault), store.consult place)
          | .ok (some content) =>
              (.ok ⟨place, candidate.kind, content⟩, (store.consult place).keepContent place content)
          | .ok none =>
              runFrom (locateAmong library reuse name (candidate.path :: attempted) others)
                (store.consult place) := by
  rw [locateAmong]
  dsimp only
  rw [runFrom_bind, runFrom_get]
  dsimp only
  cases (if reuse = true then store.contents[library.identify candidate.path]? else none) with
  | some content => rfl
  | none =>
      dsimp only
      rw [runFrom_bind, runFrom_modify]
      rcases library.fetch candidate.path with _ | _ | content <;> rfl

@[simp]
theorem runFrom_locateAmong_nil (library : Template.Library) (reuse : Bool) (name : String)
    (attempted : List Path) (store : Store) :
    runFrom (locateAmong library reuse name attempted []) store =
      (.error (.templateNotFound name attempted.reverse), store) := rfl

namespace Composer

variable (composer : Composer)

/-- The template that an inclusion stands for, with its output, which is rendered anew. -/
def produce (render : (origin : Path) → (body : String) → (scope : Bindings) → Rendering String)
    (scope : Bindings) (inclusion : Inclusion) : Rendering (Place × String) := do
  let template ← locate composer.library composer.reuse inclusion.name
  let (inner, body) := inclusion.enter composer.dialect scope template.content
  let text ← render template.place.toPath body inner
  return (template.place, template.kind.wrap text)

theorem runFrom_produce
    (render : (origin : Path) → (body : String) → (scope : Bindings) → Rendering String)
    (scope : Bindings) (inclusion : Inclusion) (store : Store) :
    runFrom (composer.produce render scope inclusion) store =
      match runFrom (locate composer.library composer.reuse inclusion.name) store with
      | (.error error, middle) => (.error error, middle)
      | (.ok template, middle) =>
          let (inner, body) := inclusion.enter composer.dialect scope template.content
          match runFrom (render template.place.toPath body inner) middle with
          | (.error error, last) => (.error error, last)
          | (.ok text, last) => (.ok (template.place, template.kind.wrap text), last) := by
  unfold produce
  rw [runFrom_bind]
  rcases runFrom (locate composer.library composer.reuse inclusion.name) store with
    ⟨_ | template, middle⟩
  · rfl
  · dsimp only
    rw [runFrom_bind]
    rcases runFrom (render _ _ _) middle with ⟨_ | text, last⟩ <;> rfl

/-- A fragment in the store is used again.  Any other is rendered anew and kept. -/
theorem runFrom_expand
    (render : (origin : Path) → (body : String) → (scope : Bindings) → Rendering String)
    (origin : Path) (scope : Bindings) (inclusion : Inclusion) (store : Store) :
    runFrom (composer.expand render origin scope inclusion) store =
      let key := inclusion.fragmentKey origin scope
      match if composer.reuse then store.fragments[key]? else none with
      | some fragment => (.ok fragment, store)
      | none =>
          match runFrom (composer.produce render scope inclusion) store with
          | (.ok (place, fragment), last) => (.ok fragment, last.keepFragment key fragment place)
          | (.error error, last) => (.error error, last) := by
  unfold expand produce
  dsimp only
  rw [runFrom_bind, runFrom_get]
  dsimp only
  cases (if composer.reuse = true then
    store.fragments[inclusion.fragmentKey origin scope]? else none) with
  | some fragment => rfl
  | none =>
      dsimp only
      rw [runFrom_bind, runFrom_bind]
      rcases runFrom (locate composer.library composer.reuse inclusion.name) store with
        ⟨_ | template, middle⟩
      · rfl
      · dsimp only
        rw [runFrom_bind, runFrom_bind]
        rcases runFrom (render _ _ _) middle with ⟨_ | text, last⟩ <;> rfl

/-- Rendering a page is rendering its body in the scope after its preamble. -/
theorem run_eq (levels : Nat) (origin : Path) (source : String)
    (scope : Bindings) :
    composer.run levels origin source scope =
      let (outcome, store) := runFrom (composer.renderBody levels origin
        (Preamble.read source scope).2 (Preamble.read source scope).1) .empty
      (outcome.map (⟨·, store.dependencies⟩), store) := rfl

/-- The output of a page is that of its body. -/
theorem content_run (levels : Nat) (origin : Path) (source : String) (scope : Bindings) :
    (composer.run levels origin source scope).1.map Rendered.content =
      (runFrom (composer.renderBody levels origin (Preamble.read source scope).2
        (Preamble.read source scope).1) .empty).1 := by
  rw [run_eq]
  rcases runFrom (composer.renderBody levels origin _ _) .empty with ⟨_ | text, last⟩ <;> rfl

/-- A page fails as its body does. -/
theorem run_eq_error_iff {composer : Composer} {levels : Nat} {origin : Path} {source : String}
    {scope : Bindings} {error : Error} :
    (composer.run levels origin source scope).1 = .error error ↔
      (runFrom (composer.renderBody levels origin (Preamble.read source scope).2
        (Preamble.read source scope).1) .empty).1 = .error error := by
  rw [run_eq]
  generalize runFrom (composer.renderBody levels origin _ _) .empty = ended
  rcases ended with ⟨_ | text, last⟩ <;> simp [Except.map]

end Composer

end Render

end Stencil
