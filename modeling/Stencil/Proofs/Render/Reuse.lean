import Stencil.Proofs.Render.FragmentKey
import Stencil.Proofs.Render.Independence
import Stencil.Proofs.Render.Levels
import Stencil.Proofs.Template.Coherence

/-!
# Using templates and fragments again

A build keeps the templates it has read and the fragments it has finished, and uses them again.
The main statement is that this cannot be seen: a page has the same output and the same
dependencies, or the same error, as without reuse.  What carries the proof is that every fragment
in the store is what rendering without reuse gives for its inclusion, and that the dependencies of
that rendering are in the store already.
-/

namespace Stencil.Render

open Text (NotSeparator Unseparated)

namespace Composer

open Rendering

/-- The composer that uses nothing again. -/
abbrev forgetful (composer : Composer) : Composer :=
  { composer with reuse := false }

/-- The composer that uses templates and fragments again. -/
abbrev mindful (composer : Composer) : Composer :=
  { composer with reuse := true }

variable (composer : Composer)

/-- Rendering an inclusion without reuse, with templates nested to the given number of levels. -/
def expandForgetful (levels : Nat) (origin : Path) (scope : Bindings) (inclusion : Inclusion) :
    Rendering String :=
  composer.forgetful.expand (composer.forgetful.renderBody levels) origin scope inclusion

/-- Without reuse the output of an inclusion is `fragment`, and all templates that this depends on
are among the dependencies of the store. -/
def Justified (store : Store) (origin : Path) (scope : Bindings) (inclusion : Inclusion)
    (fragment : String) : Prop :=
  ∃ levels,
    (runFrom (composer.expandForgetful levels origin scope inclusion) .empty).1 = .ok fragment ∧
      ∀ place ∈ (runFrom (composer.expandForgetful levels origin scope inclusion) .empty).2.dependencies,
        place ∈ store.dependencies

/-- What a store holds is right: texts come from the library, and fragments are what rendering
without reuse gives. -/
structure Sound (store : Store) : Prop where
  contents : ∀ path content, store.contents[composer.library.identify path]? = some content →
    composer.library.fetch path = .ok (some content)
  fragments : ∀ key fragment, store.fragments[key]? = some fragment →
    Unseparated fragment ∧
      ∀ origin scope inclusion, inclusion.IsMadeOf NotSeparator → scope.IsMadeOf NotSeparator →
        inclusion.fragmentKey origin scope = key →
          composer.Justified store origin scope inclusion fragment

/-- A store of a rendering with reuse, and one of a rendering without. -/
structure Agree (store other : Store) : Prop where
  sound : composer.Sound store
  dependencies : store.dependencies = other.dependencies

/-- A rendering with reuse and one without have ended alike. -/
def EndAlike {α : Type} (Good : α → Prop) (ended endedOther : Except Error α × Store) : Prop :=
  Alike Good ended.1 endedOther.1 ∧
    (failure? ended.1 = none → composer.Agree ended.2 endedOther.2)

/-- Unless the second rendering goes too deep, two renderings end alike from stores that agree. -/
def Mirrors {α : Type} (Good : α → Prop) (first second : Rendering α) : Prop :=
  ∀ store other, composer.Agree store other → (runFrom second other).1 ≠ .error .tooDeep →
    composer.EndAlike Good (runFrom first store) (runFrom second other)

theorem EndAlike.value {composer : Composer} {α : Type} {Good : α → Prop} {a : α}
    {store other : Store} (good : Good a) (agree : composer.Agree store other) :
    composer.EndAlike Good (.ok a, store) (.ok a, other) :=
  ⟨⟨rfl, fun _ same => Except.ok.inj same ▸ good⟩, fun _ => agree⟩

theorem EndAlike.failure {composer : Composer} {α : Type} {Good : α → Prop} {error : Error}
    {store other : Store} :
    composer.EndAlike Good (.error error, store) (.error error, other) :=
  ⟨⟨rfl, nofun⟩, nofun⟩

theorem Mirrors.sequence {composer : Composer} {α β : Type} {Good : α → Prop}
    {Result : β → Prop} {first second : Rendering α} {next nextOther : α → Rendering β}
    (start : composer.Mirrors Good first second)
    (rest : ∀ a, Good a → composer.Mirrors Result (next a) (nextOther a)) :
    composer.Mirrors Result (first >>= next) (second >>= nextOther) := by
  intro store other agree shallow
  have starts := start store other agree
  rw [runFrom_bind] at shallow ⊢
  rw [runFrom_bind]
  generalize runFrom first store = ended at starts ⊢
  generalize runFrom second other = endedOther at starts shallow ⊢
  rcases endedOther with ⟨outcome, middleOther⟩
  rcases ended with ⟨_, middle⟩
  cases outcome with
  | error error =>
      obtain ⟨⟨rfl, _⟩, _⟩ := starts (by simpa using shallow)
      exact .failure
  | ok a =>
      obtain ⟨⟨rfl, good⟩, agree⟩ := starts nofun
      exact rest a (good a rfl) middle middleOther (agree rfl) shallow

/-- The logic of renderings with reuse and without. -/
def mirroring : Logic where
  Rel := composer.Mirrors
  value good _ _ agree _ := .value good agree
  failure _ _ _ _ _ := .failure
  sequence := Mirrors.sequence

section Stores

variable {composer : Composer} {store other : Store}

theorem Justified.mono {origin : Path} {scope : Bindings} {inclusion : Inclusion}
    {fragment : String} (justified : composer.Justified store origin scope inclusion fragment)
    (kept : ∀ place ∈ store.dependencies, place ∈ other.dependencies) :
    composer.Justified other origin scope inclusion fragment := by
  rcases justified with ⟨levels, outcome, dependencies⟩
  exact ⟨levels, outcome, fun place member => kept place (dependencies place member)⟩

theorem sound_empty : composer.Sound .empty := by
  constructor <;> intro _ _ found <;> simp [Store.empty] at found

theorem Agree.consult (agree : composer.Agree store other) (place : Place) :
    composer.Agree (store.consult place) (other.consult place) :=
  ⟨⟨agree.sound.contents, agree.sound.fragments⟩, agree.dependencies⟩

theorem Agree.keepContent (agree : composer.Agree store other)
    (coherent : composer.library.Coherent) {path : Path} {content : String}
    (fetched : composer.library.fetch path = .ok (some content)) :
    composer.Agree (store.keepContent (composer.library.identify path) content)
      (other.keepContent (composer.library.identify path) content) := by
  refine ⟨⟨?_, agree.sound.fragments⟩, agree.dependencies⟩
  intro elsewhere found held
  simp only [Store.keepContent, Std.ExtTreeMap.getElem?_insert, Std.compare_eq_iff_eq] at held
  split at held
  next same => rw [← coherent same, fetched, Option.some.inj held]
  · exact agree.sound.contents elsewhere found held

theorem Agree.keepFragment (agree : composer.Agree store other) {key fragment : String}
    {place : Place} (fragmentMade : Unseparated fragment)
    (justified : ∀ origin scope inclusion, inclusion.IsMadeOf NotSeparator →
      scope.IsMadeOf NotSeparator → inclusion.fragmentKey origin scope = key →
        composer.Justified (store.keepFragment key fragment place) origin scope inclusion fragment) :
    composer.Agree (store.keepFragment key fragment place)
      (other.keepFragment key fragment place) := by
  refine ⟨⟨agree.sound.contents, ?_⟩, by simp only [Store.keepFragment, agree.dependencies]⟩
  intro found text held
  simp only [Store.keepFragment, Std.ExtTreeMap.getElem?_insert, Std.compare_eq_iff_eq] at held
  split at held
  next same =>
    obtain rfl := Option.some.inj held
    exact ⟨fragmentMade, same ▸ justified⟩
  · obtain ⟨textMade, held⟩ := agree.sound.fragments found text held
    constructor
    · exact textMade
    · intro origin scope inclusion made scopeMade same
      apply (held origin scope inclusion made scopeMade same).mono
      exact fun place member => Std.ExtTreeSet.mem_insert.mpr (.inr member)

end Stores

/-! ## Renderings without reuse -/

section Forgetful

variable {composer : Composer} {store other : Store} {origin : Path} {scope : Bindings}
  {inclusion : Inclusion}

theorem independent_expandForgetful (levels : Nat) :
    Independent Any (composer.expandForgetful levels origin scope inclusion)
      (composer.expandForgetful levels origin scope inclusion) :=
  independent_expand rfl (independent_renderBody rfl levels) origin scope inclusion

/-- With more levels an inclusion that is not nested too deep is rendered alike. -/
theorem expandForgetful_of_le {levels more : Nat} (deeper : levels ≤ more)
    (accepted : (runFrom (composer.expandForgetful levels origin scope inclusion) store).1 ≠
      .error .tooDeep) :
    runFrom (composer.expandForgetful more origin scope inclusion) store =
      runFrom (composer.expandForgetful levels origin scope inclusion) store := by
  have tracks : shallow.Tracks Any (composer.expandForgetful levels origin scope inclusion)
      (composer.expandForgetful more origin scope inclusion) :=
    tracks_expand rfl rfl (shallow_answers _) (composer.forgetful.tracks_renderBody_of_le deeper)
      origin scope inclusion
  exact ((tracks store).2 (shallow_ends.mpr accepted)).2

/-- The number of levels does not matter, as long as there are enough. -/
theorem expandForgetful_eq {levels more : Nat}
    (accepted : (runFrom (composer.expandForgetful levels origin scope inclusion) store).1 ≠
      .error .tooDeep)
    (acceptedMore : (runFrom (composer.expandForgetful more origin scope inclusion) store).1 ≠
      .error .tooDeep) :
    runFrom (composer.expandForgetful levels origin scope inclusion) store =
      runFrom (composer.expandForgetful more origin scope inclusion) store := by
  rw [← expandForgetful_of_le (Nat.le_add_right levels more) accepted,
    expandForgetful_of_le (Nat.le_add_left more levels) acceptedMore]

/-- A justified fragment is the output of its inclusion, and rendering it adds no dependency. -/
theorem Justified.outcome {fragment : String} {levels : Nat}
    (justified : composer.Justified store origin scope inclusion fragment)
    (same : store.dependencies = other.dependencies)
    (accepted : (runFrom (composer.expandForgetful levels origin scope inclusion) other).1 ≠
      .error .tooDeep) :
    (runFrom (composer.expandForgetful levels origin scope inclusion) other).1 = .ok fragment ∧
      store.dependencies =
        (runFrom (composer.expandForgetful levels origin scope inclusion) other).2.dependencies := by
  rcases justified with ⟨enough, outcome, dependencies⟩
  obtain ⟨⟨alike, _⟩, adds⟩ := independent_expandForgetful levels .empty other
  have ended := expandForgetful_eq (alike ▸ accepted) (by rw [outcome]; nofun)
  constructor
  · rw [← alike, ended, outcome]
  · apply Std.ExtTreeSet.ext_mem
    intro place
    rw [same]
    constructor
    · exact adds.keptOther place
    · intro member
      rcases adds.addedOther place member with member | member
      · exact member
      · rw [ended] at member
        exact same ▸ dependencies place member

/-- The fragment that rendering without reuse gives for an inclusion is justified. -/
theorem justified_of_ok {fragment : String} {levels : Nat}
    (outcome : (runFrom (composer.expandForgetful levels origin scope inclusion) other).1 = .ok fragment)
    (kept : ∀ place ∈
      (runFrom (composer.expandForgetful levels origin scope inclusion) other).2.dependencies,
        place ∈ store.dependencies) :
    composer.Justified store origin scope inclusion fragment := by
  obtain ⟨⟨alike, _⟩, adds⟩ := independent_expandForgetful levels .empty other
  refine ⟨levels, alike.trans outcome, fun place member => ?_⟩
  rcases adds.added place member with member | member
  · exact absurd member Std.ExtTreeSet.not_mem_empty
  · exact kept place member

/-- An inclusion with the same key is rendered alike. -/
theorem expandForgetful_congr {levels : Nat} {elsewhere : Path} {scopeOther : Bindings}
    {twin : Inclusion}
    (same : Inclusion.SameParts origin elsewhere inclusion twin scope scopeOther) :
    composer.expandForgetful levels origin scope inclusion =
      composer.expandForgetful levels elsewhere scopeOther twin := by
  rcases same with ⟨rfl, name, content, attributes, assignments, rfl⟩
  unfold expandForgetful expand Inclusion.fragmentKey Inclusion.enter
  simp only [name, content, attributes, assignments]

end Forgetful

theorem unseparated_wrap (kind : Template.Kind) {text : String} (made : Unseparated text) :
    Unseparated (kind.wrap text) := by
  cases kind with
  | html => exact made
  | css | js =>
      simp only [Template.Kind.wrap, Text.madeOf_append]
      exact ⟨⟨by decide +kernel, made⟩, by decide +kernel⟩

/-! ## Renderings with reuse -/

section Reuse

variable {composer : Composer} (coherent : composer.library.Coherent)
  (templates : ∀ path content, composer.library.fetch path = .ok (some content) →
    Unseparated content)

include coherent templates

/-- With and without reuse the same template is found. -/
theorem mirrors_locateAmong (name : String) (attempted : List Path)
    (candidates : List Template.Candidate) :
    composer.Mirrors (fun template => Unseparated template.content)
      (locateAmong composer.library true name attempted candidates)
      (locateAmong composer.library false name attempted candidates) := by
  induction candidates generalizing attempted with
  | nil => exact composer.mirroring.failure _
  | cons candidate others ih =>
      intro store other agree shallow
      simp only [runFrom_locateAmong_cons, Bool.false_eq_true, if_false, if_true] at shallow ⊢
      have asked := agree.consult (composer.library.identify candidate.path)
      cases held : store.contents[composer.library.identify candidate.path]? with
      | some content =>
          have fetched := agree.sound.contents candidate.path content held
          rw [fetched]
          exact .value (templates _ _ fetched) ⟨agree.sound, agree.dependencies⟩
      | none =>
          rcases fetched : composer.library.fetch candidate.path with fault | _ | content
          · exact .failure
          · rw [fetched] at shallow
            exact ih _ _ _ asked shallow
          · exact .value (templates _ _ fetched) (asked.keepContent coherent fetched)

theorem mirrors_produce {render renderAnew : Path → String → Bindings → Rendering String}
    (renders : ∀ origin body scope, Unseparated body → scope.IsMadeOf NotSeparator →
      composer.Mirrors Unseparated (render origin body scope) (renderAnew origin body scope))
    {scope : Bindings} {inclusion : Inclusion} (scopeMade : scope.IsMadeOf NotSeparator)
    (made : inclusion.IsMadeOf NotSeparator) :
    composer.Mirrors (fun found => Unseparated found.2)
      (composer.mindful.produce render scope inclusion)
      (composer.forgetful.produce renderAnew scope inclusion) := by
  unfold produce
  apply Mirrors.sequence (mirrors_locateAmong coherent templates _ _ _)
  intro template templateMade
  obtain ⟨innerMade, bodyMade⟩ := made.enter (by decide +kernel) scopeMade templateMade
  apply Mirrors.sequence (renders _ _ _ bodyMade innerMade)
  intro text textMade
  exact composer.mirroring.value (unseparated_wrap template.kind textMade)

theorem mirrors_expand {levels : Nat}
    (renders : ∀ origin body scope, Unseparated body → scope.IsMadeOf NotSeparator →
      composer.Mirrors Unseparated (composer.mindful.renderBody levels origin body scope)
        (composer.forgetful.renderBody levels origin body scope))
    (origin : Path) {scope : Bindings} {inclusion : Inclusion}
    (scopeMade : scope.IsMadeOf NotSeparator) (made : inclusion.IsMadeOf NotSeparator) :
    composer.Mirrors Unseparated
      (composer.mindful.expand (composer.mindful.renderBody levels) origin scope inclusion)
      (composer.expandForgetful levels origin scope inclusion) := by
  intro store other agree shallow
  rw [runFrom_expand]
  simp only [if_true]
  cases held : store.fragments[inclusion.fragmentKey origin scope]? with
  | some fragment =>
      obtain ⟨fragmentMade, justified⟩ := agree.sound.fragments _ _ held
      obtain ⟨outcome, dependencies⟩ :=
        (justified origin scope inclusion made scopeMade rfl).outcome agree.dependencies shallow
      generalize runFrom (composer.expandForgetful levels origin scope inclusion) other = ended
        at outcome dependencies ⊢
      rcases ended with ⟨result, last⟩
      obtain rfl : result = .ok fragment := outcome
      exact .value fragmentMade ⟨agree.sound, dependencies⟩
  | none =>
      have produced := mirrors_produce coherent templates renders scopeMade made store other agree
      have whole := composer.forgetful.runFrom_expand (composer.forgetful.renderBody levels) origin
        scope inclusion other
      have justified := fun fragment store =>
        @justified_of_ok composer store other origin scope inclusion fragment levels
      unfold expandForgetful at shallow justified ⊢
      rw [whole] at shallow justified ⊢
      simp only [Bool.false_eq_true, if_false] at shallow justified ⊢
      generalize runFrom (composer.mindful.produce _ scope inclusion) store = ended at produced ⊢
      generalize runFrom (composer.forgetful.produce _ scope inclusion) other = endedOther
        at produced shallow justified ⊢
      rcases endedOther with ⟨outcome, lastOther⟩
      rcases ended with ⟨_, last⟩
      rcases outcome with error | ⟨place, fragment⟩
      · obtain ⟨⟨rfl, _⟩, _⟩ := produced (by simpa using shallow)
        exact .failure
      · obtain ⟨⟨rfl, fragmentMade⟩, agreeLast⟩ := produced nofun
        have fragmentMade := fragmentMade _ rfl
        have agreeLast : composer.Agree last lastOther := agreeLast rfl
        apply EndAlike.value fragmentMade
        apply agreeLast.keepFragment fragmentMade
        intro elsewhere scopeTwin twin twinMade scopeTwinMade sameKey
        have parts := (Inclusion.fragmentKey_inj (twinMade.delimited scopeTwinMade)
          (made.delimited scopeMade)).mp sameKey
        obtain ⟨levels, outcome, dependencies⟩ :=
          justified fragment (last.keepFragment (inclusion.fragmentKey origin scope) fragment place)
            rfl (by simp only [Store.keepFragment, agreeLast.dependencies]; exact fun _ => id)
        refine ⟨levels, ?_⟩
        rw [expandForgetful_congr parts]
        exact ⟨outcome, dependencies⟩

/-- With and without reuse a body is rendered alike. -/
theorem mirrors_renderBody (levels : Nat) (origin : Path) (body : String) (scope : Bindings)
    (bodyMade : Unseparated body) (scopeMade : scope.IsMadeOf NotSeparator) :
    composer.Mirrors Unseparated (composer.mindful.renderBody levels origin body scope)
      (composer.forgetful.renderBody levels origin body scope) := by
  induction levels generalizing origin body scope with
  | zero => exact fun _ _ _ shallow => absurd rfl shallow
  | succ levels ih =>
      have dialect : composer.mindful.dialect = composer.forgetful.dialect := rfl
      apply composer.mirroring.renderBody (Draft.IsMadeOf NotSeparator) Unseparated dialect
        Draft.isMadeOf_empty
      · rintro token member draft good ⟨closed, next⟩ advances
        have lower : ∀ c, NotSeparator c → NotSeparator c.toLower :=
          fun _ => Text.NotSeparator.toLower
        have tokenMade := Markup.isMadeOf_tokenize lower bodyMade token member
        obtain ⟨made, nextMade⟩ := isMadeOf_advance scopeMade tokenMade good advances
        cases closed with
        | none => exact nextMade
        | some inclusion =>
            have expands :=
              mirrors_expand coherent templates ih origin scopeMade (made inclusion rfl)
            exact composer.mirroring.weaken expands fun text textMade => nextMade.append textMade
      · intro draft output good finished
        exact Placeholder.isMadeOf_substitute scopeMade (good.finish finished)

/-- When the library is coherent, so that a place identifies its template, using templates and
fragments again cannot be seen in what a page gives: neither in its output nor in its dependencies
nor in its error. -/
theorem run_reuse_eq {levels more : Nat} (deeper : levels ≤ more) {origin : Path} {source : String}
    {scope : Bindings} (sourceMade : Unseparated source) (scopeMade : scope.IsMadeOf NotSeparator)
    (shallow : (composer.forgetful.run levels origin source scope).1 ≠ .error .tooDeep) :
    (composer.mindful.run more origin source scope).1 =
      (composer.forgetful.run levels origin source scope).1 := by
  obtain ⟨innerMade, bodyMade⟩ := Preamble.isMadeOf_read scopeMade sourceMade
  have enough := composer.forgetful.run_of_le deeper shallow
  rw [← enough] at shallow ⊢
  have accepted : (runFrom (composer.forgetful.renderBody more origin (Preamble.read source scope).2
      (Preamble.read source scope).1) .empty).1 ≠ .error .tooDeep := by
    intro deep
    exact shallow (by simp only [run_eq, deep, Except.map])
  have mirrors := mirrors_renderBody coherent templates more origin _ _ bodyMade innerMade
    .empty .empty ⟨sound_empty, rfl⟩ accepted
  rw [run_eq, run_eq]
  generalize runFrom (composer.mindful.renderBody more origin _ _) .empty = ended at mirrors ⊢
  generalize runFrom (composer.forgetful.renderBody more origin _ _) .empty = endedOther
    at mirrors ⊢
  rcases mirrors with ⟨⟨same, _⟩, agree⟩
  rcases ended with ⟨outcome, last⟩
  rcases endedOther with ⟨_, lastOther⟩
  obtain rfl := same
  cases outcome with
  | error error => rfl
  | ok text =>
      have dependencies : last.dependencies = lastOther.dependencies := (agree rfl).dependencies
      simp only [Except.map, dependencies]

end Reuse

/-- The page includes a template that includes another one twice. -/
theorem run_reuse_eq_twice :
    let templates : List (Path × String) :=
      [(⟨"a.html"⟩, "<t:b/><t:b/>"), (⟨"b.html"⟩, "{{c}}")]
    let composer : Composer := { dialect := {}, library := .ofList templates }
    let source := "@c=+\n<t:a/>"
    (composer.forgetful.run 3 ⟨"index.html"⟩ source ∅).1.toOption.map Rendered.content =
        some "++" ∧
      (composer.mindful.run 9 ⟨"index.html"⟩ source ∅).1 =
        (composer.forgetful.run 3 ⟨"index.html"⟩ source ∅).1 := by
  intro templates composer source
  have output : (composer.forgetful.run 3 ⟨"index.html"⟩ source ∅).1.toOption.map Rendered.content =
      some "++" := by decide +kernel
  have texts : ∀ entry ∈ templates, Unseparated entry.2 := by decide +kernel
  constructor
  · exact output
  · apply run_reuse_eq (Template.Library.coherent_ofList templates) _ (by decide)
    · exact (by decide +kernel : Unseparated source)
    · exact Bindings.isMadeOf_empty
    · intro deep
      simp [deep, Except.toOption] at output
    · intro path content found
      obtain ⟨written, member⟩ := Template.Library.mem_of_fetch_ofList found
      exact texts _ member

end Composer

end Stencil.Render
