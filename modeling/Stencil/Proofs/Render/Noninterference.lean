import Stencil.Proofs.Render.Contents
import Stencil.Proofs.Render.Frames

/-!
# Values are not markup

A body is split into tokens before its placeholders are filled in, so that no value ever becomes a
tag.  Two renderings of a page from different scopes therefore include the same templates and fail
with the same error, as long as no inclusion tag gets the name of its template from an attribute.

A rendering that uses fragments again is compared here with one from the other scope that uses
nothing again.  The second one may need more levels, since a fragment that is used again may have
been made at an outer level.  A strict comparison is one of equal scopes: then the texts are the
same too, and names may come from attributes.
-/

namespace Stencil.Render

open Text (NotSeparator Unseparated)

/-- No inclusion tag of a body carries the attribute that names a template. -/
def Unnamed (dialect : Dialect) (body : String) : Prop :=
  ∀ token ∈ Markup.tokenize body, (markOf? dialect token).map Prod.fst = some .inclusion →
    dialect.nameAttribute.toLower ∉ token.attributes.map Markup.Attribute.key

instance (dialect : Dialect) (body : String) : Decidable (Unnamed dialect body) :=
  inferInstanceAs (Decidable (∀ token ∈ _, _ → _))

/-- Two inclusions ask for the same template.  In a strict comparison they are alike in all that
their output depends on. -/
structure Twins (strict : Prop) (scope scopeOther : Bindings) (inclusion twin : Inclusion) :
    Prop where
  name : inclusion.name = twin.name
  scope : strict → scope = scopeOther
  attributes : strict → inclusion.attributes = twin.attributes
  assignments : strict → inclusion.assignments = twin.assignments
  content : strict → inclusion.content = twin.content

/-- Two texts of which the first holds no separators.  In a strict comparison they are the same. -/
structure Texts (strict : Prop) (text textOther : String) : Prop where
  made : Unseparated text
  same : strict → text = textOther

/-- Two drafts that are moved on alike.  In a strict comparison they are the same. -/
structure Drafts (strict : Prop) (draft other : Draft) : Prop where
  made : draft.IsMadeOf NotSeparator
  frames : draft.frames = other.frames
  same : strict → draft = other

theorem Drafts.append {strict : Prop} {draft other : Draft} {text textOther : String}
    (drafts : Drafts strict draft other) (texts : Texts strict text textOther) :
    Drafts strict (draft.append text) (other.append textOther) where
  made := drafts.made.append texts.made
  frames := by rw [Draft.frames_append, Draft.frames_append, drafts.frames]
  same holds := by rw [drafts.same holds, texts.same holds]

namespace Composer

open Rendering

variable (composer : Composer) (strict : Prop)

theorem templateName_of_unnamed {composer : Composer} {token : Markup.Token} (scope : Bindings)
    (name : String)
    (unnamed : composer.dialect.nameAttribute.toLower ∉ token.attributes.map Markup.Attribute.key) :
    composer.templateName scope token name = name := by
  have absent : (composer.attributesOf scope token).get? composer.dialect.nameAttribute.toLower =
      none := by
    rw [attributesOf, Bindings.get?_ofList, Bindings.lastOf, Bindings.firstOf_eq_none_iff]
    intro entry member same
    rcases List.mem_map.mp (List.mem_reverse.mp member) with ⟨given, inside, rfl⟩
    exact unnamed (same ▸ List.mem_map_of_mem inside)
  rw [templateName, absent, Option.getD_none]

/-- Whatever twin of an inclusion is rendered without reuse, it has an output, with no dependencies
but those of the store.  In a strict comparison the output is the fragment. -/
def Settled (store : Store) (scope : Bindings) (inclusion : Inclusion) (fragment : String) : Prop :=
  ∀ elsewhere scopeOther twin, Twins strict scope scopeOther inclusion twin →
    ∃ text, (strict → fragment = text) ∧ composer.Justified store elsewhere scopeOther twin text

/-- The texts in a store come from the library, and the fragments in it are settled. -/
structure Grounded (store : Store) : Prop where
  truthful : store.Truthful composer.library
  fragments : ∀ key fragment, store.fragments[key]? = some fragment →
    Unseparated fragment ∧
      ∀ origin scope inclusion, inclusion.IsMadeOf NotSeparator → scope.IsMadeOf NotSeparator →
        inclusion.fragmentKey origin scope = key →
          composer.Settled strict store scope inclusion fragment

/-- A store of a rendering that may use fragments again, and one of a rendering without reuse. -/
structure Matches (store other : Store) : Prop where
  grounded : composer.Grounded strict store
  dependencies : store.dependencies = other.dependencies

/-- Two renderings have ended with the same error, or with related values. -/
inductive Meets {α β : Type} (Good : α → β → Prop) :
    Except Error α × Store → Except Error β × Store → Prop
  | value {a : α} {b : β} {store other : Store} :
      Good a b → composer.Matches strict store other → Meets Good (.ok a, store) (.ok b, other)
  | failure {error : Error} {store other : Store} :
      Meets Good (.error error, store) (.error error, other)

/-- Unless the first rendering goes too deep, the second one settles on an end that meets the end
of the first one when it has more and more levels. -/
def Follows {α β : Type} (Good : α → β → Prop) (first : Rendering α) (second : Nat → Rendering β) :
    Prop :=
  ∀ store other, composer.Matches strict store other → (runFrom first store).1 ≠ .error .tooDeep →
    ∃ enough ended, (∀ levels, enough ≤ levels → runFrom (second levels) other = ended) ∧
      composer.Meets strict Good (runFrom first store) ended

namespace Follows

variable {composer : Composer} {strict : Prop} {α β γ δ : Type} {Good : α → β → Prop}
  {Result : γ → δ → Prop}

theorem value {a : α} {b : β} (good : Good a b) :
    composer.Follows strict Good (pure a) fun _ => pure b :=
  fun _ other isMatch _ => ⟨0, (.ok b, other), fun _ _ => rfl, .value good isMatch⟩

theorem failure (error : Error) :
    composer.Follows strict Good (throw error) fun _ => throw error :=
  fun _ other _ _ => ⟨0, (.error error, other), fun _ _ => rfl, .failure⟩

theorem sequence {first : Rendering α} {second : Nat → Rendering β} {next : α → Rendering γ}
    {nextOther : Nat → β → Rendering δ} (start : composer.Follows strict Good first second)
    (rest : ∀ a b, Good a b →
      composer.Follows strict Result (next a) fun levels => nextOther levels b) :
    composer.Follows strict Result (first >>= next)
      fun levels => second levels >>= nextOther levels := by
  intro store other isMatch shallow
  have starts := start store other isMatch
  rw [runFrom_bind] at shallow ⊢
  generalize runFrom first store = ended at starts shallow ⊢
  have shallowStart : ended.1 ≠ .error .tooDeep := by
    rintro deep
    rcases ended with ⟨_, middle⟩
    obtain rfl := deep
    exact shallow rfl
  obtain ⟨enough, endedOther, settles, meets⟩ := starts shallowStart
  cases meets with
  | @failure error middle middleOther =>
      refine ⟨enough, (.error error, middleOther), fun levels deep => ?_, .failure⟩
      rw [runFrom_bind, settles levels deep]
  | @value a b middle middleOther good isMatch =>
      obtain ⟨more, last, settlesNext, meets⟩ := rest a b good middle middleOther isMatch shallow
      refine ⟨max enough more, last, fun levels deep => ?_, meets⟩
      rw [runFrom_bind, settles levels (by omega)]
      exact settlesNext levels (by omega)

theorem loop {ι : Type} {items : List ι} {step : α → ι → Rendering α}
    {other : Nat → β → ι → Rendering β}
    (steps : ∀ item ∈ items, ∀ a b, Good a b →
      composer.Follows strict Good (step a item) fun levels => other levels b item)
    {a : α} {b : β} (start : Good a b) :
    composer.Follows strict Good (items.foldlM step a)
      fun levels => items.foldlM (other levels) b := by
  induction items generalizing a b with
  | nil => exact value start
  | cons item rest ih =>
      simp only [List.foldlM_cons]
      apply sequence (steps item List.mem_cons_self a b start)
      intro a b good
      exact ih (fun item member => steps item (List.mem_cons_of_mem _ member)) good

/-- It is enough to compare with renderings that have one level more. -/
theorem deeper {first : Rendering α} {second : Nat → Rendering β}
    (follows : composer.Follows strict Good first fun levels => second (levels + 1)) :
    composer.Follows strict Good first second := by
  intro store other isMatch shallow
  obtain ⟨enough, ended, settles, meets⟩ := follows store other isMatch shallow
  refine ⟨enough + 1, ended, fun levels deep => ?_, meets⟩
  obtain ⟨fewer, rfl⟩ : ∃ fewer, levels = fewer + 1 := ⟨levels - 1, by omega⟩
  exact settles fewer (by omega)

end Follows

section Stores

variable {composer : Composer} {strict : Prop} {store other : Store}

theorem Settled.mono {scope : Bindings} {inclusion : Inclusion} {fragment : String}
    (settled : composer.Settled strict store scope inclusion fragment)
    (kept : ∀ place ∈ store.dependencies, place ∈ other.dependencies) :
    composer.Settled strict other scope inclusion fragment := by
  intro elsewhere scopeOther twin twins
  obtain ⟨text, same, justified⟩ := settled elsewhere scopeOther twin twins
  exact ⟨text, same, justified.mono kept⟩

/-- An output that is settled for an inclusion is settled for all with the same key. -/
theorem Settled.congr {origin elsewhere : Path} {scope scopeOther : Bindings}
    {inclusion twin : Inclusion} {fragment : String}
    (settled : composer.Settled strict store scope inclusion fragment)
    (same : Inclusion.SameParts origin elsewhere twin inclusion scopeOther scope) :
    composer.Settled strict store scopeOther twin fragment := by
  rcases same with ⟨-, name, content, attributes, assignments, rfl⟩
  intro elsewhere scopeOther third twins
  apply settled elsewhere scopeOther third
  constructor
  · exact name.symm.trans twins.name
  · exact twins.scope
  · exact fun holds => attributes.symm.trans (twins.attributes holds)
  · exact fun holds => assignments.symm.trans (twins.assignments holds)
  · exact fun holds => content.symm.trans (twins.content holds)

/-- A justified output is the end that an inclusion settles on. -/
theorem Justified.settles {origin : Path} {scope : Bindings} {inclusion : Inclusion}
    {fragment : String} (justified : composer.Justified store origin scope inclusion fragment)
    (same : store.dependencies = other.dependencies) :
    ∃ enough last, store.dependencies = last.dependencies ∧ ∀ levels, enough ≤ levels →
      runFrom (composer.expandForgetful levels origin scope inclusion) other =
        (.ok fragment, last) := by
  obtain ⟨enough, outcome, _⟩ := id justified
  obtain ⟨⟨alike, _⟩, _⟩ :=
    @independent_expandForgetful composer origin scope inclusion enough .empty other
  have accepted : (runFrom (composer.expandForgetful enough origin scope inclusion) other).1 ≠
      .error .tooDeep := by
    rw [← alike, outcome]
    nofun
  obtain ⟨ends, dependencies⟩ := justified.outcome same accepted
  refine ⟨enough, _, dependencies, fun levels deep => ?_⟩
  rw [expandForgetful_of_le deep accepted]
  exact Prod.ext ends rfl

/-- Without reuse an inclusion is always produced anew. -/
theorem runFrom_expandForgetful (levels : Nat) (origin : Path) (scope : Bindings)
    (inclusion : Inclusion) (store : Store) :
    runFrom (composer.expandForgetful levels origin scope inclusion) store =
      match runFrom (composer.forgetful.produce (composer.forgetful.renderBody levels) scope
        inclusion) store with
      | (.ok (place, fragment), last) =>
          (.ok fragment, last.keepFragment (inclusion.fragmentKey origin scope) fragment place)
      | (.error error, last) => (.error error, last) := by
  rw [expandForgetful, runFrom_expand]
  rfl

theorem matches_empty : composer.Matches strict .empty .empty := by
  constructor
  · constructor
    · exact Store.truthful_empty
    · intro key fragment held
      simp [Store.empty] at held
  · rfl

/-- Finding a template leaves stores that match as they were, but for their texts. -/
theorem Matches.reads {last lastOther : Store} (isMatch : composer.Matches strict store other)
    (reads : store.Reads composer.library last)
    (same : lastOther.dependencies = other.dependencies) :
    composer.Matches strict last lastOther := by
  have dependencies : last.dependencies = store.dependencies := reads.dependencies
  constructor
  · constructor
    · exact reads.truthful isMatch.grounded.truthful
    · intro key fragment held
      rw [reads.fragments] at held
      obtain ⟨made, settled⟩ := isMatch.grounded.fragments key fragment held
      constructor
      · exact made
      · intro origin scope inclusion inclusionMade scopeMade sameKey
        apply (settled origin scope inclusion inclusionMade scopeMade sameKey).mono
        rw [dependencies]
        exact fun _ member => member
  · rw [dependencies, same, isMatch.dependencies]

theorem Matches.keepFragment (isMatch : composer.Matches strict store other)
    {key keyOther fragment fragmentOther : String} {place : Place} (made : Unseparated fragment)
    (settled : ∀ origin scope inclusion, inclusion.IsMadeOf NotSeparator →
      scope.IsMadeOf NotSeparator → inclusion.fragmentKey origin scope = key →
        composer.Settled strict (store.keepFragment key fragment place) scope inclusion fragment) :
    composer.Matches strict (store.keepFragment key fragment place)
      (other.keepFragment keyOther fragmentOther place) := by
  refine ⟨⟨isMatch.grounded.truthful, ?_⟩, by simp only [Store.keepFragment, isMatch.dependencies]⟩
  intro found text held
  simp only [Store.keepFragment, Std.ExtTreeMap.getElem?_insert, Std.compare_eq_iff_eq] at held
  split at held
  next same =>
    obtain rfl := Option.some.inj held
    exact ⟨made, same ▸ settled⟩
  · obtain ⟨textMade, held⟩ := isMatch.grounded.fragments found text held
    constructor
    · exact textMade
    · intro origin scope inclusion made scopeMade same
      apply (held origin scope inclusion made scopeMade same).mono
      exact fun place member => Std.ExtTreeSet.mem_insert.mpr (.inr member)

end Stores

/-! ## Reading -/

section Reading

variable {composer : Composer} {strict : Prop} {scope scopeOther : Bindings}

/-- A token moves two drafts on alike, and closes twins. -/
theorem advance_twins {token : Markup.Token} {draft other : Draft}
    (scopeMade : scope.IsMadeOf NotSeparator) (scopes : strict → scope = scopeOther)
    (tokenMade : token.IsMadeOf NotSeparator)
    (named : strict ∨ ((markOf? composer.dialect token).map Prod.fst = some .inclusion →
      composer.dialect.nameAttribute.toLower ∉ token.attributes.map Markup.Attribute.key))
    (drafts : Drafts strict draft other) :
    (∃ nesting, composer.advance scope draft token = .error nesting ∧
      composer.advance scopeOther other token = .error nesting) ∨
    (∃ next nextOther, composer.advance scope draft token = .ok (none, next) ∧
      composer.advance scopeOther other token = .ok (none, nextOther) ∧
        Drafts strict next nextOther) ∨
    ∃ inclusion twin next nextOther,
      composer.advance scope draft token = .ok (some inclusion, next) ∧
        composer.advance scopeOther other token = .ok (some twin, nextOther) ∧
          Drafts strict next nextOther ∧ inclusion.IsMadeOf NotSeparator ∧
            Twins strict scope scopeOther inclusion twin := by
  have asked : ∀ tag name, roleOf composer.dialect token = .inclusion tag name →
      composer.templateName scope token name = composer.templateName scopeOther token name := by
    intro tag name role
    rcases named with holds | unnamed
    · rw [scopes holds]
    · have marked : (markOf? composer.dialect token).map Prod.fst = some .inclusion := by
        rw [markOf?, role]
        rfl
      rw [templateName_of_unnamed scope name (unnamed marked),
        templateName_of_unnamed scopeOther name (unnamed marked)]
  have same : strict →
      composer.advance scope draft token = composer.advance scopeOther other token :=
    fun holds => by rw [scopes holds, drafts.same holds]
  rcases error_or_ok_of_map (advance_outline drafts.frames asked) with
    ⟨nesting, failed, failedOther⟩ |
    ⟨⟨closed, next⟩, ⟨closedOther, nextOther⟩, found, foundOther, outlines⟩
  · exact .inl ⟨nesting, failed, failedOther⟩
  · obtain ⟨closes, frames⟩ := Prod.mk.inj outlines
    obtain ⟨closedMade, nextMade⟩ := isMadeOf_advance scopeMade tokenMade drafts.made found
    rw [found, foundOther] at same
    have sameNext : strict → closed = closedOther ∧ next = nextOther :=
      fun holds => Prod.mk.inj (Except.ok.inj (same holds))
    have nextDrafts : Drafts strict next nextOther :=
      ⟨nextMade, frames, fun holds => (sameNext holds).2⟩
    cases closed with
    | none =>
        cases closedOther with
        | none => exact .inr (.inl ⟨next, nextOther, found, foundOther, nextDrafts⟩)
        | some twin => cases closes
    | some inclusion =>
        cases closedOther with
        | none => cases closes
        | some twin =>
            have whole : strict → inclusion = twin :=
              fun holds => Option.some.inj (sameNext holds).1
            exact .inr (.inr ⟨inclusion, twin, next, nextOther, found, foundOther, nextDrafts,
              closedMade inclusion rfl, Option.some.inj closes, scopes,
              fun holds => congrArg Inclusion.attributes (whole holds),
              fun holds => congrArg Inclusion.assignments (whole holds),
              fun holds => congrArg Inclusion.content (whole holds)⟩)

theorem follows_read {expand : Inclusion → Rendering String}
    {expandOther : Nat → Inclusion → Rendering String} {token : Markup.Token} {draft other : Draft}
    (scopeMade : scope.IsMadeOf NotSeparator) (scopes : strict → scope = scopeOther)
    (tokenMade : token.IsMadeOf NotSeparator)
    (named : strict ∨ ((markOf? composer.dialect token).map Prod.fst = some .inclusion →
      composer.dialect.nameAttribute.toLower ∉ token.attributes.map Markup.Attribute.key))
    (expands : ∀ inclusion twin, inclusion.IsMadeOf NotSeparator →
      Twins strict scope scopeOther inclusion twin →
        composer.Follows strict (Texts strict) (expand inclusion)
          fun levels => expandOther levels twin)
    (drafts : Drafts strict draft other) :
    composer.Follows strict (Drafts strict) (composer.read scope expand draft token)
      fun levels => composer.forgetful.read scopeOther (expandOther levels) other token := by
  have dialect : composer.forgetful.dialect = composer.dialect := rfl
  simp only [read_eq, advance_congr dialect]
  rcases advance_twins scopeMade scopes tokenMade named drafts with ⟨nesting, failed, failedOther⟩ |
    ⟨next, nextOther, found, foundOther, drafts⟩ |
    ⟨inclusion, twin, next, nextOther, found, foundOther, drafts, made, twins⟩
  · simp only [failed, failedOther]
    exact .failure _
  · simp only [found, foundOther]
    exact .value drafts
  · simp only [found, foundOther]
    apply Follows.sequence (expands inclusion twin made twins)
    intro text textOther texts
    exact .value (drafts.append texts)

/-- Two renderings of a body follow each other when they render twins so. -/
theorem follows_body {levels : Nat} {origin elsewhere : Path} {body : String}
    (bodyMade : Unseparated body) (scopeMade : scope.IsMadeOf NotSeparator)
    (scopes : strict → scope = scopeOther) (named : strict ∨ Unnamed composer.dialect body)
    (expands : ∀ inclusion twin, inclusion.IsMadeOf NotSeparator →
      Twins strict scope scopeOther inclusion twin →
        composer.Follows strict (Texts strict)
          (composer.expand (composer.renderBody levels) origin scope inclusion)
            fun levels => composer.expandForgetful levels elsewhere scopeOther twin) :
    composer.Follows strict (Texts strict) (composer.renderBody (levels + 1) origin body scope)
      fun levels => composer.forgetful.renderBody (levels + 1) elsewhere body scopeOther := by
  have start : Drafts strict .empty .empty := ⟨Draft.isMadeOf_empty, rfl, fun _ => rfl⟩
  unfold renderBody
  apply Follows.sequence
  · apply Follows.loop _ start
    intro token member draft other drafts
    have lower : ∀ c, NotSeparator c → NotSeparator c.toLower :=
      fun _ => Text.NotSeparator.toLower
    have tokenMade := Markup.isMadeOf_tokenize lower bodyMade token member
    exact follows_read scopeMade scopes tokenMade
      (named.imp_right fun unnamed => unnamed token member) expands drafts
  · intro draft other drafts
    rcases error_or_ok_of_map (Draft.finish_outcome drafts.frames) with
      ⟨error, failed, failedOther⟩ | ⟨output, outputOther, found, foundOther, _⟩
    · simp only [failed, failedOther]
      exact .failure _
    · simp only [found, foundOther]
      apply Follows.value
      constructor
      · exact Placeholder.isMadeOf_substitute scopeMade (drafts.made.finish found)
      · intro holds
        have sameFinish := congrArg Draft.finish (drafts.same holds)
        rw [found, foundOther] at sameFinish
        rw [scopes holds, Except.ok.inj sameFinish]

end Reading

/-! ## Inclusions -/

/-- From comparable scopes the bodies of pages are rendered so that the second rendering follows the
first. -/
def FollowsBodies (composer : Composer) (strict : Prop)
    (render : Path → String → Bindings → Rendering String)
    (renderOther : Nat → Path → String → Bindings → Rendering String) : Prop :=
  ∀ origin elsewhere body scope scopeOther, Unseparated body → scope.IsMadeOf NotSeparator →
    (strict → scope = scopeOther) → (strict ∨ Unnamed composer.dialect body) →
      composer.Follows strict (Texts strict) (render origin body scope)
        fun levels => renderOther levels elsewhere body scopeOther

/-- What a library has to keep to for renderings from two scopes to be compared: the places tell
templates apart, texts hold no separators, and names of templates do not depend on the scope. -/
structure Comparable (strict : Prop) (composer : Composer) : Prop where
  coherent : composer.library.Coherent
  made : ∀ path content, composer.library.fetch path = .ok (some content) → Unseparated content
  named : strict ∨ ∀ path content, composer.library.fetch path = .ok (some content) →
    Unnamed composer.dialect (Preamble.read content ∅).2

section Inclusions

variable {composer : Composer} {strict : Prop} (comparable : Comparable strict composer)

include comparable

/-- Both renderings find the same template. -/
theorem follows_locate (name : String) :
    composer.Follows strict
      (fun template other => template = other ∧
        ∃ path, composer.library.fetch path = .ok (some template.content))
      (locate composer.library composer.reuse name)
      fun _ => locate composer.library false name := by
  intro store other isMatch _
  obtain ⟨last, reads, found⟩ :=
    runFrom_locateAmong comparable.coherent name fun _ => isMatch.grounded.truthful
  obtain ⟨lastOther, readsOther, foundOther⟩ :=
    @runFrom_locateAmong _ comparable.coherent false name [] (Template.candidates name) other nofun
  refine ⟨0, _, fun _ _ => foundOther, ?_⟩
  rw [locate, found]
  cases outcome : searchAmong composer.library name [] (Template.candidates name) with
  | error error => exact .failure
  | ok template =>
      exact .value ⟨rfl, fetch_of_searchAmong outcome⟩
        (isMatch.reads reads readsOther.dependencies)

/-- Twins are produced alike. -/
theorem follows_produce {render : Path → String → Bindings → Rendering String}
    {renderOther : Nat → Path → String → Bindings → Rendering String}
    (renders : composer.FollowsBodies strict render renderOther)
    {scope scopeOther : Bindings} {inclusion twin : Inclusion}
    (scopeMade : scope.IsMadeOf NotSeparator) (made : inclusion.IsMadeOf NotSeparator)
    (twins : Twins strict scope scopeOther inclusion twin) :
    composer.Follows strict
      (fun found foundOther => found.1 = foundOther.1 ∧ Texts strict found.2 foundOther.2)
      (composer.produce render scope inclusion)
      fun levels => composer.forgetful.produce (renderOther levels) scopeOther twin := by
  unfold produce
  rw [← twins.name]
  apply Follows.sequence (follows_locate comparable _)
  rintro template _ ⟨rfl, path, fetched⟩
  obtain ⟨innerMade, bodyMade⟩ :=
    made.enter (by decide +kernel) scopeMade (comparable.made path _ fetched)
  have body : (twin.enter composer.dialect scopeOther template.content).2 =
      (inclusion.enter composer.dialect scope template.content).2 :=
    Preamble.read_body template.content scopeOther scope
  have scopes : strict → (inclusion.enter composer.dialect scope template.content).1 =
      (twin.enter composer.dialect scopeOther template.content).1 := by
    intro holds
    simp only [Inclusion.enter, twins.scope holds, twins.attributes holds, twins.assignments holds,
      twins.content holds]
  have named : strict ∨ Unnamed composer.dialect
      (inclusion.enter composer.dialect scope template.content).2 := by
    apply comparable.named.imp_right
    intro unnamed
    have same : (Preamble.read template.content ∅).2 =
        (inclusion.enter composer.dialect scope template.content).2 :=
      Preamble.read_body template.content ∅ scope
    exact same ▸ unnamed path _ fetched
  dsimp only
  rw [body]
  apply Follows.sequence (renders _ _ _ _ _ bodyMade innerMade scopes named)
  intro text textOther texts
  apply Follows.value
  exact ⟨rfl, unseparated_wrap template.kind texts.made, fun holds => by rw [texts.same holds]⟩

/-- An inclusion that was produced has an output from every twin. -/
theorem expandForgetful_of_produce {levels : Nat}
    (renders : composer.FollowsBodies strict (composer.renderBody levels)
      composer.forgetful.renderBody)
    {scope scopeOther : Bindings} {inclusion twin : Inclusion} {store other last : Store}
    (scopeMade : scope.IsMadeOf NotSeparator) (made : inclusion.IsMadeOf NotSeparator)
    (isMatch : composer.Matches strict store other) {place : Place} {fragment : String}
    (produced : runFrom (composer.produce (composer.renderBody levels) scope inclusion) store =
      (.ok (place, fragment), last))
    (elsewhere : Path) (twins : Twins strict scope scopeOther inclusion twin) :
    ∃ enough text lastOther, Texts strict fragment text ∧ composer.Matches strict last lastOther ∧
      ∀ levels, enough ≤ levels →
        runFrom (composer.expandForgetful levels elsewhere scopeOther twin) other =
          (.ok text,
            lastOther.keepFragment (twin.fragmentKey elsewhere scopeOther) text place) := by
  have shallow : (runFrom (composer.produce (composer.renderBody levels) scope inclusion)
      store).1 ≠ .error .tooDeep := by
    rw [produced]
    nofun
  obtain ⟨enough, ended, settles, meets⟩ :=
    follows_produce comparable renders scopeMade made twins store other isMatch shallow
  rw [produced] at meets
  cases meets with
  | @value _ found _ lastOther good isMatchLast =>
      rcases found with ⟨_, text⟩
      obtain ⟨rfl, texts⟩ := good
      refine ⟨enough, text, lastOther, texts, isMatchLast, fun levels deep => ?_⟩
      rw [runFrom_expandForgetful, settles levels deep]

/-- The output of an inclusion that was produced is settled once it is kept. -/
theorem settled_of_produce {levels : Nat}
    (renders : composer.FollowsBodies strict (composer.renderBody levels)
      composer.forgetful.renderBody)
    {scope : Bindings} {inclusion : Inclusion} {store other last : Store}
    (scopeMade : scope.IsMadeOf NotSeparator) (made : inclusion.IsMadeOf NotSeparator)
    (isMatch : composer.Matches strict store other) {place : Place} {fragment : String}
    (produced : runFrom (composer.produce (composer.renderBody levels) scope inclusion) store =
      (.ok (place, fragment), last)) (key : String) :
    composer.Settled strict (last.keepFragment key fragment place) scope inclusion fragment := by
  intro elsewhere scopeOther twin twins
  obtain ⟨enough, text, lastOther, texts, isMatchLast, settles⟩ := expandForgetful_of_produce
    comparable renders scopeMade made isMatch produced elsewhere twins
  refine ⟨text, texts.same, ?_⟩
  have ended := settles enough (Nat.le_refl enough)
  apply justified_of_ok (congrArg Prod.fst ended)
  rw [ended]
  simp only [Store.keepFragment, isMatchLast.dependencies]
  exact fun _ member => member

/-- Twins are rendered alike, whether or not the output of the first one is in the store. -/
theorem follows_expand {levels : Nat}
    (renders : composer.FollowsBodies strict (composer.renderBody levels)
      composer.forgetful.renderBody)
    (origin elsewhere : Path) {scope scopeOther : Bindings} {inclusion twin : Inclusion}
    (scopeMade : scope.IsMadeOf NotSeparator) (made : inclusion.IsMadeOf NotSeparator)
    (twins : Twins strict scope scopeOther inclusion twin) :
    composer.Follows strict (Texts strict)
      (composer.expand (composer.renderBody levels) origin scope inclusion)
      fun levels => composer.expandForgetful levels elsewhere scopeOther twin := by
  intro store other isMatch shallow
  rw [runFrom_expand] at shallow ⊢
  dsimp only at shallow ⊢
  cases held : (if composer.reuse then
    store.fragments[inclusion.fragmentKey origin scope]? else none) with
  | some fragment =>
      obtain ⟨fragmentMade, settled⟩ := isMatch.grounded.fragments _ _ (of_reuse held).2
      obtain ⟨text, same, justified⟩ :=
        settled origin scope inclusion made scopeMade rfl elsewhere scopeOther twin twins
      obtain ⟨enough, last, dependencies, settles⟩ := justified.settles isMatch.dependencies
      exact ⟨enough, (.ok text, last), settles,
        .value ⟨fragmentMade, same⟩ ⟨isMatch.grounded, dependencies⟩⟩
  | none =>
      rw [held] at shallow
      dsimp only at shallow ⊢
      rcases produced : runFrom (composer.produce (composer.renderBody levels) scope inclusion)
        store with ⟨error | ⟨place, fragment⟩, last⟩
      · have shallow : (runFrom (composer.produce (composer.renderBody levels) scope inclusion)
            store).1 ≠ .error .tooDeep := by
          rw [produced] at shallow ⊢
          simpa using shallow
        obtain ⟨enough, ended, settles, meets⟩ :=
          follows_produce comparable renders scopeMade made twins store other isMatch shallow
        rw [produced] at meets
        cases meets with
        | @failure _ _ lastOther =>
            refine ⟨enough, (.error error, lastOther), fun levels deep => ?_, .failure⟩
            rw [runFrom_expandForgetful, settles levels deep]
      · obtain ⟨enough, text, lastOther, texts, isMatchLast, settles⟩ := expandForgetful_of_produce
          comparable renders scopeMade made isMatch produced elsewhere twins
        refine ⟨enough, _, settles, .value texts (isMatchLast.keepFragment texts.made ?_)⟩
        intro place scopeTwin inclusionTwin twinMade scopeTwinMade sameKey
        have settled := settled_of_produce comparable renders scopeMade made isMatch produced
          (inclusion.fragmentKey origin scope)
        exact settled.congr ((Inclusion.fragmentKey_inj (twinMade.delimited scopeTwinMade)
          (made.delimited scopeMade)).mp sameKey)

/-- From comparable scopes a body is rendered alike. -/
theorem follows_renderBody (levels : Nat) :
    composer.FollowsBodies strict (composer.renderBody levels) composer.forgetful.renderBody := by
  induction levels with
  | zero => exact fun _ _ _ _ _ _ _ _ _ _ _ _ shallow => absurd rfl shallow
  | succ levels ih =>
      intro origin elsewhere body scope scopeOther bodyMade scopeMade scopes named
      apply Follows.deeper
      apply follows_body bodyMade scopeMade scopes named
      intro inclusion twin made twins
      exact follows_expand comparable ih origin elsewhere scopeMade made twins

/-- A page that is rendered is rendered alike without reuse, from any comparable scope, with enough
levels. -/
theorem run_forgetful {levels : Nat} {origin : Path} (elsewhere : Path) {source : String}
    {scope : Bindings} (scopeOther : Bindings) (sourceMade : Unseparated source)
    (scopeMade : scope.IsMadeOf NotSeparator) (scopes : strict → scope = scopeOther)
    (named : strict ∨ Unnamed composer.dialect (Preamble.read source ∅).2)
    (accepted : (composer.run levels origin source scope).1 ≠ .error .tooDeep) :
    ∃ enough, ∀ more, enough ≤ more →
      (composer.forgetful.run more elsewhere source scopeOther).1.map Rendered.dependencies =
          (composer.run levels origin source scope).1.map Rendered.dependencies ∧
        (strict → (composer.forgetful.run more elsewhere source scopeOther).1 =
          (composer.run levels origin source scope).1) := by
  obtain ⟨innerMade, bodyMade⟩ := Preamble.isMadeOf_read scopeMade sourceMade
  have named : strict ∨ Unnamed composer.dialect (Preamble.read source scope).2 :=
    named.imp_right fun unnamed => Preamble.read_body source ∅ scope ▸ unnamed
  have inner : strict → (Preamble.read source scope).1 = (Preamble.read source scopeOther).1 :=
    fun holds => by rw [scopes holds]
  have follows := follows_renderBody comparable levels origin elsewhere _ _ _ bodyMade innerMade
    inner named
  obtain ⟨enough, ended, settles, meets⟩ :=
    follows .empty .empty matches_empty (accepted ∘ run_eq_error_iff.mpr)
  refine ⟨enough, fun more deep => ?_⟩
  rw [run_eq, run_eq, Preamble.read_body source scopeOther scope, settles more deep]
  generalize runFrom (composer.renderBody levels origin _ _) .empty = first at meets ⊢
  cases meets with
  | failure => exact ⟨rfl, fun _ => rfl⟩
  | value texts isMatch =>
      constructor
      · simp only [Except.map, isMatch.dependencies]
      · intro holds
        simp only [Except.map, isMatch.dependencies, texts.same holds]

/-- A page that is rendered without reuse is rendered. -/
theorem accepted_of_forgetful {levels : Nat} {origin : Path} {source : String} {scope : Bindings}
    (sourceMade : Unseparated source) (scopeMade : scope.IsMadeOf NotSeparator)
    (accepted : (composer.forgetful.run levels origin source scope).1 ≠ .error .tooDeep) :
    (composer.run levels origin source scope).1 ≠ .error .tooDeep := by
  rcases composer with ⟨dialect, library, _ | _⟩
  · exact accepted
  · obtain ⟨innerMade, bodyMade⟩ := Preamble.isMadeOf_read scopeMade sourceMade
    have mirrors := mirrors_renderBody comparable.coherent comparable.made levels origin _ _
      bodyMade innerMade .empty .empty ⟨sound_empty, rfl⟩ (accepted ∘ run_eq_error_iff.mpr)
    intro deep
    exact accepted (run_eq_error_iff.mpr (mirrors.1.1 ▸ run_eq_error_iff.mp deep))

/-- A page that is rendered is rendered elsewhere too, and from any comparable scope. -/
theorem exists_accepted {levels : Nat} {origin : Path} (elsewhere : Path) {source : String}
    {scope : Bindings} (scopeOther : Bindings) (sourceMade : Unseparated source)
    (scopeMade : scope.IsMadeOf NotSeparator) (scopeOtherMade : scopeOther.IsMadeOf NotSeparator)
    (scopes : strict → scope = scopeOther)
    (named : strict ∨ Unnamed composer.dialect (Preamble.read source ∅).2)
    (accepted : (composer.run levels origin source scope).1 ≠ .error .tooDeep) :
    ∃ more, (composer.run more elsewhere source scopeOther).1 ≠ .error .tooDeep := by
  obtain ⟨enough, follows⟩ :=
    run_forgetful comparable elsewhere scopeOther sourceMade scopeMade scopes named accepted
  refine ⟨enough, accepted_of_forgetful comparable sourceMade scopeOtherMade fun deep => ?_⟩
  have same := (follows enough (Nat.le_refl enough)).1
  rw [deep] at same
  rcases error_or_ok_of_map same with ⟨error, failed, failedOther⟩ | ⟨_, _, found, _⟩
  · exact accepted (failedOther.trans failed.symm)
  · cases found

/-- Two pages from comparable scopes, here and elsewhere, end alike. -/
theorem run_alike {levels more : Nat} {origin elsewhere : Path} {source : String}
    {scope scopeOther : Bindings} (sourceMade : Unseparated source)
    (scopeMade : scope.IsMadeOf NotSeparator) (scopeOtherMade : scopeOther.IsMadeOf NotSeparator)
    (scopes : strict → scope = scopeOther)
    (named : strict ∨ Unnamed composer.dialect (Preamble.read source ∅).2)
    (accepted : (composer.run levels origin source scope).1 ≠ .error .tooDeep)
    (acceptedOther : (composer.run more elsewhere source scopeOther).1 ≠ .error .tooDeep) :
    (composer.run levels origin source scope).1.map Rendered.dependencies =
        (composer.run more elsewhere source scopeOther).1.map Rendered.dependencies ∧
      (strict → (composer.run levels origin source scope).1 =
        (composer.run more elsewhere source scopeOther).1) := by
  -- Without reuse the page has one outcome from the second scope, and it meets both.
  have itself : Comparable True composer := ⟨comparable.coherent, comparable.made, .inl trivial⟩
  obtain ⟨enough, follows⟩ :=
    run_forgetful comparable elsewhere scopeOther sourceMade scopeMade scopes named accepted
  obtain ⟨enoughOther, same⟩ := run_forgetful itself elsewhere scopeOther sourceMade scopeOtherMade
    (fun _ => rfl) (.inl trivial) acceptedOther
  obtain ⟨dependencies, outcome⟩ := follows (max enough enoughOther) (by omega)
  rw [(same (max enough enoughOther) (by omega)).2 trivial] at dependencies outcome
  exact ⟨dependencies.symm, fun holds => (outcome holds).symm⟩

end Inclusions

section Pages

variable {composer : Composer} (coherent : composer.library.Coherent)
  (templates : ∀ path content, composer.library.fetch path = .ok (some content) →
    Unseparated content)
  {source : String} {scope scopeOther : Bindings} (sourceMade : Unseparated source)
  (scopeMade : scope.IsMadeOf NotSeparator)

include coherent templates sourceMade scopeMade

/-- Where a page stands does not matter to what it gives. -/
theorem run_origin (origin elsewhere : Path) :
    ((∃ levels, (composer.run levels origin source scope).1 ≠ .error .tooDeep) ↔
        ∃ levels, (composer.run levels elsewhere source scope).1 ≠ .error .tooDeep) ∧
      ∀ levels more, (composer.run levels origin source scope).1 ≠ .error .tooDeep →
        (composer.run more elsewhere source scope).1 ≠ .error .tooDeep →
          (composer.run levels origin source scope).1 =
            (composer.run more elsewhere source scope).1 := by
  have comparable : Comparable True composer := ⟨coherent, templates, .inl trivial⟩
  constructor
  · constructor
    · rintro ⟨levels, accepted⟩
      exact exists_accepted comparable elsewhere scope sourceMade scopeMade scopeMade (fun _ => rfl)
        (.inl trivial) accepted
    · rintro ⟨levels, accepted⟩
      exact exists_accepted comparable origin scope sourceMade scopeMade scopeMade (fun _ => rfl)
        (.inl trivial) accepted
  · intro levels more accepted acceptedOther
    exact (run_alike comparable sourceMade scopeMade scopeMade (fun _ => rfl) (.inl trivial)
      accepted acceptedOther).2 trivial

/-- Let the library be coherent, so that a place identifies its template, and let no inclusion tag
get the name of its template from an attribute.  Then a page is rendered from one scope just when it
is from another.  Both times it fails with the same error, or has the same dependencies: only the
output may differ. -/
theorem run_values (scopeOtherMade : scopeOther.IsMadeOf NotSeparator)
    (unnamed : ∀ path content, composer.library.fetch path = .ok (some content) →
      Unnamed composer.dialect (Preamble.read content ∅).2)
    (sourceUnnamed : Unnamed composer.dialect (Preamble.read source ∅).2) (origin : Path) :
    ((∃ levels, (composer.run levels origin source scope).1 ≠ .error .tooDeep) ↔
        ∃ levels, (composer.run levels origin source scopeOther).1 ≠ .error .tooDeep) ∧
      ∀ levels more, (composer.run levels origin source scope).1 ≠ .error .tooDeep →
        (composer.run more origin source scopeOther).1 ≠ .error .tooDeep →
          (composer.run levels origin source scope).1.map Rendered.dependencies =
            (composer.run more origin source scopeOther).1.map Rendered.dependencies := by
  have comparable : Comparable False composer := ⟨coherent, templates, .inr unnamed⟩
  constructor
  · constructor
    · rintro ⟨levels, accepted⟩
      exact exists_accepted comparable origin scopeOther sourceMade scopeMade scopeOtherMade
        False.elim (.inr sourceUnnamed) accepted
    · rintro ⟨levels, accepted⟩
      exact exists_accepted comparable origin scope sourceMade scopeOtherMade scopeMade False.elim
        (.inr sourceUnnamed) accepted
  · intro levels more accepted acceptedOther
    exact (run_alike comparable sourceMade scopeMade scopeOtherMade False.elim (.inr sourceUnnamed)
      accepted acceptedOther).1

end Pages

/-- A value that looks like a tag is written out, and includes nothing. -/
theorem run_values_tag :
    let templates : List (Path × String) := [(⟨"a.html"⟩, "({{k}})"), (⟨"b.html"⟩, "b")]
    let composer : Composer := { dialect := {}, library := .ofList templates }
    let source := "<t:a k='{{x}}'/>{{x}}"
    let scope : Bindings := .ofList [("x", "<t:b/>")]
    (composer.run 2 ⟨"index.html"⟩ source scope).1.toOption.map Rendered.content =
        some "(<t:b/>)<t:b/>" ∧
      (composer.run 2 ⟨"index.html"⟩ source ∅).1.toOption.map Rendered.content = some "()" ∧
      (composer.run 2 ⟨"index.html"⟩ source scope).1.map Rendered.dependencies =
        (composer.run 2 ⟨"index.html"⟩ source ∅).1.map Rendered.dependencies := by
  intro templates composer source scope
  have output : (composer.run 2 ⟨"index.html"⟩ source scope).1.toOption.map Rendered.content =
      some "(<t:b/>)<t:b/>" := by decide +kernel
  have outputOther : (composer.run 2 ⟨"index.html"⟩ source ∅).1.toOption.map Rendered.content =
      some "()" := by decide +kernel
  have texts : ∀ entry ∈ templates, Unseparated entry.2 ∧
      Unnamed composer.dialect (Preamble.read entry.2 ∅).2 := by decide +kernel
  have held : ∀ path content, composer.library.fetch path = .ok (some content) →
      Unseparated content ∧ Unnamed composer.dialect (Preamble.read content ∅).2 := by
    intro path content found
    obtain ⟨written, member⟩ := Template.Library.mem_of_fetch_ofList found
    exact texts _ member
  have scopeMade : scope.IsMadeOf NotSeparator := Bindings.isMadeOf_empty.merge (by decide +kernel)
  refine ⟨output, outputOther, ?_⟩
  have sourceMade : Unseparated source := by decide +kernel
  have sourceUnnamed : Unnamed composer.dialect (Preamble.read source ∅).2 := by decide +kernel
  apply (run_values (Template.Library.coherent_ofList templates)
    (fun path content found => (held path content found).1) sourceMade scopeMade
    Bindings.isMadeOf_empty (fun path content found => (held path content found).2) sourceUnnamed
    ⟨"index.html"⟩).2
  · intro deep
    simp [deep, Except.toOption] at output
  · intro deep
    simp [deep, Except.toOption] at outputOther

end Composer

end Stencil.Render
