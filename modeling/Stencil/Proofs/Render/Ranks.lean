import Stencil.Proofs.Render.Noninterference

/-!
# Templates of falling rank

A page that includes itself, directly or through others, is never finished.  A rank on the places of
templates rules this out when every template includes templates of lower rank only.  Then every page
is finished, and the ranks bound how deep it is nested.
-/

namespace Stencil

/-- There is a template at a place, and this is its text. -/
def Template.Library.Holds (library : Template.Library) (place : Place) (content : String) : Prop :=
  ∃ path, library.identify path = place ∧ library.fetch path = .ok (some content)

namespace Render

open Markup (Token)

/-! ## Names of open inclusions -/

namespace Draft

/-- The names of the templates that the open inclusions ask for. -/
def names (draft : Draft) : List String :=
  draft.levels.map (·.inclusion.name)

variable {draft next : Draft} {tag key : String}

theorem names_eq : draft.names = draft.frames.map Frame.name := by
  rw [names, frames, List.map_map]
  rfl

@[simp]
theorem names_append (text : String) : (draft.append text).names = draft.names := by
  rw [names_eq, names_eq, frames_append]

theorem names_of_closeInclusion {inclusion : Inclusion}
    (closed : draft.closeInclusion tag = .ok (inclusion, next)) :
    draft.names = inclusion.name :: next.names := by
  unfold closeInclusion at closed
  split at closed
  · cases closed
  next level outer levels =>
    split at closed
    · obtain ⟨rfl, rfl⟩ := Prod.mk.inj (Except.ok.inj closed)
      rw [names, levels]
      rfl
    · cases closed

theorem names_of_openAssignment (opened : draft.openAssignment tag key = .ok next) :
    next.names = draft.names := by
  unfold openAssignment at opened
  split at opened
  · cases opened
  next level outer levels =>
    split at opened
    · cases opened
    · obtain rfl := Except.ok.inj opened
      rw [names, names, levels]
      rfl

theorem names_of_closeAssignment (closed : draft.closeAssignment tag = .ok next) :
    next.names = draft.names := by
  unfold closeAssignment at closed
  split at closed
  · cases closed
  next level outer levels =>
    split at closed
    · split at closed
      · obtain rfl := Except.ok.inj closed
        rw [names, names, levels]
        rfl
      · cases closed
    · cases closed

theorem names_of_readAssignment {opens closes : Bool}
    (read : draft.readAssignment opens closes tag key = .ok next) : next.names = draft.names := by
  unfold readAssignment at read
  cases opened : (if opens then draft.openAssignment tag key else .ok draft) with
  | error nesting => cases closes <;> simp [opened, Except.bind] at read
  | ok middle =>
      have same : middle.names = draft.names := by
        cases opens with
        | false => rw [← Except.ok.inj opened]
        | true => exact names_of_openAssignment opened
      rw [opened] at read
      cases closes with
      | false => rw [← same, Except.ok.inj read]
      | true => rw [names_of_closeAssignment read, same]

/-- An inclusion tag adds its name if it opens, and takes the last name away if it closes. -/
theorem names_of_readInclusion {opens closes : Bool} {name : String} {attributes : Bindings}
    {closed : Option Inclusion}
    (read : draft.readInclusion opens closes tag name attributes = .ok (closed, next)) :
    (closed.map Inclusion.name).toList ++ next.names =
      (if opens then [name] else []) ++ draft.names := by
  unfold readInclusion at read
  have opened : names (if opens then draft.openInclusion tag name attributes else draft) =
      (if opens then [name] else []) ++ draft.names := by
    cases opens <;> rfl
  cases closes with
  | false =>
      obtain ⟨rfl, rfl⟩ := Prod.mk.inj (Except.ok.inj read)
      exact opened
  | true =>
      dsimp only at read
      rw [if_pos rfl] at read
      split at read
      · cases read
      next inclusion rest closing =>
        obtain ⟨rfl, rfl⟩ := Prod.mk.inj (Except.ok.inj read)
        rw [← opened, names_of_closeInclusion closing]
        rfl

end Draft

/-- What holds of the names in a draft, and of the name that a token opens with, holds of the names
in the draft after it, and of that of the inclusion that closes. -/
theorem Composer.forall_names_of_advance {composer : Composer} {scope : Bindings} {token : Token}
    {p : String → Prop} {draft next : Draft} {closed : Option Inclusion}
    (advances : composer.advance scope draft token = .ok (closed, next))
    (held : ∀ name ∈ draft.names, p name)
    (opened : token.opens = true → ∀ tag name, roleOf composer.dialect token = .inclusion tag name →
      p (composer.templateName scope token name)) :
    (∀ inclusion, closed = some inclusion → p inclusion.name) ∧ ∀ name ∈ next.names, p name := by
  unfold advance at advances
  cases role : roleOf composer.dialect token with
  | plain =>
      rw [role] at advances
      obtain ⟨rfl, rfl⟩ := Prod.mk.inj (Except.ok.inj advances)
      exact ⟨nofun, by simpa using held⟩
  | assignment tag key =>
      rw [role] at advances
      dsimp only at advances
      split at advances
      · cases advances
      next middle read =>
        obtain ⟨rfl, rfl⟩ := Prod.mk.inj (Except.ok.inj advances)
        exact ⟨nofun, Draft.names_of_readAssignment read ▸ held⟩
  | inclusion tag name =>
      rw [role] at advances
      have names := Draft.names_of_readInclusion advances
      have all : ∀ name ∈ (closed.map Inclusion.name).toList ++ next.names, p name := by
        rw [names]
        intro other member
        rcases List.mem_append.mp member with member | member
        · cases opens : token.opens with
          | false => simp [opens] at member
          | true =>
              rw [opens, if_pos rfl, List.mem_singleton] at member
              exact member ▸ opened opens tag name role
        · exact held other member
      constructor
      · rintro inclusion rfl
        exact all _ (List.mem_append_left _ (by simp))
      · exact fun other member => all other (List.mem_append_right _ member)

/-! ## Renderings that are finished -/

/-- The texts in a store are texts of templates at their places. -/
def Store.Sourced (library : Template.Library) (store : Store) : Prop :=
  ∀ place content, store.contents[place]? = some content → library.Holds place content

namespace Store

variable {library : Template.Library} {store : Store}

theorem sourced_empty : Store.empty.Sourced library := by
  intro place content held
  simp [Store.empty] at held

theorem Sourced.keepContent (sourced : store.Sourced library) {place : Place} {content : String}
    (holds : library.Holds place content) : (store.keepContent place content).Sourced library := by
  intro elsewhere found held
  simp only [Store.keepContent, Std.ExtTreeMap.getElem?_insert, Std.compare_eq_iff_eq] at held
  split at held
  next same => exact same ▸ Option.some.inj held ▸ holds
  · exact sourced elsewhere found held

end Store

namespace Rendering

variable {library : Template.Library} {α β : Type} {Good : α → Prop} {Result : β → Prop}

/-- From a store with texts of templates, a rendering ends with such a store, and it is not refused
for its depth. -/
def Lands (library : Template.Library) (Good : α → Prop) (rendering : Rendering α) : Prop :=
  ∀ store, store.Sourced library →
    (runFrom rendering store).2.Sourced library ∧
      (runFrom rendering store).1 ≠ .error .tooDeep ∧
        ∀ a, (runFrom rendering store).1 = .ok a → Good a

namespace Lands

theorem value {a : α} (good : Good a) : Lands library Good (pure a) :=
  fun _ sourced => ⟨sourced, nofun, fun _ same => Except.ok.inj same ▸ good⟩

theorem failure {error : Error} (other : error ≠ .tooDeep) :
    Lands library Good (throw error) :=
  fun _ sourced =>
    ⟨sourced, fun deep => other (Except.error.inj deep), fun _ same => by cases same⟩

theorem sequence {first : Rendering α} {next : α → Rendering β} (start : Lands library Good first)
    (rest : ∀ a, Good a → Lands library Result (next a)) :
    Lands library Result (first >>= next) := by
  intro store sourced
  obtain ⟨sourcedMiddle, shallow, good⟩ := start store sourced
  rw [runFrom_bind]
  generalize runFrom first store = ended at sourcedMiddle shallow good ⊢
  rcases ended with ⟨error | a, middle⟩
  · exact ⟨sourcedMiddle, fun deep => shallow (congrArg Except.error (Except.error.inj deep)), nofun⟩
  · exact rest a (good a rfl) middle sourcedMiddle

theorem loop {ι : Type} {items : List ι} {step : α → ι → Rendering α}
    (steps : ∀ item ∈ items, ∀ a, Good a → Lands library Good (step a item)) {a : α}
    (start : Good a) : Lands library Good (items.foldlM step a) := by
  induction items generalizing a with
  | nil => exact value start
  | cons item rest ih =>
      rw [List.foldlM_cons]
      apply sequence (steps item List.mem_cons_self a start)
      intro next good
      exact ih (fun item member => steps item (List.mem_cons_of_mem _ member)) good

end Lands

/-- What is found is a template at the place of a candidate. -/
theorem lands_locateAmong {reuse : Bool} {name : String} {attempted : List Path}
    {candidates : List Template.Candidate} :
    Lands library (fun template => library.Holds template.place template.content ∧
        ∃ candidate ∈ candidates, template.place = library.identify candidate.path)
      (locateAmong library reuse name attempted candidates) := by
  induction candidates generalizing attempted with
  | nil => exact .failure nofun
  | cons candidate others ih =>
      intro store sourced
      rw [runFrom_locateAmong_cons]
      dsimp only
      cases held : (if reuse then store.contents[library.identify candidate.path]? else none) with
      | some content =>
          refine ⟨sourced, nofun, fun template found => ?_⟩
          obtain rfl := Except.ok.inj found
          exact ⟨sourced _ content (of_reuse held).2, candidate, List.mem_cons_self, rfl⟩
      | none =>
          rcases fetched : library.fetch candidate.path with fault | _ | content
          · exact ⟨sourced, nofun, nofun⟩
          · obtain ⟨sourcedLast, shallow, good⟩ :=
              @ih (candidate.path :: attempted) (store.consult _) sourced
            refine ⟨sourcedLast, shallow, fun template found => ?_⟩
            obtain ⟨holds, other, member, place⟩ := good template found
            exact ⟨holds, other, List.mem_cons_of_mem _ member, place⟩
          · have holds : library.Holds (library.identify candidate.path) content :=
              ⟨candidate.path, rfl, fetched⟩
            refine ⟨Store.Sourced.keepContent sourced holds, nofun, fun template found => ?_⟩
            obtain rfl := Except.ok.inj found
            exact ⟨holds, candidate, List.mem_cons_self, rfl⟩

end Rendering

namespace Composer

open Rendering

variable (composer : Composer)

/-- The candidates for the template that a tag asks for by its own name, if it opens an
inclusion. -/
def candidatesOf (token : Token) : List Template.Candidate :=
  match token.opens, roleOf composer.dialect token with
  | true, .inclusion _ name => Template.candidates name
  | _, _ => []

/-- An inclusion tag of a body has a candidate at the place of a template. -/
inductive Includes (body : String) : Place → Prop
  | intro {token : Token} {candidate : Template.Candidate} {content : String} :
      token ∈ Markup.tokenize body → candidate ∈ composer.candidatesOf token →
        composer.library.Holds (composer.library.identify candidate.path) content →
          Includes body (composer.library.identify candidate.path)

/-- The places of the templates that a page includes, directly or through others. -/
inductive Reachable (source : String) : Place → Prop
  | direct {place : Place} :
      composer.Includes (Preamble.read source ∅).2 place → Reachable source place
  | further {place inner : Place} {content : String} :
      Reachable source place → composer.library.Holds place content →
        composer.Includes (Preamble.read content ∅).2 inner → Reachable source inner

/-- Templates include templates of lower rank only, and no inclusion tag in them gets the name of
its template from an attribute. -/
structure Ranked (rank : Place → Nat) : Prop where
  unnamed : ∀ place content, composer.library.Holds place content →
    Unnamed composer.dialect (Preamble.read content ∅).2
  falls : ∀ place content, composer.library.Holds place content →
    ∀ inner, composer.Includes (Preamble.read content ∅).2 inner → rank inner < rank place

variable {composer} {scope : Bindings} {body : String} {rank : Place → Nat}

/-- A tag of the body asks for the template with a name. -/
def Asks (composer : Composer) (body name : String) : Prop :=
  ∃ token ∈ Markup.tokenize body, composer.candidatesOf token = Template.candidates name

/-- An inclusion is finished when the body of every template that it may stand for is. -/
theorem lands_expand {render : Path → String → Bindings → Rendering String} {origin : Path}
    {inclusion : Inclusion} (asked : composer.Asks body inclusion.name)
    (renders : ∀ place content, composer.Includes body place →
      composer.library.Holds place content → ∀ origin inner,
        Lands composer.library Any (render origin (Preamble.read content ∅).2 inner)) :
    Lands composer.library Any (composer.expand render origin scope inclusion) := by
  obtain ⟨token, member, candidates⟩ := asked
  have produces : Lands composer.library Any (composer.produce render scope inclusion) := by
    unfold produce
    apply Lands.sequence lands_locateAmong
    rintro template ⟨holds, candidate, tried, place⟩
    have included : composer.Includes body template.place := by
      rw [place] at holds ⊢
      exact .intro member (candidates ▸ tried) holds
    have entered : (inclusion.enter composer.dialect scope template.content).2 =
        (Preamble.read template.content ∅).2 := Preamble.read_body template.content scope ∅
    dsimp only
    rw [entered]
    apply Lands.sequence (renders template.place template.content included holds _ _)
    exact fun text _ => .value trivial
  intro store sourced
  rw [runFrom_expand]
  dsimp only
  cases (if composer.reuse then store.fragments[inclusion.fragmentKey origin scope]? else none) with
  | some fragment => exact ⟨sourced, nofun, fun _ _ => trivial⟩
  | none =>
      obtain ⟨sourcedLast, shallow, _⟩ := produces store sourced
      dsimp only
      generalize runFrom (composer.produce render scope inclusion) store = ended
        at sourcedLast shallow ⊢
      rcases ended with ⟨error | ⟨place, fragment⟩, last⟩
      · have other : error ≠ .tooDeep := fun deep => shallow (congrArg Except.error deep)
        exact ⟨sourcedLast, fun deep => other (Except.error.inj deep), nofun⟩
      · exact ⟨sourcedLast, nofun, fun _ _ => trivial⟩

/-- A body is finished when the inclusions that it asks for are. -/
theorem lands_body {levels : Nat} {origin : Path} (unnamed : Unnamed composer.dialect body)
    (expands : ∀ inclusion : Inclusion, composer.Asks body inclusion.name →
      Lands composer.library Any
        (composer.expand (composer.renderBody levels) origin scope inclusion)) :
    Lands composer.library Any (composer.renderBody (levels + 1) origin body scope) := by
  -- Every inclusion that is open at some point was asked for by a tag of the body.
  have reading : Lands composer.library
      (fun draft : Draft => ∀ name ∈ draft.names, composer.Asks body name)
      ((Markup.tokenize body).foldlM (composer.read scope
        (composer.expand (composer.renderBody levels) origin scope)) .empty) := by
    apply Lands.loop _ fun _ member => by cases member
    intro token member draft held
    rw [read_eq]
    cases advances : composer.advance scope draft token with
    | error nesting => exact .failure fun same => by cases same
    | ok next =>
        rcases next with ⟨closed, next⟩
        obtain ⟨closes, names⟩ := forall_names_of_advance advances held <| by
          intro opens tag name role
          have marked : (markOf? composer.dialect token).map Prod.fst = some .inclusion := by
            rw [markOf?, role]
            rfl
          rw [templateName_of_unnamed scope name (unnamed token member marked)]
          exact ⟨token, member, by simp only [candidatesOf, opens, role]⟩
        cases closed with
        | none => exact .value names
        | some inclusion =>
            apply Lands.sequence (expands inclusion (closes inclusion rfl))
            intro text _
            exact .value (by simpa using names)
  unfold renderBody
  apply Lands.sequence reading
  rintro ⟨output, _ | ⟨level, outer⟩⟩ _
  · exact .value trivial
  · exact .failure fun same => by cases same

/-- A body that includes templates of ranks below `bound` is nested to at most `bound` more
levels. -/
theorem lands_renderBody (ranked : composer.Ranked rank) {bound : Nat} (origin : Path)
    (scope : Bindings) (unnamed : Unnamed composer.dialect body)
    (below : ∀ place, composer.Includes body place → rank place < bound) :
    Lands composer.library Any (composer.renderBody (bound + 1) origin body scope) := by
  induction bound generalizing origin body scope with
  | zero =>
      apply lands_body unnamed
      intro inclusion asked
      apply lands_expand asked
      exact fun place _ included => absurd (below place included) (by omega)
  | succ bound ih =>
      apply lands_body unnamed
      intro inclusion asked
      apply lands_expand asked
      intro place content included holds origin inner
      apply ih _ _ (ranked.unnamed place content holds)
      intro further includes
      have falls := ranked.falls place content holds further includes
      have lower := below place included
      omega

/-- A body has finitely many tags, so that the ranks of the templates that it includes are
bounded. -/
theorem exists_bound (composer : Composer) (rank : Place → Nat) (body : String) :
    ∃ bound, ∀ place, composer.Includes body place → rank place < bound := by
  have bounded : ∀ candidates : List Template.Candidate, ∃ bound, ∀ candidate ∈ candidates,
      rank (composer.library.identify candidate.path) < bound := by
    intro candidates
    induction candidates with
    | nil => exact ⟨0, nofun⟩
    | cons candidate others ih =>
        obtain ⟨bound, below⟩ := ih
        refine ⟨max bound (rank (composer.library.identify candidate.path) + 1),
          List.forall_mem_cons.mpr ⟨by omega, ?_⟩⟩
        intro other member
        have := below other member
        omega
  obtain ⟨bound, below⟩ := bounded ((Markup.tokenize body).flatMap composer.candidatesOf)
  refine ⟨bound, fun place included => ?_⟩
  cases included with
  | intro member tried holds => exact below _ (List.mem_flatMap.mpr ⟨_, member, tried⟩)

/-- When templates include templates of lower rank only, every page comes to an end, with a result
or an error.  It is nested to at most two levels more than the greatest rank of a template that it
includes, directly or through others. -/
theorem run_ranked (ranked : composer.Ranked rank) {source : String}
    (unnamed : Unnamed composer.dialect (Preamble.read source ∅).2) (origin : Path)
    (scope : Bindings) :
    (∃ ended, ended.1 ≠ .error .tooDeep ∧
      ∃ enough, ∀ levels, enough ≤ levels → composer.run levels origin source scope = ended) ∧
    ∀ greatest, (∀ place, composer.Reachable source place → rank place ≤ greatest) →
      (composer.run (greatest + 2) origin source scope).1 ≠ .error .tooDeep := by
  have bounded : ∀ bound, (∀ place, composer.Includes (Preamble.read source ∅).2 place →
      rank place < bound) → (composer.run (bound + 1) origin source scope).1 ≠ .error .tooDeep := by
    intro bound below deep
    have lands := lands_renderBody ranked origin (Preamble.read source scope).1 unnamed below
      .empty Store.sourced_empty
    rw [run_eq_error_iff, Preamble.read_body source scope ∅] at deep
    exact lands.2.1 deep
  constructor
  · obtain ⟨bound, below⟩ := exists_bound composer rank (Preamble.read source ∅).2
    refine ⟨_, bounded bound below, bound + 1, fun levels enough => ?_⟩
    exact composer.run_of_le enough (bounded bound below)
  · intro greatest greater
    apply bounded
    exact fun place included => Nat.lt_succ_of_le (greater place (.direct included))

/-- Ranks that fall along every candidate of the tags in a list of texts. -/
theorem ranked_ofList {dialect : Dialect} {templates : List (Path × String)} {reuse : Bool}
    (unnamed : ∀ entry ∈ templates, Unnamed dialect (Preamble.read entry.2 ∅).2)
    (falls : ∀ entry ∈ templates, ∀ token ∈ Markup.tokenize (Preamble.read entry.2 ∅).2,
      ∀ candidate ∈ candidatesOf { dialect, library := .ofList templates, reuse } token,
        rank (Place.ofPath candidate.path) < rank (Place.ofPath entry.1)) :
    Ranked { dialect, library := .ofList templates, reuse } rank := by
  have written : ∀ place content, (Template.Library.ofList templates).Holds place content →
      ∃ entry ∈ templates, Place.ofPath entry.1 = place ∧ entry.2 = content := by
    rintro place content ⟨path, rfl, fetched⟩
    obtain ⟨written, same, member⟩ := Template.Library.written_of_fetch_ofList fetched
    exact ⟨(written, content), member, same, rfl⟩
  constructor
  · intro place content holds
    obtain ⟨entry, member, -, rfl⟩ := written place content holds
    exact unnamed entry member
  · intro place content holds inner included
    obtain ⟨entry, member, rfl, rfl⟩ := written place content holds
    cases included with
    | intro inside tried _ => exact falls entry member _ inside _ tried

/-- A page that includes a template which includes another one is nested to three levels. -/
theorem run_ranked_nested :
    let templates : List (Path × String) := [(⟨"p.html"⟩, "(<t:q/>)"), (⟨"q.html"⟩, "q")]
    let composer : Composer := { dialect := {}, library := .ofList templates }
    let rank (place : Place) : Nat := if place = Place.ofPath ⟨"p.html"⟩ then 1 else 0
    composer.Ranked rank ∧
      (composer.run 3 ⟨"index.html"⟩ "<t:p/>" ∅).1 ≠ .error .tooDeep ∧
        (composer.run 2 ⟨"index.html"⟩ "<t:p/>" ∅).1.toOption = none := by
  intro templates composer rank
  have ranked : composer.Ranked rank := ranked_ofList (by decide +kernel) (by decide +kernel)
  have unnamed : Unnamed composer.dialect (Preamble.read "<t:p/>" ∅).2 := by decide +kernel
  refine ⟨ranked, (run_ranked ranked unnamed ⟨"index.html"⟩ ∅).2 1 ?_, by decide +kernel⟩
  intro place _
  dsimp only [rank]
  split <;> omega

end Composer

end Render

end Stencil
