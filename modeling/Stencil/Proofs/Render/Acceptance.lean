import Stencil.Proofs.Preamble
import Stencil.Proofs.Render.Nesting
import Stencil.Proofs.Template.Coherence

/-!
# Accepted pages

When every inclusion that a page closes finds a template, and templates include nothing further,
the only way to fail is a wrong nesting of the tags.  Such a page is accepted exactly when it is a
sentence of the grammar, and the error tells what else it is.
-/

namespace Stencil

/-- The name stands for a template: the first candidate that is there can be read. -/
def Template.Library.Resolves (library : Library) (name : String) : Prop :=
  ∃ before candidate after content, candidates name = before ++ candidate :: after ∧
    (∀ missing ∈ before, library.fetch missing.path = .ok none) ∧
      library.fetch candidate.path = .ok (some content)

namespace Render

open Markup (Token)

namespace Rendering

variable {library : Template.Library} {reuse : Bool} {name : String}

theorem locateAmong_of_fetch {attempted : List Path} {before after : List Template.Candidate}
    {candidate : Template.Candidate} {content : String}
    (missing : ∀ missing ∈ before, library.fetch missing.path = .ok none)
    (fetched : library.fetch candidate.path = .ok (some content)) (store : Store) :
    ∃ template middle,
      runFrom (locateAmong library reuse name attempted (before ++ candidate :: after)) store =
        (.ok template, middle) := by
  induction before generalizing attempted store with
  | nil =>
      rw [List.nil_append, runFrom_locateAmong_cons, fetched]
      dsimp only
      split <;> exact ⟨_, _, rfl⟩
  | cons first before ih =>
      rw [List.cons_append, runFrom_locateAmong_cons, missing first List.mem_cons_self]
      dsimp only
      split
      · exact ⟨_, _, rfl⟩
      · exact ih (fun other member => missing other (List.mem_cons_of_mem _ member)) _

/-- A name that stands for a template leads to a template, whatever was loaded before. -/
theorem locate_of_resolves (resolves : library.Resolves name) {store : Store}
    (loaded : store.Loaded library) :
    ∃ template middle path, runFrom (locate library reuse name) store = (.ok template, middle) ∧
      middle.Loaded library ∧ library.fetch path = .ok (some template.content) := by
  rcases resolves with ⟨before, candidate, after, content, candidates, missing, fetched⟩
  obtain ⟨loadedMiddle, _, held⟩ :=
    loaded_locateAmong reuse name [] (Template.candidates name) loaded
  obtain ⟨template, middle, located⟩ := locateAmong_of_fetch missing fetched store
  rw [← candidates] at located
  rw [located] at loadedMiddle held
  obtain ⟨_, path, _, given⟩ := loadedMiddle.contents _ _ (held template rfl)
  exact ⟨template, middle, path, located, loadedMiddle, given⟩

end Rendering

/-- The body of an included template is what its preamble leaves. -/
theorem Inclusion.enter_body (inclusion : Inclusion) (dialect : Dialect) (scope : Bindings)
    (template : String) :
    (inclusion.enter dialect scope template).2 = (Preamble.read template scope).2 := rfl

namespace Composer

open Rendering

variable (composer : Composer) (scope : Bindings)

/-- The inclusions that the tokens close can be rendered. -/
def RendersAll (expand : Inclusion → Rendering String) (tokens : List Token) : Prop :=
  ∀ before opening rest after, tokens = before ++ opening :: rest ++ after →
    Derives composer.dialect (.element .inclusion) (opening :: rest) →
      ∀ inclusion, inclusion.name = composer.askedName scope opening →
        ∀ store, store.Loaded composer.library → ∃ text last,
          runFrom (expand inclusion) store = (.ok text, last) ∧ last.Loaded composer.library

variable {composer scope} {expand : Inclusion → Rendering String}

/-- Reading tokens one after the other does to the levels what they do to the stack. -/
theorem runFrom_readAll {tokens done rest stack : List Token}
    (renders : composer.RendersAll scope expand tokens) (whole : tokens = done ++ rest)
    {draft : Draft} (holds : Holds composer scope draft.levels stack)
    (opened : Opened composer.dialect stack done) {store : Store}
    (loaded : store.Loaded composer.library) :
    match nestAll composer.dialect stack rest with
    | some next => ∃ after last,
        runFrom (rest.foldlM (composer.read scope expand) draft) store = (.ok after, last) ∧
          Holds composer scope after.levels next
    | none => ∃ nesting last,
        runFrom (rest.foldlM (composer.read scope expand) draft) store =
          (.error (.invalidNesting nesting), last) := by
  induction rest generalizing done stack draft store with
  | nil => exact ⟨draft, store, rfl, holds⟩
  | cons token rest ih =>
      rw [List.foldlM_cons, nestAll_cons]
      cases nested : nest composer.dialect stack token with
      | none =>
          obtain ⟨nesting, refused⟩ := holds.advance_error nested
          refine ⟨nesting, store, ?_⟩
          rw [runFrom_bind, read_eq, refused]
          rfl
      | some next =>
          obtain ⟨closed, after, advances, holds, complete⟩ := holds.advance opened nested
          have openedNext := opened.nest nested
          have wholeNext : tokens = (done ++ [token]) ++ rest := by simp [whole]
          rw [Option.bind_some, runFrom_bind, read_eq, advances]
          cases closed with
          | none => exact ih wholeNext holds openedNext loaded
          | some inclusion =>
              obtain ⟨before, opening, inner, same, derives, name⟩ := complete inclusion rfl
              obtain ⟨text, last, rendered, loadedLast⟩ :=
                renders before opening inner rest (by rw [wholeNext, same]) derives inclusion name
                  store loaded
              dsimp only
              rw [runFrom_bind, rendered]
              exact ih wholeNext (holds.append text) openedNext loadedLast

/-- When all inclusions of a body can be rendered, the stack after its tokens decides how the
rendering ends. -/
theorem runFrom_renderBody {levels : Nat} {origin : Path} {body : String}
    (renders : composer.RendersAll scope (composer.expand (composer.renderBody levels) origin scope)
      (Markup.tokenize body)) {store : Store} (loaded : store.Loaded composer.library) :
    match nestAll composer.dialect [] (Markup.tokenize body) with
    | some [] => ∃ text last,
        runFrom (composer.renderBody (levels + 1) origin body scope) store = (.ok text, last)
    | some (opening :: _) => ∃ kind tag last, markOf? composer.dialect opening = some (kind, tag) ∧
        runFrom (composer.renderBody (levels + 1) origin body scope) store =
          (.error (.unclosedTag tag), last)
    | none => ∃ nesting last,
        runFrom (composer.renderBody (levels + 1) origin body scope) store =
          (.error (.invalidNesting nesting), last) := by
  have holds : Holds composer scope Draft.empty.levels [] := .nil
  have read := runFrom_readAll renders (List.nil_append _).symm holds (.none .nil) loaded
  unfold renderBody
  rw [runFrom_bind]
  split at read
  next next nested =>
    rcases read with ⟨after, last, ran, holds⟩
    rw [nested, ran]
    dsimp only
    cases levels : after.levels with
    | nil =>
        rw [levels] at holds
        cases holds
        simp only [Draft.finish, levels]
        exact ⟨_, last, rfl⟩
    | cons level outer =>
        rw [levels] at holds
        obtain ⟨opening, rest, rfl, marked⟩ := holds.innermost
        simp only [Draft.finish, levels]
        exact ⟨_, _, last, marked, rfl⟩
  next nested =>
    rcases read with ⟨nesting, last, ran⟩
    rw [nested, ran]
    exact ⟨nesting, last, rfl⟩

section Inert

variable (inert : ∀ path content, composer.library.fetch path = .ok (some content) →
  ∀ token ∈ Markup.tokenize (Preamble.read content ∅).2, markOf? composer.dialect token = none)

include inert

/-- A template without composition tags is accepted. -/
theorem runFrom_renderBody_inert {levels : Nat} {origin path : Path} {content : String}
    {inner outside : Bindings} (fetched : composer.library.fetch path = .ok (some content))
    {store : Store} (loaded : store.Loaded composer.library) :
    ∃ text last, runFrom (composer.renderBody (levels + 1) origin
      (Preamble.read content outside).2 inner) store = (.ok text, last) := by
  rw [Preamble.read_body content outside ∅]
  have plain := inert path content fetched
  generalize (Preamble.read content ∅).2 = body at plain
  have renders : composer.RendersAll inner
      (composer.expand (composer.renderBody levels) origin inner) (Markup.tokenize body) := by
    intro before opening rest after whole derives
    obtain ⟨_, tag, marked⟩ := derives.opening
    have member : opening ∈ Markup.tokenize body := by simp [whole]
    simp [plain opening member] at marked
  have ended := runFrom_renderBody renders loaded
  rwa [sentence_iff.mp (sentence_of_plain plain)] at ended

/-- An inclusion whose name stands for a template can be rendered. -/
theorem runFrom_expand_of_resolves {levels : Nat} {origin : Path} {inclusion : Inclusion}
    (resolves : composer.library.Resolves inclusion.name) {store : Store}
    (loaded : store.Loaded composer.library) :
    ∃ text last, runFrom (composer.expand (composer.renderBody (levels + 1)) origin scope inclusion)
      store = (.ok text, last) ∧ last.Loaded composer.library := by
  have loads := (composer.loads_expand (composer.loads_renderBody (levels + 1)) origin scope
    inclusion store loaded).1
  have accepted : ∃ text last, runFrom
      (composer.expand (composer.renderBody (levels + 1)) origin scope inclusion) store =
        (.ok text, last) := by
    rw [runFrom_expand]
    dsimp only
    split
    · exact ⟨_, _, rfl⟩
    · obtain ⟨template, middle, path, located, loadedMiddle, given⟩ :=
        locate_of_resolves resolves loaded
      rw [runFrom_produce, located]
      dsimp only
      rw [inclusion.enter_body]
      obtain ⟨text, last, ran⟩ := runFrom_renderBody_inert inert given loadedMiddle
      rw [ran]
      exact ⟨_, _, rfl⟩
  rcases accepted with ⟨text, last, ran⟩
  rw [ran] at loads
  exact ⟨text, last, ran, loads⟩

/-- Let no template hold a composition tag, and let all inclusions that the page closes stand for
templates.  Then the page is accepted exactly when its tokens are a sentence of the grammar.  It is
refused for its nesting when some beginning of it cannot become a sentence, and otherwise for the
innermost tag that stays open. -/
theorem run_grammar {source : String}
    (resolves : ∀ before opening rest after,
      Markup.tokenize (Preamble.read source scope).2 = before ++ opening :: rest ++ after →
        Derives composer.dialect (.element .inclusion) (opening :: rest) →
          composer.library.Resolves
            (composer.askedName (Preamble.read source scope).1 opening))
    (levels : Nat) (origin : Path) :
    let tokens := Markup.tokenize (Preamble.read source scope).2
    let outcome := (composer.run (levels + 2) origin source scope).1
    ((∃ rendered, outcome = .ok rendered) ↔ Sentence composer.dialect tokens) ∧
      ((∃ front, front <+: tokens ∧ ¬ Extendable composer.dialect front) →
        ∃ nesting, outcome = .error (.invalidNesting nesting)) ∧
      ((∀ front, front <+: tokens → Extendable composer.dialect front) →
        ¬ Sentence composer.dialect tokens →
          ∃ tag, outcome = .error (.unclosedTag tag) ∧
            InnermostOpen composer.dialect tokens tag) := by
  intro tokens outcome
  have renders : composer.RendersAll (Preamble.read source scope).1
      (composer.expand (composer.renderBody (levels + 1)) origin (Preamble.read source scope).1)
      tokens := by
    intro before opening rest after whole derives inclusion name store loaded
    have found := resolves before opening rest after whole derives
    exact runFrom_expand_of_resolves inert (name ▸ found) loaded
  have ended := runFrom_renderBody renders Store.loaded_empty
  have outcome_eq : outcome = (runFrom (composer.renderBody (levels + 2) origin
      (Preamble.read source scope).2 (Preamble.read source scope).1) .empty).1.map
        (⟨·, (composer.run (levels + 2) origin source scope).2.dependencies⟩) := rfl
  rw [sentence_iff, ← nestAll_eq_none_iff]
  have reachable : (∀ front, front <+: tokens → Extendable composer.dialect front) →
      nestAll composer.dialect [] tokens ≠ none := by
    intro extendable refused
    rcases nestAll_eq_none_iff.mp refused with ⟨front, start, stuck⟩
    exact stuck (extendable front start)
  cases nested : nestAll composer.dialect [] tokens with
  | none =>
      rw [nested] at ended
      rcases ended with ⟨nesting, last, ran⟩
      rw [ran] at outcome_eq
      refine ⟨⟨?_, nofun⟩, fun _ => ⟨nesting, outcome_eq⟩, fun extendable => ?_⟩
      · rintro ⟨rendered, accepted⟩
        simp [outcome_eq, Except.map] at accepted
      · exact absurd nested (reachable extendable)
  | some stack =>
      cases stack with
      | nil =>
          rw [nested] at ended
          rcases ended with ⟨text, last, ran⟩
          rw [ran] at outcome_eq
          refine ⟨⟨fun _ => rfl, fun _ => ⟨_, outcome_eq⟩⟩, nofun, fun _ other => absurd rfl other⟩
      | cons opening outer =>
          rw [nested] at ended
          rcases ended with ⟨kind, tag, last, marked, ran⟩
          rw [ran] at outcome_eq
          refine ⟨⟨?_, nofun⟩, nofun, fun _ _ => ⟨tag, outcome_eq, ?_⟩⟩
          · rintro ⟨rendered, accepted⟩
            simp [outcome_eq, Except.map] at accepted
          · exact (nestAll_eq_some_iff.mp nested).innermost marked

end Inert

/-- The inclusion that is not closed is to blame, and not the one before it. -/
theorem run_grammar_unclosed :
    let composer : Composer := { dialect := {}, library := .ofList [(⟨"a.html"⟩, "A")] }
    let tokens := Markup.tokenize (Preamble.read "<t:a/><t:a>" ∅).2
    tokens.map Token.name? = [some "t:a", some "t:a"] ∧
      ∃ tag, (composer.run 2 ⟨"index.html"⟩ "<t:a/><t:a>" ∅).1 = .error (.unclosedTag tag) ∧
        InnermostOpen composer.dialect tokens tag := by
  intro composer tokens
  have nested : ∃ stack, nestAll composer.dialect [] tokens = some stack :=
    Option.isSome_iff_exists.mp (by decide +kernel)
  have unclosed : nestAll composer.dialect [] tokens ≠ some [] := by decide +kernel
  have names : ∀ token ∈ tokens, composer.askedName (Preamble.read "<t:a/><t:a>" ∅).1 token = "a" := by
    decide +kernel
  have plain : ∀ token ∈ Markup.tokenize (Preamble.read "A" ∅).2,
      markOf? composer.dialect token = none := by decide +kernel
  constructor
  · decide +kernel
  · refine (run_grammar ?_ ?_ 0 ⟨"index.html"⟩).2.2 ?_ ?_
    · intro path content found
      obtain ⟨written, member⟩ := Template.Library.mem_of_fetch_ofList found
      rcases Prod.mk.inj (List.mem_singleton.mp member) with ⟨_, rfl⟩
      exact plain
    · intro before opening rest after whole _
      have member : opening ∈ tokens := by simp [tokens, whole]
      rw [names opening member]
      exact ⟨[], Template.candidate .html "a", [], "A", by decide, nofun, by rfl⟩
    · exact fun front start => (extendable_iff.mpr nested).front start
    · rwa [sentence_iff]

end Composer

end Render

end Stencil
