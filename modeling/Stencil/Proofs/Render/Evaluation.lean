import Stencil.Proofs.Render.Reuse
import Stencil.Proofs.Render.Tree

/-!
# Pages as trees

Reading a page with a stack of open tags gives what recursion on the tree of the page gives.  What
carries the proof is that the tokens of a phrase do to any draft around them what the value of the
phrase does.
-/

namespace Stencil.Render

open Markup (Token)

namespace Draft

/-- Give variables to the innermost open inclusion. -/
def assign (draft : Draft) (values : List (String × String)) : Draft :=
  match draft.levels with
  | [] => draft
  | level :: outer =>
      let assignments := level.inclusion.assignments.merge values
      { draft with
        levels := { level with inclusion := { level.inclusion with assignments } } :: outer }

/-- The innermost open tag is an inclusion. -/
def InsideInclusion (draft : Draft) : Prop :=
  ∃ inclusion outer, draft.levels = ⟨inclusion, none⟩ :: outer

variable {draft : Draft}

@[simp]
theorem append_empty : draft.append "" = draft := by
  rcases draft with ⟨output, _ | ⟨⟨inclusion, _ | assignment⟩, outer⟩⟩ <;>
    simp [append, Level.append]

@[simp]
theorem append_append (first second : String) :
    (draft.append first).append second = draft.append (first ++ second) := by
  rcases draft with ⟨output, _ | ⟨⟨inclusion, _ | assignment⟩, outer⟩⟩ <;>
    simp [append, Level.append, String.append_assoc]

@[simp]
theorem assign_nil : draft.assign [] = draft := by
  rcases draft with ⟨output, _ | ⟨⟨inclusion, _ | assignment⟩, outer⟩⟩ <;> rfl

@[simp]
theorem assign_assign (first second : List (String × String)) :
    (draft.assign first).assign second = draft.assign (first ++ second) := by
  rcases draft with ⟨output, _ | ⟨level, outer⟩⟩
  · rfl
  · simp [assign, Bindings.merge]

/-- Text and variables do not get in each other's way. -/
theorem append_assign (values : List (String × String)) (text : String) :
    (draft.assign values).append text = (draft.append text).assign values := by
  rcases draft with ⟨output, _ | ⟨⟨inclusion, _ | assignment⟩, outer⟩⟩ <;> rfl

theorem InsideInclusion.append (inside : draft.InsideInclusion) (text : String) :
    (draft.append text).InsideInclusion := by
  rcases inside with ⟨inclusion, outer, levels⟩
  unfold Draft.append
  rw [levels]
  exact ⟨_, outer, rfl⟩

theorem InsideInclusion.assign (inside : draft.InsideInclusion)
    (values : List (String × String)) : (draft.assign values).InsideInclusion := by
  rcases inside with ⟨inclusion, outer, levels⟩
  unfold Draft.assign
  rw [levels]
  exact ⟨_, outer, rfl⟩

/-- Add the text and the variables of some contents at the current position. -/
def add {mixed : Bool} (draft : Draft) (contents : Contents mixed) : Draft :=
  (draft.append contents.text).assign contents.values

/-- Add the value of a phrase at the current position. -/
def take (draft : Draft) : {phrase : Phrase} → phrase.Value → Draft
  | .content _, contents => draft.add contents
  | .element .inclusion, output => draft.append output
  | .element .assignment, given => draft.assign [given]

end Draft

/-- The drafts in which a phrase may stand. -/
def Phrase.Suits (draft : Draft) : Phrase → Prop
  | content mixed => mixed = true → draft.InsideInclusion
  | element kind => kind = .assignment → draft.InsideInclusion

section Elements

variable {draft : Draft} {tag : String}

/-- An inclusion closes with all that was added since it opened, and leaves the draft as it was. -/
theorem Draft.closeInclusion_add (name : String) (attributes : Bindings)
    (contents : Contents true) :
    ((draft.openInclusion tag name attributes).add contents).closeInclusion tag =
      .ok (⟨tag, name, attributes, Bindings.ofList contents.values, contents.text⟩, draft) := by
  simp [Draft.add, Draft.openInclusion, Draft.append, Draft.assign, Draft.closeInclusion,
    Level.append, Level.innermost, Bindings.ofList]

/-- A variable opens inside an inclusion, and gives it its text when it closes. -/
theorem Draft.closeAssignment_add (key : String) (inside : draft.InsideInclusion) :
    ∃ opened, draft.openAssignment tag key = .ok opened ∧ ∀ contents : Contents false,
      (opened.add contents).closeAssignment tag =
        .ok (draft.assign [(key, Text.trim Text.isBlank contents.text)]) := by
  rcases draft with ⟨output, levels⟩
  rcases inside with ⟨inclusion, outer, rfl⟩
  refine ⟨⟨output, ⟨inclusion, some ⟨tag, key, ""⟩⟩ :: outer⟩, rfl, fun contents => ?_⟩
  simp [Draft.add, contents.confined, Draft.append, Draft.assign, Draft.closeAssignment,
    Level.append, Bindings.merge]

end Elements

namespace Composer

open Rendering

variable {composer : Composer} {scope : Bindings} {draft : Draft} {token : Token} {tag : String}

theorem name?_of_marked {kind : TagKind}
    (marked : markOf? composer.dialect token = some (kind, tag)) : token.name? = some tag := by
  unfold markOf? at marked
  cases role : roleOf composer.dialect token with
  | plain => simp [role, Role.mark?] at marked
  | inclusion found name =>
      simp only [role, Role.mark?, Option.some.injEq, Prod.mk.injEq] at marked
      rw [(roleOf_eq_inclusion_iff.mp role).1, marked.2]
  | assignment found key =>
      simp only [role, Role.mark?, Option.some.injEq, Prod.mk.injEq] at marked
      rw [(roleOf_eq_assignment_iff.mp role).1, marked.2]

theorem advance_inclusion (marked : markOf? composer.dialect token = some (.inclusion, tag)) :
    composer.advance scope draft token =
      draft.readInclusion token.opens token.closes tag (composer.askedName scope token)
        (composer.attributesOf scope token) := by
  unfold advance
  unfold markOf? at marked
  cases role : roleOf composer.dialect token with
  | inclusion found name =>
      simp only [role, Role.mark?, Option.some.injEq, Prod.mk.injEq, true_and] at marked
      rw [askedName_eq role, marked]
  | plain | assignment => simp [role, Role.mark?] at marked

theorem advance_assignment (marked : markOf? composer.dialect token = some (.assignment, tag)) :
    composer.advance scope draft token =
      (draft.readAssignment token.opens token.closes tag
        ((token.nameAfter? composer.dialect.variablePrefix.toLower).getD "")).map (none, ·) := by
  unfold advance
  unfold markOf? at marked
  cases role : roleOf composer.dialect token with
  | assignment found key =>
      simp only [role, Role.mark?, Option.some.injEq, Prod.mk.injEq, true_and] at marked
      rw [(roleOf_eq_assignment_iff.mp role).2.2, ← marked, Option.getD_some]
      dsimp only
      cases draft.readAssignment token.opens token.closes found key <;> rfl
  | plain | inclusion => simp [role, Role.mark?] at marked

/-- A token that is no composition tag is copied. -/
theorem advance_plain (unmarked : markOf? composer.dialect token = none) :
    composer.advance scope draft token = .ok (none, draft.append token.raw) := by
  unfold markOf? at unmarked
  unfold advance
  cases role : roleOf composer.dialect token with
  | plain => rfl
  | inclusion | assignment => simp [role, Role.mark?] at unmarked

/-- A start tag opens an inclusion, and an end tag closes it with what was added since. -/
theorem advance_inclusion_enclosed {opening closing : Token}
    (marked : markOf? composer.dialect opening = some (.inclusion, tag))
    (opens : opening.opens = true) (stays : opening.closes = false)
    (markedLast : markOf? composer.dialect closing = some (.inclusion, tag))
    (staysLast : closing.opens = false) (closesLast : closing.closes = true) :
    ∃ opened : Draft, opened.InsideInclusion ∧
      composer.advance scope draft opening = .ok (none, opened) ∧ ∀ contents : Contents true,
        composer.advance scope (opened.add contents) closing =
          .ok (some (composer.inclusionOf scope opening contents), draft) := by
  refine ⟨draft.openInclusion tag (composer.askedName scope opening)
    (composer.attributesOf scope opening), ⟨_, _, rfl⟩, ?_, fun contents => ?_⟩
  · rw [advance_inclusion marked, opens, stays]
    rfl
  · rw [advance_inclusion markedLast, staysLast, closesLast]
    simp only [Draft.readInclusion, Draft.closeInclusion_add, inclusionOf, name?_of_marked marked,
      if_true, Bool.false_eq_true, if_false, Option.getD_some]

/-- A self-closing tag closes an inclusion with nothing inside. -/
theorem advance_inclusion_selfClosing
    (marked : markOf? composer.dialect token = some (.inclusion, tag)) (opens : token.opens = true)
    (closes : token.closes = true) :
    composer.advance scope draft token =
      .ok (some (composer.inclusionOf scope token .empty), draft) := by
  have closed := @Draft.closeInclusion_add draft tag (composer.askedName scope token)
    (composer.attributesOf scope token) .empty
  simp only [Draft.add, Contents.empty, Draft.append_empty, Draft.assign_nil] at closed
  rw [advance_inclusion marked, opens, closes]
  simp only [Draft.readInclusion, closed, inclusionOf, name?_of_marked marked, Contents.empty,
    if_true, Option.getD_some]

/-- A start tag opens a variable, and an end tag gives it to the inclusion. -/
theorem advance_assignment_enclosed {opening closing : Token} (inside : draft.InsideInclusion)
    (marked : markOf? composer.dialect opening = some (.assignment, tag))
    (opens : opening.opens = true) (stays : opening.closes = false)
    (markedLast : markOf? composer.dialect closing = some (.assignment, tag))
    (staysLast : closing.opens = false) (closesLast : closing.closes = true) :
    ∃ opened : Draft, composer.advance scope draft opening = .ok (none, opened) ∧
      ∀ contents : Contents false,
        composer.advance scope (opened.add contents) closing =
          .ok (none, draft.assign [composer.variableOf opening contents]) := by
  obtain ⟨opened, opens?, closes?⟩ := @Draft.closeAssignment_add draft tag
    ((opening.nameAfter? composer.dialect.variablePrefix.toLower).getD "") inside
  refine ⟨opened, ?_, fun contents => ?_⟩
  · rw [advance_assignment marked, opens, stays]
    simp only [Draft.readAssignment, opens?, if_true, Bool.false_eq_true, if_false, Except.map]
  · rw [advance_assignment markedLast, staysLast, closesLast]
    simp only [Draft.readAssignment, Bool.false_eq_true, if_false, if_true, Except.bind, closes?,
      Except.map, variableOf]

/-- A self-closing tag gives the inclusion an empty variable. -/
theorem advance_assignment_selfClosing (inside : draft.InsideInclusion)
    (marked : markOf? composer.dialect token = some (.assignment, tag))
    (opens : token.opens = true) (closes : token.closes = true) :
    composer.advance scope draft token =
      .ok (none, draft.assign [composer.variableOf token .empty]) := by
  obtain ⟨opened, opens?, closes?⟩ := @Draft.closeAssignment_add draft tag
    ((token.nameAfter? composer.dialect.variablePrefix.toLower).getD "") inside
  have closed := closes? .empty
  simp only [Draft.add, Contents.empty, Draft.append_empty, Draft.assign_nil] at closed
  rw [advance_assignment marked, opens, closes]
  simp only [Draft.readAssignment, opens?, if_true, Except.bind, closed, Except.map, variableOf,
    Contents.empty]

variable {expand : Inclusion → Rendering String}

/-- Between two tags, the second tag meets what the tokens have added since the first. -/
theorem foldlM_enclosed {mixed : Bool} {opened : Draft} {opening closing : Token}
    {inner : List Token} {contents : Rendering (Contents mixed)}
    (first : composer.advance scope draft opening = .ok (none, opened))
    (between : inner.foldlM (composer.read scope expand) opened =
      contents >>= fun contents => pure (opened.add contents)) :
    (opening :: (inner ++ [closing])).foldlM (composer.read scope expand) draft =
      contents >>= fun contents => composer.read scope expand (opened.add contents) closing := by
  simp only [List.foldlM_cons, List.foldlM_append, List.foldlM_nil, bind_pure, read_eq, first,
    pure_bind, between, bind_assoc]

/-- The tokens of a phrase do to a draft what the value of the phrase does. -/
theorem foldlM_tokens {phrase : Phrase} (tree : Tree composer.dialect phrase)
    (suits : phrase.Suits draft) :
    tree.tokens.foldlM (composer.read scope expand) draft =
      composer.evaluate scope expand tree >>= fun value => pure (draft.take value) := by
  induction tree generalizing draft with
  | nil => simp [Tree.tokens, evaluate, Draft.take, Draft.add, Contents.empty]
  | plain token unmarked rest ih =>
      have after := ih fun mixed => (suits mixed).append token.raw
      simp only [Tree.tokens, List.foldlM_cons, read_eq, advance_plain unmarked, pure_bind, after,
        evaluate, bind_assoc, Draft.take, Draft.add, Contents.prepend, Draft.append_append]
  | inclusion node rest ihNode ihRest =>
      have after := fun output => ihRest fun mixed => (suits mixed).append output
      simp only [Tree.tokens, List.foldlM_append, ihNode nofun, pure_bind, after, evaluate,
        bind_assoc, Draft.take, Draft.add, Contents.prepend, Draft.append_append]
  | assignment node rest ihNode ihRest =>
      have after := fun given => ihRest fun mixed => (suits mixed).assign given
      simp only [Tree.tokens, List.foldlM_append, ihNode fun _ => suits rfl, pure_bind, after,
        evaluate, bind_assoc, Draft.take, Draft.add, Contents.prependVariable, Draft.append_assign,
        Draft.assign_assign, List.singleton_append]
  | @selfClosing kind _ token marked opens closes =>
      cases kind with
      | inclusion =>
          simp only [Tree.tokens, List.foldlM_cons, List.foldlM_nil, bind_pure, evaluate, close,
            read_eq, advance_inclusion_selfClosing marked opens closes, Phrase.nothing, Draft.take]
      | assignment =>
          have read := @advance_assignment_selfClosing composer scope draft token _ (suits rfl)
            marked opens closes
          simp only [Tree.tokens, List.foldlM_cons, List.foldlM_nil, bind_pure, evaluate, close,
            read_eq, read, Phrase.nothing, pure_bind, Draft.take]
  | @enclosed kind _ opening closing marked opens stays inner markedLast staysLast closesLast ih =>
      cases kind with
      | inclusion =>
          obtain ⟨opened, inside, first, last⟩ := @advance_inclusion_enclosed composer scope draft _
            opening closing marked opens stays markedLast staysLast closesLast
          rw [Tree.tokens, foldlM_enclosed first (ih fun _ => inside)]
          simp only [read_eq, last, evaluate, close, bind_assoc, Draft.take]
          rfl
      | assignment =>
          obtain ⟨opened, first, last⟩ := @advance_assignment_enclosed composer scope draft _
            opening closing (suits rfl) marked opens stays markedLast staysLast closesLast
          rw [Tree.tokens, foldlM_enclosed first (ih nofun)]
          simp only [read_eq, last, evaluate, close, bind_assoc, pure_bind, Draft.take]
          rfl

/-- The body of a page is rendered by evaluating its tree and filling in the placeholders of its
text. -/
theorem renderBody_eq_evaluate {levels : Nat} {origin : Path} {body : String}
    {tree : Tree composer.dialect (.content false)} (whole : tree.tokens = Markup.tokenize body) :
    composer.renderBody (levels + 1) origin body scope =
      composer.evaluate scope (composer.expand (composer.renderBody levels) origin scope) tree >>=
        fun contents : Contents false =>
          pure (Placeholder.substitute composer.dialect scope contents.text) := by
  have read : tree.tokens.foldlM (composer.read scope
      (composer.expand (composer.renderBody levels) origin scope)) .empty =
      composer.evaluate scope (composer.expand (composer.renderBody levels) origin scope) tree >>=
        fun contents : Contents false => pure (Draft.empty.add contents) := foldlM_tokens tree nofun
  have finished : ∀ contents : Contents false,
      (Draft.empty.add contents).finish = .ok contents.text := by
    intro contents
    simp [Draft.add, Draft.empty, Draft.append, Draft.assign, Draft.finish]
  unfold renderBody
  dsimp only
  rw [← whole, read]
  simp only [bind_assoc, pure_bind, finished]

end Composer

/-! ## Rendering without a store -/

/-- The first of the candidates that is there. -/
def searchAmong (library : Template.Library) (name : String) :
    (attempted : List Path) → List Template.Candidate → Except Error Located
  | attempted, [] => .error (.templateNotFound name attempted.reverse)
  | attempted, candidate :: others =>
      match library.fetch candidate.path with
      | .error fault => .error (.disk fault)
      | .ok (some content) => .ok ⟨library.identify candidate.path, candidate.kind, content⟩
      | .ok none => searchAmong library name (candidate.path :: attempted) others

/-- The template that a name stands for. -/
def search (library : Template.Library) (name : String) : Except Error Located :=
  searchAmong library name [] (Template.candidates name)

namespace Composer

open Rendering

variable (composer : Composer)

/-- The output of a body when nothing is used again. -/
def outcome (levels : Nat) (origin : Path) (body : String) (scope : Bindings) :
    Except Error String :=
  (runFrom (composer.forgetful.renderBody levels origin body scope) .empty).1

/-- The output of an inclusion: the body of its template, rendered in a scope of its own, with what
its kind puts around it. -/
def output (render : (origin : Path) → (body : String) → (scope : Bindings) → Except Error String)
    (scope : Bindings) (inclusion : Inclusion) : Except Error String := do
  let template ← search composer.library inclusion.name
  let (inner, body) := inclusion.enter composer.dialect scope template.content
  let text ← render template.place.toPath body inner
  return template.kind.wrap text

variable {composer} {scope : Bindings}

theorem runFrom_bind_eq {α β : Type} {first : Rendering α} {next : α → Rendering β}
    {outcome : Except Error α} {outcomeNext : α → Except Error β}
    (start : ∀ store, (runFrom first store).1 = outcome)
    (rest : ∀ a store, (runFrom (next a) store).1 = outcomeNext a) (store : Store) :
    (runFrom (first >>= next) store).1 = outcome >>= outcomeNext := by
  rw [runFrom_bind, ← start store]
  rcases runFrom first store with ⟨_ | a, middle⟩
  · rfl
  · exact rest a middle

/-- A tree is evaluated to the same with a store as without, if its inclusions are. -/
theorem runFrom_evaluate {expand : Inclusion → Rendering String}
    {outputOf : Inclusion → Except Error String}
    (expands : ∀ inclusion store, (runFrom (expand inclusion) store).1 = outputOf inclusion)
    {phrase : Phrase} (tree : Tree composer.dialect phrase) (store : Store) :
    (runFrom (composer.forgetful.evaluate scope expand tree) store).1 =
      composer.evaluate scope outputOf tree := by
  induction tree generalizing store with
  | nil => rfl
  | plain token unmarked rest ih => exact runFrom_bind_eq ih (fun _ _ => rfl) store
  | inclusion node rest ihNode ihRest =>
      apply runFrom_bind_eq ihNode
      intro output
      exact runFrom_bind_eq ihRest fun _ _ => rfl
  | assignment node rest ihNode ihRest =>
      apply runFrom_bind_eq ihNode
      intro given
      exact runFrom_bind_eq ihRest fun _ _ => rfl
  | @selfClosing kind _ token =>
      cases kind with
      | inclusion => exact expands _ store
      | assignment => rfl
  | @enclosed kind _ opening closing _ _ _ inner _ _ _ ih =>
      apply runFrom_bind_eq ih
      cases kind with
      | inclusion => exact fun contents => expands _
      | assignment => exact fun contents _ => rfl

theorem runFrom_locateAmong_forgetful {library : Template.Library} {name : String}
    {attempted : List Path} {candidates : List Template.Candidate} (store : Store) :
    (runFrom (locateAmong library false name attempted candidates) store).1 =
      searchAmong library name attempted candidates := by
  induction candidates generalizing attempted store with
  | nil => rfl
  | cons candidate others ih =>
      rw [runFrom_locateAmong_cons, searchAmong]
      rcases library.fetch candidate.path with fault | _ | content
      · rfl
      · exact ih _
      · rfl

theorem runFrom_produce_forgetful (levels : Nat) (inclusion : Inclusion) (store : Store) :
    (runFrom (composer.forgetful.produce (composer.forgetful.renderBody levels) scope inclusion)
      store).1 =
      (do
        let template ← search composer.library inclusion.name
        let (inner, body) := inclusion.enter composer.dialect scope template.content
        let text ← composer.outcome levels template.place.toPath body inner
        return (template.place, template.kind.wrap text)) := by
  unfold produce
  apply runFrom_bind_eq
  · exact runFrom_locateAmong_forgetful
  · intro template
    apply runFrom_bind_eq
    · -- Without reuse the body is rendered alike from every store.
      exact fun store => (independent_renderBody rfl _ _ _ _ store .empty).1.1
    · exact fun text store => rfl

/-- An inclusion has the same output with a store as without. -/
theorem runFrom_expand_forgetful (levels : Nat) (origin : Path) (inclusion : Inclusion)
    (store : Store) :
    (runFrom (composer.forgetful.expand (composer.forgetful.renderBody levels) origin scope
      inclusion) store).1 = composer.output (composer.outcome levels) scope inclusion := by
  have produced := @runFrom_produce_forgetful composer scope levels inclusion store
  have output : composer.output (composer.outcome levels) scope inclusion =
      (runFrom (composer.forgetful.produce (composer.forgetful.renderBody levels) scope inclusion)
        store).1.map Prod.snd := by
    rw [produced, Composer.output]
    cases search composer.library inclusion.name with
    | error error => rfl
    | ok template =>
        change (composer.outcome levels _ _ _ >>= fun text => pure (template.kind.wrap text)) =
          (composer.outcome levels _ _ _ >>= _).map Prod.snd
        cases composer.outcome levels template.place.toPath _ _ <;> rfl
  rw [output, runFrom_expand]
  simp only [Bool.false_eq_true, if_false]
  rcases runFrom (composer.forgetful.produce _ scope inclusion) store with
    ⟨_ | ⟨place, fragment⟩, last⟩ <;> rfl

/-- Let the tokens of a body be a sentence of the grammar.  Then rendering the body without reuse is
evaluating its tree from left to right, and from the inside to the outside, and filling in the
placeholders of the text at the end. -/
theorem renderBody_tree {body : String}
    (sentence : Sentence composer.dialect (Markup.tokenize body)) :
    (∃ tree : Tree composer.dialect (.content false), tree.tokens = Markup.tokenize body) ∧
      ∀ tree : Tree composer.dialect (.content false), tree.tokens = Markup.tokenize body →
        ∀ levels origin scope store,
          (runFrom (composer.forgetful.renderBody (levels + 1) origin body scope) store).1 =
            (composer.evaluate scope (composer.output (composer.outcome levels) scope) tree).map
              fun contents => Placeholder.substitute composer.dialect scope contents.text := by
  constructor
  · exact Tree.derives_iff.mp sentence
  · intro tree whole levels origin scope store
    have evaluated : ∀ store, (runFrom (composer.forgetful.evaluate scope
        (composer.forgetful.expand (composer.forgetful.renderBody levels) origin scope) tree)
          store).1 =
        composer.evaluate scope (composer.output (composer.outcome levels) scope) tree :=
      runFrom_evaluate (runFrom_expand_forgetful levels origin) tree
    rw [@renderBody_eq_evaluate composer.forgetful _ _ _ _ tree whole,
      runFrom_bind_eq evaluated fun _ _ => rfl]
    cases composer.evaluate scope (composer.output (composer.outcome levels) scope) tree <;> rfl

/-- The second variable counts, and the inclusion inside it does not see the attribute. -/
theorem renderBody_tree_nested :
    let templates : List (Path × String) :=
      [(⟨"a.html"⟩, "[{{x}}{{k}}|{{content}}]"), (⟨"b.html"⟩, "b{{x}}")]
    let composer : Composer := { dialect := {}, library := .ofList templates }
    let body := "<t:a x=1><v:k>-</v:k>y<v:k> <t:b/> </v:k></t:a>!"
    Sentence composer.dialect (Markup.tokenize body) ∧
      ∃ tree : Tree composer.dialect (.content false), tree.tokens = Markup.tokenize body ∧
        ((composer.evaluate ∅ (composer.output (composer.outcome 1) ∅) tree).map fun contents =>
          Placeholder.substitute composer.dialect ∅ contents.text).toOption = some "[1b|y]!" := by
  intro templates composer body
  have sentence : Sentence composer.dialect (Markup.tokenize body) :=
    sentence_iff.mpr (by decide +kernel)
  have output :
      (runFrom (composer.forgetful.renderBody 2 ⟨"index.html"⟩ body ∅) .empty).1.toOption =
        some "[1b|y]!" := by decide +kernel
  obtain ⟨⟨tree, whole⟩, same⟩ := renderBody_tree sentence
  refine ⟨sentence, tree, whole, ?_⟩
  rwa [same tree whole 1 ⟨"index.html"⟩ ∅ .empty] at output

end Composer

end Stencil.Render
