import Stencil.Proofs.Render.Evaluation

/-!
# Scopes along a chain of inclusions

A page includes a template, which includes another one, and so on.  The scope at the end of such a
chain is decided by three rules that work against each other: a preamble never overrides, tags
always do, and the inner text of an inclusion replaces whatever had its name.
-/

namespace Stencil.Render

open Markup (Token)

/-- A body that is being rendered, with the store at the time. -/
structure Visit where
  levels : Nat
  origin : Path
  body : String
  scope : Bindings
  store : Store

/-- The body of a page, before anything was rendered. -/
def Visit.ofPage (levels : Nat) (origin : Path) (source : String) (scope : Bindings) : Visit :=
  ⟨levels, origin, (Preamble.read source scope).2, (Preamble.read source scope).1, .empty⟩

/-- An inclusion that is rendered: the scope of the page that it stands in, its opening tag, what
stands inside it, and the text of its template. -/
structure Call where
  caller : Bindings
  opening : Token
  contents : Contents true
  template : String

namespace Composer

open Bindings (firstOf lastOf)
open Rendering

variable (composer : Composer) (call : Call)

/-- The scope that the variable tags of an inclusion are filled in from. -/
def given : Bindings :=
  (Preamble.read call.template call.caller).1.merge
    (composer.attributesOf call.caller call.opening).toList

/-- The scope that the inner text of an inclusion is filled in from. -/
def assigned : Bindings :=
  (composer.given call).merge ((Bindings.ofList call.contents.values).mapValues
    (Placeholder.substitute composer.dialect (composer.given call))).toList

/-- The inner text of an inclusion, as its template gets it. -/
def innerText : String :=
  Placeholder.substitute composer.dialect (composer.assigned call)
    (Text.trim Text.isMargin call.contents.text)

/-- The value that an attribute of the inclusion gives a key. -/
def attributeOf? (key : String) : Option String :=
  (lastOf key (call.opening.attributes.map fun given => (given.key, given.value))).map
    (Placeholder.substitute composer.dialect call.caller)

/-- The value that a variable tag of the inclusion gives a key. -/
def variableOf? (key : String) : Option String :=
  (lastOf key call.contents.values).map
    (Placeholder.substitute composer.dialect (composer.given call))

/-- The value that the inclusion gives a key: that of a variable tag before that of an attribute. -/
def valueOf? (key : String) : Option String :=
  (composer.variableOf? call key).or (composer.attributeOf? call key)

variable {composer call} {key : String}

theorem get?_attributesOf :
    (composer.attributesOf call.caller call.opening).get? key = composer.attributeOf? call key := by
  rw [attributesOf, Bindings.get?_ofList, attributeOf?, ← Bindings.lastOf_map_snd, List.map_map]
  rfl

/-- Where variable tags are filled in, attributes go before the scope of the page, and that before
the preamble of the template. -/
theorem get?_given :
    (composer.given call).get? key =
      (composer.attributeOf? call key).or
        ((call.caller.get? key).or (Preamble.declared? call.template key)) := by
  rw [given, Bindings.get?_merge, Bindings.lastOf_toList, get?_attributesOf, Preamble.get?_read]

theorem get?_assigned :
    (composer.assigned call).get? key =
      (composer.valueOf? call key).or
        ((call.caller.get? key).or (Preamble.declared? call.template key)) := by
  rw [assigned, Bindings.get?_merge, Bindings.lastOf_toList, Bindings.get?_mapValues,
    Bindings.get?_ofList, get?_given, valueOf?, Option.or_assoc]
  rfl

end Composer

open Rendering

/-- While a body is rendered, one of its inclusions is rendered anew: the tokens before it have been
read, what stands inside it was evaluated, and its template was found. -/
inductive Enters (composer : Composer) : Visit → Call → Visit → Prop
  | intro {levels : Nat} {origin : Path} {body : String} {scope : Bindings}
      {store reached gathered found : Store} {before after : List Token} {draft : Draft}
      {node : Tree composer.dialect (.element .inclusion)} {contents : Contents true}
      {template : Located} :
      Markup.tokenize body = before ++ node.tokens ++ after →
        runFrom (before.foldlM (composer.read scope
            (composer.expand (composer.renderBody levels) origin scope)) .empty) store =
          (.ok draft, reached) →
        runFrom (composer.collect scope
            (composer.expand (composer.renderBody levels) origin scope) node) reached =
          (.ok contents, gathered) →
        (composer.reuse = true →
          gathered.fragments[(composer.inclusionOf scope node.opening contents).fragmentKey origin
            scope]? = none) →
        runFrom (locate composer.library composer.reuse
            (composer.inclusionOf scope node.opening contents).name) gathered =
          (.ok template, found) →
        Enters composer ⟨levels + 1, origin, body, scope, store⟩
          ⟨scope, node.opening, contents, template.content⟩
          ⟨levels, template.place.toPath,
            ((composer.inclusionOf scope node.opening contents).enter composer.dialect scope
              template.content).2,
            ((composer.inclusionOf scope node.opening contents).enter composer.dialect scope
              template.content).1, found⟩

/-- A chain of inclusions, each rendered in the course of rendering the template of the one before,
leads from a page to a template. -/
inductive Reaches (composer : Composer) (page : Visit) : List Call → Visit → Prop
  | page : Reaches composer page [] page
  | enter {calls : List Call} {call : Call} {visit inner : Visit} :
      Reaches composer page calls visit → Enters composer visit call inner →
        Reaches composer page (calls ++ [call]) inner

namespace Enters

variable {composer : Composer} {visit inner : Visit} {call : Call}

theorem caller (enters : Enters composer visit call inner) : call.caller = visit.scope := by
  cases enters
  rfl

theorem scope (enters : Enters composer visit call inner) :
    inner.scope =
      (composer.assigned call).set Inclusion.contentVariable (composer.innerText call) := by
  cases enters
  rfl

/-- An inclusion hands on all keys but one: what its tag gives goes first, what the page has
second, and what the template declares last. -/
theorem get?_scope (enters : Enters composer visit call inner) {key : String}
    (other : key ≠ Inclusion.contentVariable) :
    inner.scope.get? key =
      (composer.valueOf? call key).or
        ((visit.scope.get? key).or (Preamble.declared? call.template key)) := by
  rw [enters.scope, Bindings.get?_set, if_neg other.symm, Composer.get?_assigned, enters.caller]

end Enters

section Closing

variable {composer : Composer} {scope : Bindings} {expand : Inclusion → Rendering String}
  {tokens : List Token} {token : Token} {draft next : Draft} {store reached : Store}
  {inclusion : Inclusion}

/-- Only a tag of an inclusion closes one. -/
theorem marked_of_advance
    (advances : composer.advance scope draft token = .ok (some inclusion, next)) :
    ∃ tag, markOf? composer.dialect token = some (.inclusion, tag) ∧ token.closes = true := by
  cases marked : markOf? composer.dialect token with
  | none => simp [Composer.advance_plain marked] at advances
  | some mark =>
      rcases mark with ⟨_ | _, tag⟩
      · rw [Composer.advance_inclusion marked] at advances
        cases closes : token.closes with
        | true => exact ⟨tag, rfl, rfl⟩
        | false => simp [Draft.readInclusion, closes] at advances
      · rw [Composer.advance_assignment marked] at advances
        cases read : draft.readAssignment token.opens token.closes tag
          ((token.nameAfter? composer.dialect.variablePrefix.toLower).getD "") <;>
          simp [read, Except.map] at advances

/-- A draft that was read holds the tags that are still open. -/
theorem opened_of_read {done stack : List Token} {start : Draft}
    (read : runFrom (tokens.foldlM (composer.read scope expand) start) store = (.ok draft, reached))
    (holds : Holds composer scope start.levels stack)
    (opened : Opened composer.dialect stack done) :
    ∃ last, Holds composer scope draft.levels last ∧
      Opened composer.dialect last (done ++ tokens) := by
  induction tokens generalizing start done stack store with
  | nil =>
      obtain ⟨same, _⟩ := Prod.mk.inj read
      obtain rfl := Except.ok.inj same
      exact ⟨stack, holds, by rwa [List.append_nil]⟩
  | cons token tokens ih =>
      rw [List.foldlM_cons] at read
      obtain ⟨after, middle, step, read⟩ := runFrom_bind_ok read
      rw [List.append_cons]
      rw [Composer.read_eq] at step
      cases nested : nest composer.dialect stack token with
      | none =>
          obtain ⟨nesting, refused⟩ := holds.advance_error nested
          simp [refused] at step
      | some next =>
          obtain ⟨closed, moved, advances, holds, -⟩ := holds.advance opened nested
          rw [advances] at step
          cases closed with
          | none =>
              obtain ⟨same, _⟩ := Prod.mk.inj step
              obtain rfl := Except.ok.inj same
              exact ih read holds (opened.nest nested)
          | some inclusion =>
              obtain ⟨text, _, _, added⟩ := runFrom_bind_ok step
              obtain ⟨same, _⟩ := Prod.mk.inj added
              obtain rfl := Except.ok.inj same
              exact ih read (holds.append text) (opened.nest nested)

/-- What an element that is read so far has between its tags was evaluated from where it opened. -/
theorem collected_of_read {before : List Token} {opening closing : Token} {tag : String}
    {tree : Tree composer.dialect (.content true)}
    (marked : markOf? composer.dialect opening = some (.inclusion, tag))
    (opens : opening.opens = true) (stays : opening.closes = false)
    (markedLast : markOf? composer.dialect closing = some (.inclusion, tag))
    (staysLast : closing.opens = false) (closesLast : closing.closes = true)
    (read : runFrom ((before ++ opening :: tree.tokens).foldlM (composer.read scope expand) .empty)
      store = (.ok draft, reached)) :
    ∃ (contents : Contents true) (outside : Draft) (middle : Store),
      runFrom (before.foldlM (composer.read scope expand) .empty) store = (.ok outside, middle) ∧
        runFrom (composer.evaluate scope expand tree) middle = (.ok contents, reached) ∧
          composer.advance scope draft closing =
            .ok (some (composer.inclusionOf scope opening contents), outside) := by
  rw [List.foldlM_append] at read
  obtain ⟨outside, middle, readBefore, read⟩ := runFrom_bind_ok read
  obtain ⟨opened, inside, first, last⟩ := @Composer.advance_inclusion_enclosed composer scope
    outside tag opening closing marked opens stays markedLast staysLast closesLast
  rw [List.foldlM_cons, Composer.read_eq, first] at read
  simp only [pure_bind] at read
  rw [@Composer.foldlM_tokens composer scope opened expand _ tree fun _ => inside] at read
  obtain ⟨contents, gathered, evaluated, added⟩ := runFrom_bind_ok read
  obtain ⟨same, rfl⟩ := Prod.mk.inj added
  obtain rfl := Except.ok.inj same
  exact ⟨contents, outside, middle, readBefore, evaluated, last contents⟩

/-- An inclusion that closes while a body is read is an element of the grammar.  It was made from
its opening tag and from what stands inside it, and from nothing around it. -/
theorem exists_node_of_advance
    (read : runFrom (tokens.foldlM (composer.read scope expand) .empty) store =
      (.ok draft, reached))
    (advances : composer.advance scope draft token = .ok (some inclusion, next)) :
    ∃ (node : Tree composer.dialect (.element .inclusion)) (contents : Contents true),
      inclusion = composer.inclusionOf scope node.opening contents ∧
        ∃ before outside middle, tokens ++ [token] = before ++ node.tokens ∧
          runFrom (before.foldlM (composer.read scope expand) .empty) store =
              (.ok outside, middle) ∧
            runFrom (composer.collect scope expand node) middle = (.ok contents, reached) := by
  obtain ⟨tag, marked, closes⟩ := marked_of_advance advances
  cases opens : token.opens with
  | true =>
      rw [Composer.advance_inclusion_selfClosing marked opens closes] at advances
      obtain ⟨same, _⟩ := Prod.mk.inj (Except.ok.inj advances)
      exact ⟨.selfClosing token marked opens closes, .empty, (Option.some.inj same).symm, tokens,
        draft, reached, rfl, read, rfl⟩
  | false =>
      obtain ⟨stack, holds, opened⟩ := opened_of_read read .nil (.none .nil)
      rw [List.nil_append] at opened
      cases nested : nest composer.dialect stack token with
      | none =>
          obtain ⟨nesting, refused⟩ := holds.advance_error nested
          simp [refused] at advances
      | some outer =>
          rw [nest_end marked opens closes] at nested
          rcases closeTag_eq_some_iff.mp nested with ⟨opening, rfl, markedOpening⟩
          cases opened with
          | @tag _ before inner _ kind name _ markedTag opensTag stays _ derives =>
              obtain ⟨rfl, rfl⟩ :=
                Prod.mk.inj (Option.some.inj (markedTag.symm.trans markedOpening))
              obtain ⟨tree, rfl⟩ := Tree.derives_iff.mp derives
              obtain ⟨contents, outside, middle, readBefore, evaluated, closed⟩ :=
                @collected_of_read composer scope expand draft store reached before opening token
                  _ tree markedTag opensTag stays marked opens closes read
              rw [closed] at advances
              obtain ⟨same, _⟩ := Prod.mk.inj (Except.ok.inj advances)
              exact ⟨.enclosed opening token markedTag opensTag stays tree marked opens closes,
                contents, (Option.some.inj same).symm, before, outside, middle,
                by simp [Tree.tokens], readBefore, evaluated⟩

/-- Every inclusion that is rendered anew while a body is read is entered in this way. -/
theorem Enters.of_advance {levels : Nat} {origin : Path} {body : String} {rest : List Token}
    {template : Located} {found : Store} (whole : Markup.tokenize body = tokens ++ token :: rest)
    (read : runFrom (tokens.foldlM (composer.read scope
      (composer.expand (composer.renderBody levels) origin scope)) .empty) store =
        (.ok draft, reached))
    (advances : composer.advance scope draft token = .ok (some inclusion, next))
    (anew : composer.reuse = true →
      reached.fragments[inclusion.fragmentKey origin scope]? = none)
    (located : runFrom (locate composer.library composer.reuse inclusion.name) reached =
      (.ok template, found)) :
    ∃ call, Enters composer ⟨levels + 1, origin, body, scope, store⟩ call
      ⟨levels, template.place.toPath,
        (inclusion.enter composer.dialect scope template.content).2,
        (inclusion.enter composer.dialect scope template.content).1, found⟩ := by
  obtain ⟨node, contents, rfl, before, outside, middle, same, readBefore, collected⟩ :=
    exists_node_of_advance read advances
  refine ⟨⟨scope, node.opening, contents, template.content⟩, ?_⟩
  exact .intro (by rw [whole, ← same, ← List.append_cons]) readBefore collected anew located

end Closing

namespace Reaches

variable {composer : Composer} {page visit : Visit} {calls : List Call}

/-- Every inclusion of a chain stands in the page that the chain before it leads to. -/
theorem caller (reaches : Reaches composer page calls visit) {outer rest : List Call} {call : Call}
    (split : calls = outer ++ call :: rest) :
    ∃ middle, Reaches composer page outer middle ∧ call.caller = middle.scope := by
  induction reaches generalizing rest with
  | page => simp at split
  | @enter calls last visit inner reaches enters ih =>
      rcases List.eq_nil_or_concat rest with rfl | ⟨rest, final, rfl⟩
      · obtain ⟨rfl, same⟩ := List.append_inj' split rfl
        obtain rfl := List.cons.inj same |>.1
        exact ⟨visit, reaches, enters.caller⟩
      · have shorter : calls ++ [last] = (outer ++ call :: rest) ++ [final] := by simp [split]
        exact ih (List.append_inj' shorter rfl).1

/-- Whatever leads a chain on, the deepest tag that gives a key a value decides it.  Failing that,
the outermost page or template that defines the key does. -/
theorem get?_scope {levels : Nat} {origin : Path} {source : String} {start : Bindings}
    (reaches : Reaches composer (.ofPage levels origin source start) calls visit) {key : String}
    (other : key ≠ Inclusion.contentVariable) :
    visit.scope.get? key =
      ((calls.reverse.findSome? (composer.valueOf? · key)).or (start.get? key)).or
        ((source :: calls.map Call.template).findSome? (Preamble.declared? · key)) := by
  induction reaches with
  | page => simp [Visit.ofPage, Preamble.get?_read]
  | @enter calls call visit inner _ enters ih =>
      have deepest : (calls ++ [call]).reverse.findSome? (composer.valueOf? · key) =
          (composer.valueOf? call key).or (calls.reverse.findSome? (composer.valueOf? · key)) := by
        rw [List.reverse_concat, List.findSome?_cons]
        cases composer.valueOf? call key <;> rfl
      have outermost :
          (source :: (calls ++ [call]).map Call.template).findSome? (Preamble.declared? · key) =
            ((source :: calls.map Call.template).findSome? (Preamble.declared? · key)).or
              (Preamble.declared? call.template key) := by
        rw [List.map_append, ← List.cons_append, List.findSome?_append]
        simp
      rw [enters.get?_scope other, ih, deepest, outermost]
      simp only [Option.or_assoc]

/-- Where the inclusion at the end of a chain leads, its inner text has its name. -/
theorem get?_content {outer : List Call} {call : Call}
    (reaches : Reaches composer page (outer ++ [call]) visit) :
    visit.scope.get? Inclusion.contentVariable = some (composer.innerText call) ∧
      ∀ key, key ≠ Inclusion.contentVariable →
        (composer.assigned call).get? key = visit.scope.get? key := by
  generalize same : outer ++ [call] = calls at reaches
  cases reaches with
  | page => simp at same
  | enter _ enters =>
      obtain ⟨_, same⟩ := List.append_inj' same rfl
      obtain rfl := (List.cons.inj same).1
      rw [enters.scope]
      constructor
      · rw [Bindings.get?_set, if_pos rfl]
      · intro key other
        rw [Bindings.get?_set, if_neg other.symm]

/-- Along a chain of inclusions of any length, the deepest tag that gives a key a value decides it,
with the last of its variable tags before its attribute.  Failing that, the outermost page or
template that defines the key does, with the scope at the start before the preamble of the page.
One key is left out of this: it has the inner text of the innermost inclusion.  Attributes are
filled in from the page that the tag stands in, and variable tags from the scope of the template
without any variable tags of the same inclusion. -/
theorem scope_precedence {levels : Nat} {origin : Path} {source : String} {start : Bindings}
    (reaches : Reaches composer (.ofPage levels origin source start) calls visit) :
    (∀ key, key ≠ Inclusion.contentVariable →
      visit.scope.get? key =
        ((calls.reverse.findSome? (composer.valueOf? · key)).or (start.get? key)).or
          ((source :: calls.map Call.template).findSome? (Preamble.declared? · key))) ∧
      (∀ outer call, calls = outer ++ [call] →
        visit.scope.get? Inclusion.contentVariable = some (composer.innerText call) ∧
          ∀ key, key ≠ Inclusion.contentVariable →
            (composer.assigned call).get? key = visit.scope.get? key) ∧
        ∀ outer call rest, calls = outer ++ call :: rest →
          (∃ middle, Reaches composer (.ofPage levels origin source start) outer middle ∧
            call.caller = middle.scope) ∧
              ∀ key, (composer.given call).get? key =
                (composer.attributeOf? call key).or
                  ((call.caller.get? key).or (Preamble.declared? call.template key)) := by
  refine ⟨fun key other => reaches.get?_scope other, ?_, ?_⟩
  · rintro outer call rfl
    exact reaches.get?_content
  · intro outer call rest split
    exact ⟨reaches.caller split, fun key => Composer.get?_given⟩

/-- The attribute of the outer tag reaches the inner template, unless it has the one name. -/
theorem scope_precedence_nested :
    let templates : List (Path × String) :=
      [(⟨"a.html"⟩, "@c=9\n@d=1\n<t:b/>"), (⟨"b.html"⟩, "{{k}}{{c}}{{d}}")]
    let composer : Composer := { dialect := {}, library := .ofList templates }
    let page := Visit.ofPage 3 ⟨"index.html"⟩ "@c=0\n<t:a k='{{c}}' content=x />" ∅
    ∃ outer inner visit, Reaches composer page [outer, inner] visit ∧
      ["k", "c", "d", "e"].map visit.scope.get? = [some "0", some "0", some "1", none] ∧
      visit.scope.get? Inclusion.contentVariable = some "" := by
  intro templates composer page
  let tagOfA : Tree composer.dialect (.element .inclusion) :=
    @Tree.selfClosing _ .inclusion "t:a" (.selfClosingTag "<t:a k='{{c}}' content=x />" "t:a"
      [⟨"k", "{{c}}"⟩, ⟨"content", "x"⟩]) (by decide +kernel) rfl rfl
  let tagOfB : Tree composer.dialect (.element .inclusion) :=
    @Tree.selfClosing _ .inclusion "t:b" (.selfClosingTag "<t:b/>" "t:b" []) (by decide +kernel)
      rfl rfl
  let inclusion := composer.inclusionOf page.scope tagOfA.opening .empty
  let entered := inclusion.enter composer.dialect page.scope "@c=9\n@d=1\n<t:b/>"
  let found := (runFrom (locate composer.library composer.reuse inclusion.name) .empty).2
  have first := @Enters.intro composer 2 ⟨"index.html"⟩ page.body page.scope .empty _ _ found [] []
    _ tagOfA .empty ⟨composer.library.identify ⟨"a.html"⟩, .html, "@c=9\n@d=1\n<t:b/>"⟩
    (by decide +kernel) rfl rfl (by decide +kernel) (runFrom_of_toOption (by decide +kernel))
  have second := @Enters.intro composer 1 (composer.library.identify ⟨"a.html"⟩).toPath entered.2
    entered.1 found _ _ _ [] [] _ tagOfB .empty
    ⟨composer.library.identify ⟨"b.html"⟩, .html, "{{k}}{{c}}{{d}}"⟩ (by decide +kernel) rfl rfl
    (by decide +kernel) (runFrom_of_toOption (by decide +kernel))
  have reaches := Reaches.enter (.enter .page first) second
  obtain ⟨decides, innermost, _⟩ := scope_precedence reaches
  refine ⟨_, _, _, reaches, ?_, ?_⟩
  · have other : ∀ key ∈ ["k", "c", "d", "e"], key ≠ Inclusion.contentVariable := by decide +kernel
    rw [List.map_congr_left fun key member => decides key (other key member)]
    decide +kernel
  · rw [(innermost [_] _ rfl).1]
    decide +kernel

end Reaches

end Stencil.Render
