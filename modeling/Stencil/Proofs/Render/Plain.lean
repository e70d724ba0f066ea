import Stencil.Proofs.Markup.Partition
import Stencil.Proofs.Render.Standalone

/-!
# Pages without composition tags

A page in which no tag has a name that begins like one of the dialect's tags is copied token by
token.  The tokens of a page make up the page, so nothing is left to do but to fill in its
placeholders, and no template is looked for.
-/

namespace Stencil.Render

variable {dialect : Dialect} {token : Markup.Token}

/-- A token is copied unless it is a tag with a name that begins like one of the dialect's tags. -/
theorem roleOf_eq_plain_iff :
    roleOf dialect token = .plain ↔ ∀ name, token.name? = some name →
      ¬ dialect.tagPrefix.toLower.toList <+: name.toList ∧
        ¬ dialect.variablePrefix.toLower.toList <+: name.toList := by
  have without : ∀ name start : String, Text.dropPrefix? name start = none ↔
      ¬ start.toList <+: name.toList := by
    intro name start
    rw [Option.eq_none_iff_forall_ne_some, ← not_exists]
    apply not_congr
    constructor
    · rintro ⟨rest, found⟩
      rw [Text.dropPrefix?_eq_some_iff.mp found, String.toList_append]
      exact List.prefix_append _ _
    · rintro ⟨rest, whole⟩
      refine ⟨String.ofList rest, Text.dropPrefix?_eq_some_iff.mpr ?_⟩
      rw [← String.toList_inj, String.toList_append, String.toList_ofList, whole]
  unfold roleOf Markup.Token.nameAfter?
  cases token.name? with
  | none => simp
  | some tag =>
      simp only [Option.bind_some, Option.some.injEq, forall_eq', ← without]
      cases Text.dropPrefix? tag dialect.tagPrefix.toLower with
      | some name => simp
      | none => cases Text.dropPrefix? tag dialect.variablePrefix.toLower <;> simp

namespace Composer

open Rendering

variable {composer : Composer} {scope : Bindings}

/-- Tokens that are copied are added to the draft one after the other. -/
theorem foldlM_read_plain {expand : Inclusion → Rendering String} {tokens : List Markup.Token}
    (plain : ∀ token ∈ tokens, roleOf composer.dialect token = .plain) (draft : Draft) :
    tokens.foldlM (composer.read scope expand) draft =
      pure (draft.append (String.join (tokens.map Markup.Token.raw))) := by
  induction tokens generalizing draft with
  | nil => simp
  | cons token rest ih =>
      have copied : composer.read scope expand draft token = pure (draft.append token.raw) := by
        rw [read, plain token List.mem_cons_self]
      rw [List.foldlM_cons, copied, pure_bind,
        ih fun other member => plain other (List.mem_cons_of_mem _ member)]
      simp

/-- A body whose tokens are all copied has its placeholders filled in, and nothing else happens. -/
theorem renderBody_plain {body : String}
    (plain : ∀ token ∈ Markup.tokenize body, roleOf composer.dialect token = .plain)
    (levels : Nat) (origin : Path) :
    composer.renderBody (levels + 1) origin body scope =
      pure (Placeholder.substitute composer.dialect scope body) := by
  rw [renderBody, foldlM_read_plain plain, Markup.join_raw_tokenize, pure_bind]
  simp [Draft.append, Draft.empty, Draft.finish]

/-- A page without composition tags is accepted, depends on nothing and looks for nothing.  Its
output is its body with the placeholders filled in.  A page that has no preamble and no placeholders
either comes out as it is. -/
theorem run_plain {source : String}
    (plain : ∀ token ∈ Markup.tokenize (Preamble.read source scope).2,
      ∀ name, token.name? = some name →
        ¬ composer.dialect.tagPrefix.toLower.toList <+: name.toList ∧
          ¬ composer.dialect.variablePrefix.toLower.toList <+: name.toList)
    (origin : Path) :
    let (inner, body) := Preamble.read source scope
    let page : Rendered := ⟨Placeholder.substitute composer.dialect inner body, ∅⟩
    (∀ levels, composer.run (levels + 1) origin source scope = (.ok page, .empty)) ∧
      (∀ levels, composer.render (levels + 1) origin source scope = .ok page) ∧
        (source.toList.head? ≠ some '@' →
          ¬ composer.dialect.opening.toList <:+: source.toList → page.content = source) := by
  dsimp only
  have rendered : ∀ levels, composer.run (levels + 1) origin source scope =
      (.ok ⟨Placeholder.substitute composer.dialect (Preamble.read source scope).1
        (Preamble.read source scope).2, ∅⟩, .empty) := by
    intro levels
    rw [run_eq, renderBody_plain fun token member =>
      roleOf_eq_plain_iff.mpr (plain token member)]
    rfl
  refine ⟨rendered, fun levels => congrArg Prod.fst (rendered levels), fun bodyOnly free => ?_⟩
  rw [Preamble.read_eq_self bodyOnly]
  exact Placeholder.substitute_eq_self free

/-- What looks like an inclusion stands in the raw text of an element, and the last tag never ends.
The same page without its preamble and its placeholder comes out as it is. -/
theorem run_plain_malformed :
    let composer : Composer := { dialect := {}, library := .ofList [] }
    let page := "<!----><SCRIPT>if (a<b) '<t:x/>'</script x=1><!x <t"
    composer.run 1 ⟨"index.html"⟩ ("@who=you\n<p>Hi {{who}}" ++ page) ∅ =
        (.ok ⟨"<p>Hi you" ++ page, ∅⟩, .empty) ∧
      composer.render 1 ⟨"index.html"⟩ page ∅ = .ok ⟨page, ∅⟩ := by
  intro composer page
  have plain : ∀ source ∈ ["@who=you\n<p>Hi {{who}}" ++ page, page],
      ∀ token ∈ Markup.tokenize (Preamble.read source ∅).2, ∀ name ∈ token.name?,
        ¬ composer.dialect.tagPrefix.toLower.toList <+: name.toList ∧
          ¬ composer.dialect.variablePrefix.toLower.toList <+: name.toList := by decide +kernel
  have filled : Placeholder.substitute {} (Preamble.read ("@who=you\n<p>Hi {{who}}" ++ page) ∅).1
      (Preamble.read ("@who=you\n<p>Hi {{who}}" ++ page) ∅).2 = "<p>Hi you" ++ page := by
    decide +kernel
  constructor
  · rw [← filled]
    exact (run_plain (plain _ (by simp)) ⟨"index.html"⟩).1 0
  · obtain ⟨_, rendered, same⟩ := run_plain (plain page (by simp)) ⟨"index.html"⟩
    rw [rendered 0]
    congr
    exact same (by decide +kernel) (by decide +kernel)

end Composer

end Stencil.Render
