import Stencil.Proofs.Render.Advance
import Stencil.Proofs.Render.Rendering

/-!
# Relations between renderings

Many laws about pages compare two renderings that take the same steps.  A logic is a relation
between renderings that single steps keep and that goes through sequences.  Whatever a logic says
about the inclusions of a page, it says about the page.
-/

namespace Stencil.Render

namespace Rendering

/-- The property that every value has. -/
abbrev Any {α : Type} : α → Prop :=
  fun _ => True

/-- Two outcomes are the same, and a value has the property `Good`. -/
def Alike {α : Type} (Good : α → Prop) (first second : Except Error α) : Prop :=
  first = second ∧ ∀ a, first = .ok a → Good a

/-- A relation between renderings, given a property that the values they end with have. -/
structure Logic where
  Rel : {α : Type} → (α → Prop) → Rendering α → Rendering α → Prop
  value : ∀ {α : Type} {Good : α → Prop} {a : α}, Good a → Rel Good (pure a) (pure a)
  failure : ∀ {α : Type} {Good : α → Prop} (error : Error), Rel Good (throw error) (throw error)
  sequence : ∀ {α β : Type} {Good : α → Prop} {Result : β → Prop} {first second : Rendering α}
    {next other : α → Rendering β}, Rel Good first second →
      (∀ a, Good a → Rel Result (next a) (other a)) →
        Rel Result (first >>= next) (second >>= other)

namespace Logic

variable (logic : Logic)

theorem weaken {α : Type} {Good Weaker : α → Prop} {first second : Rendering α}
    (holds : logic.Rel Good first second) (implies : ∀ a, Good a → Weaker a) :
    logic.Rel Weaker first second := by
  rw [← bind_pure first, ← bind_pure second]
  exact logic.sequence holds fun a good => logic.value (implies a good)

/-- Two loops over the same list are related when each of their steps is. -/
theorem loop {α β : Type} {Good : α → Prop} {items : List β} {step other : α → β → Rendering α}
    (steps : ∀ item ∈ items, ∀ a, Good a → logic.Rel Good (step a item) (other a item))
    {a : α} (start : Good a) :
    logic.Rel Good (items.foldlM step a) (items.foldlM other a) := by
  induction items generalizing a with
  | nil => exact logic.value start
  | cons item rest ih =>
      rw [List.foldlM_cons, List.foldlM_cons]
      apply logic.sequence (steps item List.mem_cons_self a start)
      intro a next
      exact ih (fun item member => steps item (List.mem_cons_of_mem _ member)) next

variable {composer other : Composer} {scope : Bindings}

/-- What has to hold for a token to be read alike: an inclusion that closes has related output. -/
def Reads (Good : Draft → Prop) (expand expandOther : Inclusion → Rendering String) :
    Option Inclusion × Draft → Prop
  | (none, draft) => Good draft
  | (some inclusion, draft) =>
      logic.Rel (fun text => Good (draft.append text)) (expand inclusion) (expandOther inclusion)

/-- Two renderings read a token alike when they render the inclusion that it closes alike. -/
theorem read {Good : Draft → Prop} {expand expandOther : Inclusion → Rendering String}
    {draft : Draft} {token : Markup.Token} (dialect : composer.dialect = other.dialect)
    (step : ∀ next, composer.advance scope draft token = .ok next →
      logic.Reads Good expand expandOther next) :
    logic.Rel Good (composer.read scope expand draft token)
      (other.read scope expandOther draft token) := by
  rw [Composer.read_eq, Composer.read_eq, ← Composer.advance_congr dialect]
  cases found : composer.advance scope draft token with
  | error nesting => exact logic.failure _
  | ok next =>
      have reads := step next found
      rcases next with ⟨_ | inclusion, draft⟩
      · exact logic.value reads
      · exact logic.sequence reads fun text good => logic.value good

/-- Two renderings of a body are related when they render its inclusions alike.  `Good` is kept by
every draft on the way, and `Result` follows from it for the output. -/
theorem renderBody (Good : Draft → Prop) (Result : String → Prop) {levels more : Nat}
    {origin elsewhere : Path} {body : String} (dialect : composer.dialect = other.dialect)
    (start : Good .empty)
    (step : ∀ token ∈ Markup.tokenize body, ∀ draft, Good draft → ∀ next,
      composer.advance scope draft token = .ok next →
        logic.Reads Good (composer.expand (composer.renderBody levels) origin scope)
          (other.expand (other.renderBody more) elsewhere scope) next)
    (finish : ∀ draft output, Good draft → draft.finish = .ok output →
      Result (Placeholder.substitute composer.dialect scope output)) :
    logic.Rel Result (composer.renderBody (levels + 1) origin body scope)
      (other.renderBody (more + 1) elsewhere body scope) := by
  unfold Composer.renderBody
  apply logic.sequence (logic.loop (fun token member draft good =>
    logic.read dialect (step token member draft good)) start)
  intro draft good
  cases ended : draft.finish with
  | error error => exact logic.failure _
  | ok output =>
      rw [← dialect]
      exact logic.value (finish draft output good ended)

/-- Two renderings of a body are related when they render every inclusion alike. -/
theorem renderBody_any {levels more : Nat} {origin elsewhere : Path} {body : String}
    (dialect : composer.dialect = other.dialect)
    (expands : ∀ inclusion, logic.Rel Any
      (composer.expand (composer.renderBody levels) origin scope inclusion)
      (other.expand (other.renderBody more) elsewhere scope inclusion)) :
    logic.Rel Any (composer.renderBody (levels + 1) origin body scope)
      (other.renderBody (more + 1) elsewhere body scope) := by
  refine logic.renderBody Any Any dialect trivial ?_ fun _ _ _ _ => trivial
  rintro token _ draft _ ⟨_ | inclusion, next⟩ _
  · trivial
  · exact expands inclusion

/-- The rendering of a body is related to itself when that of every inclusion is. -/
theorem renderBody_self {levels : Nat} {origin : Path} {body : String}
    (expands : ∀ inclusion, logic.Rel Any
      (composer.expand (composer.renderBody levels) origin scope inclusion)
      (composer.expand (composer.renderBody levels) origin scope inclusion)) :
    logic.Rel Any (composer.renderBody (levels + 1) origin body scope)
      (composer.renderBody (levels + 1) origin body scope) :=
  logic.renderBody_any rfl expands

end Logic

end Rendering

end Stencil.Render
