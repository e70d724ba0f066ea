import Stencil.Proofs.Render.Advance
import Stencil.Proofs.Render.Grammar
import Stencil.Proofs.Render.Loaded

/-!
# Nesting of composition tags

The levels of a draft are the stack of open tags that the grammar needs.  A page whose inclusions
can be rendered is therefore accepted exactly when its tokens are a sentence of the grammar.
-/

namespace Stencil.Render

open Markup (Token)

/-- The name of the template that an inclusion tag asks for. -/
def Composer.askedName (composer : Composer) (scope : Bindings) (token : Token) : String :=
  composer.templateName scope token
    ((token.nameAfter? composer.dialect.tagPrefix.toLower).getD "")

theorem Composer.askedName_eq {composer : Composer} {scope : Bindings} {token : Token}
    {tag name : String} (role : roleOf composer.dialect token = .inclusion tag name) :
    composer.askedName scope token = composer.templateName scope token name := by
  rw [askedName, (roleOf_eq_inclusion_iff.mp role).2]
  rfl

/-- The levels of a draft hold what is known of the open tags. -/
inductive Holds (composer : Composer) (scope : Bindings) : List Level → List Token → Prop
  | nil : Holds composer scope [] []
  | inclusion {inclusion : Inclusion} {outer : List Level} {opening : Token} {stack : List Token} :
      markOf? composer.dialect opening = some (.inclusion, inclusion.tag) →
        inclusion.name = composer.askedName scope opening → Holds composer scope outer stack →
          Holds composer scope (⟨inclusion, none⟩ :: outer) (opening :: stack)
  | assignment {inclusion : Inclusion} {assignment : Assignment} {outer : List Level}
      {opening : Token} {stack : List Token} :
      markOf? composer.dialect opening = some (.assignment, assignment.tag) →
        Holds composer scope (⟨inclusion, none⟩ :: outer) stack →
          Holds composer scope (⟨inclusion, some assignment⟩ :: outer) (opening :: stack)

namespace Holds

variable {composer : Composer} {scope : Bindings} {draft : Draft} {stack : List Token}
  {token : Token} {tag : String}

theorem append (holds : Holds composer scope draft.levels stack) (text : String) :
    Holds composer scope (draft.append text).levels stack := by
  unfold Draft.append
  cases levels : draft.levels with
  | nil => rwa [levels] at holds
  | cons level outer =>
      rw [levels] at holds
      cases holds with
      | inclusion marked name holds => exact .inclusion marked name holds
      | assignment marked holds =>
          exact .assignment marked holds

/-- The innermost tag of the first level is the first tag of the stack. -/
theorem innermost {level : Level} {outer : List Level}
    (holds : Holds composer scope (level :: outer) stack) :
    ∃ opening rest, stack = opening :: rest ∧
      markOf? composer.dialect opening = some level.innermost := by
  cases holds with
  | inclusion marked name holds => exact ⟨_, _, rfl, marked⟩
  | assignment marked holds => exact ⟨_, _, rfl, marked⟩

/-- The innermost open tag is an inclusion when no variable is open at the first level. -/
theorem insideInclusion_iff (holds : Holds composer scope draft.levels stack) :
    InsideInclusion composer.dialect stack ↔
      ∃ inclusion outer, draft.levels = ⟨inclusion, none⟩ :: outer := by
  cases levels : draft.levels with
  | nil =>
      rw [levels] at holds
      cases holds
      simp [InsideInclusion]
  | cons level outer =>
      rw [levels] at holds
      cases holds with
      | inclusion marked name holds => simp [insideInclusion_cons marked]
      | assignment marked holds => simp [insideInclusion_cons marked]

theorem openInclusion (holds : Holds composer scope draft.levels stack)
    (marked : markOf? composer.dialect token = some (.inclusion, tag)) (attributes : Bindings) :
    Holds composer scope
      (draft.openInclusion tag (composer.askedName scope token) attributes).levels
      (token :: stack) :=
  .inclusion marked rfl holds

/-- A closing inclusion tag takes the inclusion out of the draft that it closes on the stack. -/
theorem closeInclusion {outer : List Token} (holds : Holds composer scope draft.levels stack)
    (closed : closeTag composer.dialect stack (.inclusion, tag) = some outer) :
    ∃ inclusion next opening, draft.closeInclusion tag = .ok (inclusion, next) ∧
      Holds composer scope next.levels outer ∧ stack = opening :: outer ∧
        inclusion.name = composer.askedName scope opening := by
  rcases closeTag_eq_some_iff.mp closed with ⟨opening, rfl, marked⟩
  generalize levels : draft.levels = open? at holds
  cases holds with
  | inclusion markedOpening name holds =>
      obtain ⟨_, rfl⟩ := Prod.mk.inj (Option.some.inj (markedOpening.symm.trans marked))
      refine ⟨_, { draft with levels := _ }, opening, ?_, holds, rfl, name⟩
      simp [Draft.closeInclusion, levels, Level.innermost]
  | assignment markedOpening holds =>
      cases markedOpening.symm.trans marked

theorem closeInclusion_error (holds : Holds composer scope draft.levels stack)
    (refused : closeTag composer.dialect stack (.inclusion, tag) = none) :
    ∃ nesting, draft.closeInclusion tag = .error nesting := by
  unfold Draft.closeInclusion
  cases levels : draft.levels with
  | nil => exact ⟨_, rfl⟩
  | cons level outer =>
      rw [levels] at holds
      obtain ⟨opening, rest, rfl, marked⟩ := holds.innermost
      simp only [closeTag, marked, Option.some.injEq, ite_eq_right_iff, reduceCtorEq] at refused
      exact ⟨_, if_neg refused⟩

theorem openAssignment {opened : List Token} (key : String)
    (holds : Holds composer scope draft.levels stack)
    (marked : markOf? composer.dialect token = some (.assignment, tag))
    (open? : openTag composer.dialect stack token .assignment = some opened) :
    ∃ next, draft.openAssignment tag key = .ok next ∧ Holds composer scope next.levels opened := by
  rcases openTag_eq_some_iff.mp open? with ⟨inside, rfl⟩
  rcases holds.insideInclusion_iff.mp (inside.resolve_left nofun) with ⟨inclusion, outer, levels⟩
  rw [levels] at holds
  refine ⟨{ draft with levels := ⟨inclusion, some ⟨tag, key, ""⟩⟩ :: outer }, ?_,
    .assignment marked holds⟩
  simp only [Draft.openAssignment, levels]

theorem openAssignment_error (tag key : String) (holds : Holds composer scope draft.levels stack)
    (refused : openTag composer.dialect stack token .assignment = none) :
    ∃ nesting, draft.openAssignment tag key = .error nesting := by
  have outside : ¬ InsideInclusion composer.dialect stack := by
    intro inside
    simp [openTag, inside] at refused
  rw [holds.insideInclusion_iff] at outside
  unfold Draft.openAssignment
  split
  · exact ⟨_, rfl⟩
  next level outer levels =>
    split
    · exact ⟨_, rfl⟩
    next none =>
      rcases level with ⟨inclusion, _⟩
      exact absurd ⟨inclusion, outer, by rw [levels, ← none]⟩ outside

theorem closeAssignment {outer : List Token} (holds : Holds composer scope draft.levels stack)
    (closed : closeTag composer.dialect stack (.assignment, tag) = some outer) :
    ∃ next, draft.closeAssignment tag = .ok next ∧ Holds composer scope next.levels outer := by
  rcases closeTag_eq_some_iff.mp closed with ⟨opening, rfl, marked⟩
  generalize levels : draft.levels = open? at holds
  cases holds with
  | inclusion markedOpening name holds => cases markedOpening.symm.trans marked
  | @assignment inclusion assignment outer _ _ markedOpening holds =>
      obtain ⟨_, rfl⟩ := Prod.mk.inj (Option.some.inj (markedOpening.symm.trans marked))
      cases holds with
      | inclusion marked name holds =>
          let assignments := inclusion.assignments.set assignment.key
            (Text.trim Text.isBlank assignment.content)
          refine ⟨{ draft with levels := ⟨{ inclusion with assignments }, none⟩ :: outer }, ?_,
            .inclusion marked name holds⟩
          simp only [Draft.closeAssignment, levels, if_true, assignments]

theorem closeAssignment_error (holds : Holds composer scope draft.levels stack)
    (refused : closeTag composer.dialect stack (.assignment, tag) = none) :
    ∃ nesting, draft.closeAssignment tag = .error nesting := by
  unfold Draft.closeAssignment
  split
  · exact ⟨_, rfl⟩
  next level outer levels =>
    rw [levels] at holds
    obtain ⟨opening, rest, rfl, marked⟩ := holds.innermost
    simp only [closeTag, marked, Option.some.injEq, ite_eq_right_iff, reduceCtorEq] at refused
    split
    next assignment found =>
      have differs : assignment.tag ≠ tag := by
        rintro rfl
        simp [Level.innermost, found] at refused
      exact ⟨_, if_neg differs⟩
    · exact ⟨_, rfl⟩

/-- An inclusion tag that may stand on the stack is read.  An inclusion that it closes is complete,
and asks for the template that its opening tag names. -/
theorem readInclusion {next done : List Token} (holds : Holds composer scope draft.levels stack)
    (opened : Opened composer.dialect stack done)
    (marked : markOf? composer.dialect token = some (.inclusion, tag))
    (nested : nest composer.dialect stack token = some next) (attributes : Bindings) :
    ∃ closed after,
      draft.readInclusion token.opens token.closes tag (composer.askedName scope token) attributes =
        .ok (closed, after) ∧
      Holds composer scope after.levels next ∧
        ∀ inclusion, closed = some inclusion → ∃ before opening rest,
          done ++ [token] = before ++ opening :: rest ∧
            Derives composer.dialect (.element .inclusion) (opening :: rest) ∧
              inclusion.name = composer.askedName scope opening := by
  unfold Draft.readInclusion
  cases opens : token.opens <;> cases closes : token.closes
  · have either := opens_or_closes marked
    simp [opens, closes] at either
  · rw [nest_end marked opens closes] at nested
    obtain ⟨inclusion, after, opening, read, kept, rfl, name⟩ := holds.closeInclusion nested
    rcases closeTag_eq_some_iff.mp nested with ⟨_, same, markedOpening⟩
    obtain ⟨rfl, _⟩ := List.cons.inj same
    obtain ⟨before, inner, whole, _, _, derives⟩ := opened.close markedOpening marked opens closes
    refine ⟨some inclusion, after, by simp [read], kept, ?_⟩
    rintro _ ⟨⟩
    exact ⟨before, opening, _, whole, derives, name⟩
  · rw [nest_start marked opens closes] at nested
    rcases openTag_eq_some_iff.mp nested with ⟨_, rfl⟩
    exact ⟨none, _, rfl, holds.openInclusion marked _, nofun⟩
  · rw [nest_selfClosing marked opens closes, if_pos (.inl rfl)] at nested
    obtain rfl := Option.some.inj nested
    have closed : closeTag composer.dialect (token :: stack) (.inclusion, tag) = some stack :=
      closeTag_eq_some_iff.mpr ⟨token, rfl, marked⟩
    obtain ⟨inclusion, after, opening, read, kept, same, name⟩ :=
      (holds.openInclusion marked attributes).closeInclusion closed
    obtain ⟨rfl, _⟩ := List.cons.inj same
    refine ⟨some inclusion, after, by simp [read], kept, ?_⟩
    rintro _ ⟨⟩
    exact ⟨done, token, [], rfl, .selfClosing marked opens closes, name⟩

theorem readInclusion_error {name : String} (holds : Holds composer scope draft.levels stack)
    (marked : markOf? composer.dialect token = some (.inclusion, tag))
    (refused : nest composer.dialect stack token = none) (attributes : Bindings) :
    ∃ nesting, draft.readInclusion token.opens token.closes tag name attributes =
      .error nesting := by
  unfold Draft.readInclusion
  cases opens : token.opens <;> cases closes : token.closes
  · have either := opens_or_closes marked
    simp [opens, closes] at either
  · rw [nest_end marked opens closes] at refused
    obtain ⟨nesting, read⟩ := holds.closeInclusion_error refused
    exact ⟨nesting, by simp [read]⟩
  · simp [nest_start marked opens closes, openTag] at refused
  · simp [nest_selfClosing marked opens closes] at refused

/-- A variable tag that may stand on the stack is read. -/
theorem readAssignment {next : List Token} (holds : Holds composer scope draft.levels stack)
    (marked : markOf? composer.dialect token = some (.assignment, tag))
    (nested : nest composer.dialect stack token = some next) (key : String) :
    ∃ after, draft.readAssignment token.opens token.closes tag key = .ok after ∧
      Holds composer scope after.levels next := by
  unfold Draft.readAssignment
  cases opens : token.opens <;> cases closes : token.closes
  · have either := opens_or_closes marked
    simp [opens, closes] at either
  · rw [nest_end marked opens closes] at nested
    exact holds.closeAssignment nested
  · rw [nest_start marked opens closes] at nested
    exact holds.openAssignment key marked nested
  · rw [nest_selfClosing marked opens closes] at nested
    split at nested
    next fits =>
      obtain rfl := Option.some.inj nested
      have opened : openTag composer.dialect stack token .assignment = some (token :: stack) :=
        openTag_eq_some_iff.mpr ⟨fits, rfl⟩
      have closed : closeTag composer.dialect (token :: stack) (.assignment, tag) = some stack :=
        closeTag_eq_some_iff.mpr ⟨token, rfl, marked⟩
      obtain ⟨middle, read, holds⟩ := holds.openAssignment key marked opened
      obtain ⟨after, readClosing, holds⟩ := holds.closeAssignment closed
      exact ⟨after, by simp [read, Except.bind, readClosing], holds⟩
    · cases nested

theorem readAssignment_error (holds : Holds composer scope draft.levels stack)
    (marked : markOf? composer.dialect token = some (.assignment, tag))
    (refused : nest composer.dialect stack token = none) (key : String) :
    ∃ nesting, draft.readAssignment token.opens token.closes tag key = .error nesting := by
  unfold Draft.readAssignment
  cases opens : token.opens <;> cases closes : token.closes
  · have either := opens_or_closes marked
    simp [opens, closes] at either
  · rw [nest_end marked opens closes] at refused
    exact holds.closeAssignment_error refused
  · rw [nest_start marked opens closes] at refused
    exact holds.openAssignment_error tag key refused
  · have outside : openTag composer.dialect stack token .assignment = none := by
      rw [nest_selfClosing marked opens closes] at refused
      split at refused
      · cases refused
      next outside => exact if_neg outside
    obtain ⟨nesting, read⟩ := holds.openAssignment_error tag key outside
    exact ⟨nesting, by simp [read, Except.bind]⟩

end Holds

section Advance

variable {composer : Composer} {scope : Bindings} {draft : Draft} {stack : List Token}
  {token : Token}

/-- A token that may stand on the stack moves the draft on. -/
theorem Holds.advance {next done : List Token} (holds : Holds composer scope draft.levels stack)
    (opened : Opened composer.dialect stack done)
    (nested : nest composer.dialect stack token = some next) :
    ∃ closed after, composer.advance scope draft token = .ok (closed, after) ∧
      Holds composer scope after.levels next ∧
        ∀ inclusion, closed = some inclusion → ∃ before opening rest,
          done ++ [token] = before ++ opening :: rest ∧
            Derives composer.dialect (.element .inclusion) (opening :: rest) ∧
              inclusion.name = composer.askedName scope opening := by
  unfold Composer.advance
  cases role : roleOf composer.dialect token with
  | plain =>
      rw [nest_plain (by rw [markOf?, role]; rfl)] at nested
      obtain rfl := Option.some.inj nested
      exact ⟨none, _, rfl, holds.append _, fun _ same => by cases same⟩
  | inclusion tag name =>
      have marked : markOf? composer.dialect token = some (.inclusion, tag) := by
        rw [markOf?, role, Role.mark?]
      dsimp only
      rw [← Composer.askedName_eq role]
      exact holds.readInclusion opened marked nested _
  | assignment tag key =>
      have marked : markOf? composer.dialect token = some (.assignment, tag) := by
        rw [markOf?, role, Role.mark?]
      obtain ⟨after, read, holds⟩ := holds.readAssignment marked nested key
      exact ⟨none, after, by simp only [read], holds, fun _ same => by cases same⟩

/-- A token that may not stand on the stack is refused. -/
theorem Holds.advance_error (holds : Holds composer scope draft.levels stack)
    (refused : nest composer.dialect stack token = none) :
    ∃ nesting, composer.advance scope draft token = .error nesting := by
  unfold Composer.advance
  cases role : roleOf composer.dialect token with
  | plain =>
      rw [nest_plain (by rw [markOf?, role]; rfl)] at refused
      cases refused
  | inclusion tag name =>
      have marked : markOf? composer.dialect token = some (.inclusion, tag) := by
        rw [markOf?, role, Role.mark?]
      exact holds.readInclusion_error marked refused _
  | assignment tag key =>
      have marked : markOf? composer.dialect token = some (.assignment, tag) := by
        rw [markOf?, role, Role.mark?]
      obtain ⟨nesting, read⟩ := holds.readAssignment_error marked refused key
      exact ⟨nesting, by simp only [read]⟩

end Advance

end Stencil.Render
