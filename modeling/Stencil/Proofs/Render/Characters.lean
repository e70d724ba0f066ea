import Stencil.Proofs.Bindings
import Stencil.Proofs.Markup.Characters
import Stencil.Proofs.Preamble
import Stencil.Proofs.Render.Advance

/-!
# The characters of pages that are rendered

A property of characters that holds throughout a page, its scope and its templates, and is kept by
lower-casing, holds throughout everything that rendering makes of them: the scopes and bodies of
templates, the drafts on the way and the output.
-/

namespace Stencil

open Text (MadeOf)

variable {p : Char → Prop}

namespace Placeholder

variable {scope : Bindings}

theorem mem_of_mem_cutAt {count : Nat} {source : List Char} {c : Char}
    (member : c ∈ (cutAt count source).1 ∨ c ∈ (cutAt count source).2) : c ∈ source := by
  rw [cutAt, List.splitAt_eq] at member
  rcases member with member | member
  · exact List.mem_of_mem_take member
  · exact List.mem_of_mem_drop member

theorem isMadeOf_fillFrom {markers : Markers} (scopeMade : scope.IsMadeOf p) {position : Nat}
    {source : List Char} {spans : List Span} (made : ∀ c ∈ source, p c) :
    ∀ c ∈ fillFrom markers scope position source spans, p c := by
  induction spans generalizing position source with
  | nil => exact made
  | cons span rest ih =>
      have cut : ∀ {count : Nat} {source : List Char}, (∀ c ∈ source, p c) →
          (∀ c ∈ (cutAt count source).1, p c) ∧ ∀ c ∈ (cutAt count source).2, p c :=
        fun made => ⟨fun c member => made c (mem_of_mem_cutAt (.inl member)),
          fun c member => made c (mem_of_mem_cutAt (.inr member))⟩
      simp only [fillFrom, List.forall_mem_append]
      refine ⟨⟨(cut made).1, scopeMade.value _⟩, ih ?_⟩
      exact (cut (cut (cut (cut made).2).2).2).2

/-- Filling in placeholders brings in no characters but those of the scope. -/
theorem isMadeOf_substitute {dialect : Dialect} (scopeMade : scope.IsMadeOf p) {source : String}
    (made : MadeOf p source) : MadeOf p (substitute dialect scope source) := by
  unfold substitute
  split
  · exact made
  · rw [Text.madeOf_ofList]
    intro c member
    rcases List.mem_flatMap.mp member with ⟨line, inside, member⟩
    exact isMadeOf_fillFrom scopeMade
      (fun c written => made c (Text.mem_of_mem_lines inside written)) c member

end Placeholder

namespace Render

/-- The texts of an inclusion that its output depends on are made of characters with the property
`p`. -/
structure Inclusion.IsMadeOf (p : Char → Prop) (inclusion : Inclusion) : Prop where
  name : MadeOf p inclusion.name
  attributes : inclusion.attributes.IsMadeOf p
  assignments : inclusion.assignments.IsMadeOf p
  content : MadeOf p inclusion.content

/-- The texts collected at a level are made of characters with the property `p`. -/
structure Level.IsMadeOf (p : Char → Prop) (level : Level) : Prop where
  inclusion : level.inclusion.IsMadeOf p
  assignment : ∀ assignment, level.assignment? = some assignment →
    MadeOf p assignment.key ∧ MadeOf p assignment.content

/-- The texts collected in a draft are made of characters with the property `p`. -/
structure Draft.IsMadeOf (p : Char → Prop) (draft : Draft) : Prop where
  output : MadeOf p draft.output
  levels : ∀ level ∈ draft.levels, level.IsMadeOf p

theorem Level.IsMadeOf.append {level : Level} (made : level.IsMadeOf p) {text : String}
    (textMade : MadeOf p text) : (level.append text).IsMadeOf p := by
  rcases made with ⟨⟨name, attributes, assignments, content⟩, assignment⟩
  unfold Level.append
  split
  next none =>
    exact ⟨⟨name, attributes, assignments, Text.madeOf_append.mpr ⟨content, textMade⟩⟩, assignment⟩
  next open_ found =>
    refine ⟨⟨name, attributes, assignments, content⟩, ?_⟩
    rintro _ ⟨⟩
    exact ⟨(assignment _ found).1, Text.madeOf_append.mpr ⟨(assignment _ found).2, textMade⟩⟩

namespace Draft

theorem isMadeOf_empty : Draft.empty.IsMadeOf p :=
  ⟨Text.madeOf_empty, nofun⟩

variable {draft : Draft}

theorem IsMadeOf.append (made : draft.IsMadeOf p) {text : String} (textMade : MadeOf p text) :
    (draft.append text).IsMadeOf p := by
  unfold Draft.append
  split
  · exact ⟨Text.madeOf_append.mpr ⟨made.output, textMade⟩, made.levels⟩
  next level outer found =>
    have levels := made.levels
    rw [found, List.forall_mem_cons] at levels
    exact ⟨made.output, List.forall_mem_cons.mpr ⟨levels.1.append textMade, levels.2⟩⟩

theorem IsMadeOf.openInclusion (made : draft.IsMadeOf p) {tag name : String}
    {attributes : Bindings} (nameMade : MadeOf p name) (attributesMade : attributes.IsMadeOf p) :
    (draft.openInclusion tag name attributes).IsMadeOf p := by
  refine ⟨made.output, List.forall_mem_cons.mpr ⟨⟨?_, nofun⟩, made.levels⟩⟩
  exact ⟨nameMade, attributesMade, Bindings.isMadeOf_empty, Text.madeOf_empty⟩

theorem IsMadeOf.closeInclusion (made : draft.IsMadeOf p) {tag : String} {inclusion : Inclusion}
    {rest : Draft} (closed : draft.closeInclusion tag = .ok (inclusion, rest)) :
    inclusion.IsMadeOf p ∧ rest.IsMadeOf p := by
  unfold Draft.closeInclusion at closed
  split at closed
  · simp at closed
  next level outer found =>
    have levels := made.levels
    rw [found, List.forall_mem_cons] at levels
    split at closed
    · obtain ⟨rfl, rfl⟩ := Prod.mk.inj (Except.ok.inj closed)
      exact ⟨levels.1.inclusion, made.output, levels.2⟩
    · simp at closed

theorem IsMadeOf.openAssignment (made : draft.IsMadeOf p) {tag key : String} {next : Draft}
    (keyMade : MadeOf p key) (opened : draft.openAssignment tag key = .ok next) :
    next.IsMadeOf p := by
  unfold Draft.openAssignment at opened
  split at opened
  · simp at opened
  next level outer found =>
    have levels := made.levels
    rw [found, List.forall_mem_cons] at levels
    split at opened
    · simp at opened
    · obtain rfl := Except.ok.inj opened
      refine ⟨made.output, List.forall_mem_cons.mpr ⟨⟨levels.1.inclusion, ?_⟩, levels.2⟩⟩
      rintro _ ⟨⟩
      exact ⟨keyMade, Text.madeOf_empty⟩

theorem IsMadeOf.closeAssignment (made : draft.IsMadeOf p) {tag : String} {next : Draft}
    (closed : draft.closeAssignment tag = .ok next) : next.IsMadeOf p := by
  unfold Draft.closeAssignment at closed
  split at closed
  · simp at closed
  next level outer found =>
    have levels := made.levels
    rw [found, List.forall_mem_cons] at levels
    split at closed
    next assignment present =>
      split at closed
      · obtain rfl := Except.ok.inj closed
        obtain ⟨key, content⟩ := levels.1.assignment _ present
        refine ⟨made.output, List.forall_mem_cons.mpr ⟨⟨?_, nofun⟩, levels.2⟩⟩
        obtain ⟨name, attributes, assignments, inner⟩ := levels.1.inclusion
        exact ⟨name, attributes, assignments.set key content.trim, inner⟩
      · simp at closed
    · simp at closed

theorem IsMadeOf.readInclusion (made : draft.IsMadeOf p) {opens closes : Bool}
    {tag name : String} {attributes : Bindings} {closed : Option Inclusion} {next : Draft}
    (nameMade : MadeOf p name) (attributesMade : attributes.IsMadeOf p)
    (read : draft.readInclusion opens closes tag name attributes = .ok (closed, next)) :
    (∀ inclusion, closed = some inclusion → inclusion.IsMadeOf p) ∧ next.IsMadeOf p := by
  have opened : Draft.IsMadeOf p
      (if opens then draft.openInclusion tag name attributes else draft) := by
    split
    · exact made.openInclusion nameMade attributesMade
    · exact made
  unfold Draft.readInclusion at read
  dsimp only at read
  split at read
  · split at read
    · simp at read
    next inclusion rest closes =>
      obtain ⟨rfl, rfl⟩ := Prod.mk.inj (Except.ok.inj read)
      obtain ⟨inclusionMade, restMade⟩ := opened.closeInclusion closes
      exact ⟨fun _ same => Option.some.inj same ▸ inclusionMade, restMade⟩
  · obtain ⟨rfl, rfl⟩ := Prod.mk.inj (Except.ok.inj read)
    exact ⟨nofun, opened⟩

theorem IsMadeOf.readAssignment (made : draft.IsMadeOf p) {opens closes : Bool}
    {tag key : String} {next : Draft} (keyMade : MadeOf p key)
    (read : draft.readAssignment opens closes tag key = .ok next) : next.IsMadeOf p := by
  have opened : ∀ middle : Draft,
      (if opens then draft.openAssignment tag key else .ok draft) = .ok middle →
        middle.IsMadeOf p := by
    intro middle read
    split at read
    · exact made.openAssignment keyMade read
    · exact Except.ok.inj read ▸ made
  unfold Draft.readAssignment at read
  dsimp only at read
  split at read
  · cases opens : (if opens then draft.openAssignment tag key else .ok draft) with
    | error nesting => simp [opens, Except.bind] at read
    | ok middle =>
        rw [opens] at read
        exact (opened middle opens).closeAssignment read
  · exact opened next read

theorem IsMadeOf.finish (made : draft.IsMadeOf p) {output : String}
    (finished : draft.finish = .ok output) : MadeOf p output := by
  unfold Draft.finish at finished
  split at finished
  · exact Except.ok.inj finished ▸ made.output
  · simp at finished

end Draft

namespace Composer

variable {composer : Composer} {scope : Bindings} {token : Markup.Token}

theorem isMadeOf_attributesOf (scopeMade : scope.IsMadeOf p) (tokenMade : token.IsMadeOf p) :
    (composer.attributesOf scope token).IsMadeOf p := by
  apply Bindings.isMadeOf_empty.merge
  intro entry member
  rcases List.mem_map.mp member with ⟨given, inside, rfl⟩
  obtain ⟨key, value⟩ := tokenMade.attributes given inside
  exact ⟨key, Placeholder.isMadeOf_substitute scopeMade value⟩

theorem isMadeOf_nameAfter? (tokenMade : token.IsMadeOf p) {start name : String}
    (found : token.nameAfter? start = some name) : MadeOf p name := by
  rcases Option.bind_eq_some_iff.mp found with ⟨tag, written, cut⟩
  exact (tokenMade.name tag written).dropPrefix? cut

theorem isMadeOf_templateName (scopeMade : scope.IsMadeOf p) (tokenMade : token.IsMadeOf p)
    {name : String} (nameMade : MadeOf p name) :
    MadeOf p (composer.templateName scope token name) := by
  unfold templateName
  cases found : (composer.attributesOf scope token).get? composer.dialect.nameAttribute.toLower with
  | none => exact nameMade
  | some value => exact (isMadeOf_attributesOf scopeMade tokenMade _ value found).2

/-- A token leaves a draft, and closes an inclusion, made of the characters of the token, the
scope and the draft before. -/
theorem isMadeOf_advance {draft next : Draft} {closed : Option Inclusion}
    (scopeMade : scope.IsMadeOf p) (tokenMade : token.IsMadeOf p) (made : draft.IsMadeOf p)
    (advanced : composer.advance scope draft token = .ok (closed, next)) :
    (∀ inclusion, closed = some inclusion → inclusion.IsMadeOf p) ∧ next.IsMadeOf p := by
  unfold advance at advanced
  cases role : roleOf composer.dialect token with
  | plain =>
      rw [role] at advanced
      obtain ⟨rfl, rfl⟩ := Prod.mk.inj (Except.ok.inj advanced)
      exact ⟨nofun, made.append tokenMade.raw⟩
  | inclusion tag name =>
      rw [role] at advanced
      have nameMade := isMadeOf_nameAfter? tokenMade (roleOf_eq_inclusion_iff.mp role).2
      exact made.readInclusion (isMadeOf_templateName scopeMade tokenMade nameMade)
        (isMadeOf_attributesOf scopeMade tokenMade) advanced
  | assignment tag key =>
      rw [role] at advanced
      dsimp only at advanced
      split at advanced
      · simp at advanced
      next draft read =>
        obtain ⟨rfl, rfl⟩ := Prod.mk.inj (Except.ok.inj advanced)
        have keyMade := isMadeOf_nameAfter? tokenMade (roleOf_eq_assignment_iff.mp role).2.2
        exact ⟨nofun, made.readAssignment keyMade read⟩

end Composer

/-- A template is entered with a scope and a body made of the characters of the inclusion, the
scope and the template. -/
theorem Inclusion.IsMadeOf.enter {inclusion : Inclusion} (made : inclusion.IsMadeOf p)
    {dialect : Dialect} {scope : Bindings} {template : String}
    (variableMade : MadeOf p contentVariable) (scopeMade : scope.IsMadeOf p)
    (templateMade : MadeOf p template) :
    (inclusion.enter dialect scope template).1.IsMadeOf p ∧
      MadeOf p (inclusion.enter dialect scope template).2 := by
  obtain ⟨declared, body⟩ := Preamble.isMadeOf_read scopeMade templateMade
  have given := declared.merge made.attributes.toList
  have fills : ∀ value, MadeOf p value → MadeOf p (Placeholder.substitute dialect
      ((Preamble.read template scope).1.merge inclusion.attributes.toList) value) :=
    fun _ valueMade => Placeholder.isMadeOf_substitute given valueMade
  have assigned := given.merge (made.assignments.mapValues fills).toList
  exact ⟨assigned.set variableMade (Placeholder.isMadeOf_substitute assigned made.content.trim), body⟩

end Render

end Stencil
