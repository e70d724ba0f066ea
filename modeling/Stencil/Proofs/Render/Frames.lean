import Stencil.Proofs.Render.Nesting

/-!
# What decides how a page is read on

The texts and variables in a draft do not decide how it goes on.  The tags that are open do, and
the names of the templates that they ask for.  Two drafts that agree on these are moved on alike by
every token.
-/

namespace Stencil.Render

open Markup (Token)

/-- The names at a level: of the inclusion, of its template, and of the variable tag that is open
directly inside it. -/
structure Frame where
  tag : String
  name : String
  assignment? : Option String
deriving DecidableEq

def Level.frame (level : Level) : Frame :=
  ⟨level.inclusion.tag, level.inclusion.name, level.assignment?.map Assignment.tag⟩

/-- The kind and name of the innermost open tag. -/
def Frame.innermost (frame : Frame) : TagKind × String :=
  match frame.assignment? with
  | none => (.inclusion, frame.tag)
  | some tag => (.assignment, tag)

theorem Level.innermost_frame (level : Level) : level.frame.innermost = level.innermost := by
  rcases level with ⟨inclusion, _ | assignment⟩ <;> rfl

def Draft.frames (draft : Draft) : List Frame :=
  draft.levels.map Level.frame

/-- Two outcomes that look alike are the same error, or values that look alike. -/
theorem error_or_ok_of_map {ε α β γ : Type} {first : Except ε α} {second : Except ε β} {f : α → γ}
    {g : β → γ} (same : first.map f = second.map g) :
    (∃ error, first = .error error ∧ second = .error error) ∨
      ∃ a b, first = .ok a ∧ second = .ok b ∧ f a = g b := by
  cases first with
  | error error =>
      cases second with
      | error errorOther =>
          exact .inl ⟨error, rfl, congrArg Except.error (Except.error.inj same).symm⟩
      | ok b => cases same
  | ok a =>
      cases second with
      | error error => cases same
      | ok b => exact .inr ⟨a, b, rfl, rfl, Except.ok.inj same⟩

namespace Draft

variable {draft other : Draft} {tag : String}

@[simp]
theorem frames_append (text : String) : (draft.append text).frames = draft.frames := by
  rcases draft with ⟨output, _ | ⟨⟨inclusion, _ | assignment⟩, outer⟩⟩ <;> rfl

/-- Drafts with the same frames have no levels, or first levels with the same frame. -/
theorem levels_of_frames (same : draft.frames = other.frames) :
    (draft.levels = [] ∧ other.levels = []) ∨
      ∃ level outer levelOther outerOther, draft.levels = level :: outer ∧
        other.levels = levelOther :: outerOther ∧ level.frame = levelOther.frame ∧
          outer.map Level.frame = outerOther.map Level.frame := by
  unfold frames at same
  cases levels : draft.levels with
  | nil =>
      rw [levels, List.map_nil, eq_comm, List.map_eq_nil_iff] at same
      exact .inl ⟨rfl, same⟩
  | cons level outer =>
      rw [levels, List.map_cons, eq_comm, List.map_eq_cons_iff] at same
      rcases same with ⟨levelOther, outerOther, levelsOther, sameLevel, sameOuter⟩
      exact .inr ⟨level, outer, levelOther, outerOther, rfl, levelsOther, sameLevel.symm,
        sameOuter.symm⟩

theorem frames_openInclusion (same : draft.frames = other.frames) (tag name : String)
    (attributes attributesOther : Bindings) :
    (draft.openInclusion tag name attributes).frames =
      (other.openInclusion tag name attributesOther).frames :=
  congrArg (Frame.mk tag name none :: ·) same

/-- The names of what a closing tag takes out of a draft, and of what it leaves. -/
def outline : Option Inclusion × Draft → Option String × List Frame
  | (closed, draft) => (closed.map Inclusion.name, draft.frames)

theorem closeInclusion_outline (same : draft.frames = other.frames) (tag : String) :
    (draft.closeInclusion tag).map (fun closed => outline (some closed.1, closed.2)) =
      (other.closeInclusion tag).map fun closed => outline (some closed.1, closed.2) := by
  unfold closeInclusion
  rcases levels_of_frames same with ⟨none, noneOther⟩ |
    ⟨level, outer, levelOther, outerOther, levels, levelsOther, sameLevel, sameOuter⟩
  · rw [none, noneOther]
  · have innermost : level.innermost = levelOther.innermost := by
      rw [← Level.innermost_frame, sameLevel, Level.innermost_frame]
    have name : level.inclusion.name = levelOther.inclusion.name := congrArg Frame.name sameLevel
    rw [levels, levelsOther]
    dsimp only
    rw [innermost]
    by_cases closes : levelOther.innermost = (.inclusion, tag)
    · simp only [closes, if_true, Except.map, outline, Option.map_some, name, frames, sameOuter]
    · simp only [closes, if_false, Except.map]

theorem readInclusion_outline (same : draft.frames = other.frames) (opens closes : Bool)
    (tag name : String) (attributes attributesOther : Bindings) :
    (draft.readInclusion opens closes tag name attributes).map outline =
      (other.readInclusion opens closes tag name attributesOther).map outline := by
  unfold readInclusion
  have opened : Draft.frames (if opens then draft.openInclusion tag name attributes else draft) =
      Draft.frames (if opens then other.openInclusion tag name attributesOther else other) := by
    cases opens with
    | false => exact same
    | true => exact frames_openInclusion same tag name attributes attributesOther
  have closed := closeInclusion_outline opened tag
  cases closes with
  | false => simp only [Bool.false_eq_true, if_false, Except.map, outline, Option.map_none, opened]
  | true =>
      simp only [if_true]
      generalize closeInclusion _ tag = result at closed ⊢
      generalize closeInclusion _ tag = resultOther at closed ⊢
      rcases result with _ | ⟨inclusion, rest⟩ <;> rcases resultOther with _ | ⟨twin, restOther⟩ <;>
        exact closed

theorem inclusion_of_frame {level levelOther : Level} (same : level.frame = levelOther.frame) :
    level.inclusion.tag = levelOther.inclusion.tag ∧
      level.inclusion.name = levelOther.inclusion.name :=
  ⟨congrArg Frame.tag same, congrArg Frame.name same⟩

/-- Two levels with the same frame have a variable tag of the same name open, or none. -/
theorem assignment_of_frame {level levelOther : Level} (same : level.frame = levelOther.frame) :
    (level.assignment? = none ∧ levelOther.assignment? = none) ∨
      ∃ assignment assignmentOther, level.assignment? = some assignment ∧
        levelOther.assignment? = some assignmentOther ∧ assignment.tag = assignmentOther.tag := by
  have tags : level.assignment?.map Assignment.tag = levelOther.assignment?.map Assignment.tag :=
    congrArg Frame.assignment? same
  cases open_ : level.assignment? with
  | none =>
      rw [open_, Option.map_none, eq_comm, Option.map_eq_none_iff] at tags
      exact .inl ⟨rfl, tags⟩
  | some assignment =>
      rw [open_, Option.map_some, eq_comm, Option.map_eq_some_iff] at tags
      rcases tags with ⟨assignmentOther, openOther, tags⟩
      exact .inr ⟨assignment, assignmentOther, rfl, openOther, tags.symm⟩

theorem openAssignment_frames (same : draft.frames = other.frames) (tag key keyOther : String) :
    (draft.openAssignment tag key).map frames = (other.openAssignment tag keyOther).map frames := by
  unfold openAssignment
  rcases levels_of_frames same with ⟨none, noneOther⟩ |
    ⟨level, outer, levelOther, outerOther, levels, levelsOther, sameLevel, sameOuter⟩
  · rw [none, noneOther]
  · have inclusion := inclusion_of_frame sameLevel
    rw [levels, levelsOther]
    dsimp only
    rcases assignment_of_frame sameLevel with ⟨none, noneOther⟩ |
      ⟨assignment, assignmentOther, open_, openOther, tags⟩
    · simp only [none, noneOther, Except.map, frames, List.map_cons, Level.frame, inclusion,
        Option.map_some, sameOuter]
    · simp only [open_, openOther, tags, Except.map]

theorem closeAssignment_frames (same : draft.frames = other.frames) (tag : String) :
    (draft.closeAssignment tag).map frames = (other.closeAssignment tag).map frames := by
  unfold closeAssignment
  rcases levels_of_frames same with ⟨none, noneOther⟩ |
    ⟨level, outer, levelOther, outerOther, levels, levelsOther, sameLevel, sameOuter⟩
  · rw [none, noneOther]
  · have inclusion := inclusion_of_frame sameLevel
    rw [levels, levelsOther]
    dsimp only
    rcases assignment_of_frame sameLevel with ⟨none, noneOther⟩ |
      ⟨assignment, assignmentOther, open_, openOther, tags⟩
    · simp only [none, noneOther, inclusion, Except.map]
    · by_cases closes : assignmentOther.tag = tag
      · simp only [open_, openOther, tags, closes, if_true, Except.map, frames, List.map_cons,
          Level.frame, inclusion, Option.map_none, sameOuter]
      · simp only [open_, openOther, tags, closes, if_false, Except.map]

theorem readAssignment_frames (same : draft.frames = other.frames) (opens closes : Bool)
    (tag key keyOther : String) :
    (draft.readAssignment opens closes tag key).map frames =
      (other.readAssignment opens closes tag keyOther).map frames := by
  unfold readAssignment
  have opened : (if opens then draft.openAssignment tag key else .ok draft).map frames =
      (if opens then other.openAssignment tag keyOther else .ok other).map frames := by
    cases opens with
    | false => exact congrArg Except.ok same
    | true => exact openAssignment_frames same tag key keyOther
  cases closes with
  | false => exact opened
  | true =>
      simp only [if_true]
      rcases error_or_ok_of_map opened with ⟨nesting, failed, failedOther⟩ |
        ⟨middle, middleOther, found, foundOther, sameMiddle⟩
      · rw [failed, failedOther]
      · rw [found, foundOther]
        exact closeAssignment_frames sameMiddle tag

theorem finish_outcome (same : draft.frames = other.frames) :
    (draft.finish).map (fun _ => ()) = (other.finish).map fun _ => () := by
  unfold finish
  rcases levels_of_frames same with ⟨none, noneOther⟩ |
    ⟨level, outer, levelOther, outerOther, levels, levelsOther, sameLevel, sameOuter⟩
  · rw [none, noneOther]
    rfl
  · rw [levels, levelsOther]
    dsimp only [Except.map]
    rw [← Level.innermost_frame, sameLevel, Level.innermost_frame]

end Draft

/-- Drafts with the same frames are moved on alike by a token that asks for the same template. -/
theorem Composer.advance_outline {composer : Composer} {scope scopeOther : Bindings} {token : Token}
    {draft other : Draft} (same : draft.frames = other.frames)
    (asked : ∀ tag name, roleOf composer.dialect token = .inclusion tag name →
      composer.templateName scope token name = composer.templateName scopeOther token name) :
    (composer.advance scope draft token).map Draft.outline =
      (composer.advance scopeOther other token).map Draft.outline := by
  unfold advance
  cases role : roleOf composer.dialect token with
  | plain => simp only [Except.map, Draft.outline, Option.map_none, Draft.frames_append, same]
  | inclusion tag name =>
      dsimp only
      rw [asked tag name role]
      exact Draft.readInclusion_outline same _ _ _ _ _ _
  | assignment tag key =>
      have read := Draft.readAssignment_frames same token.opens token.closes tag key key
      rcases error_or_ok_of_map read with ⟨nesting, failed, failedOther⟩ |
        ⟨next, nextOther, found, foundOther, sameNext⟩
      · simp only [failed, failedOther, Except.map]
      · simp only [found, foundOther, Except.map, Draft.outline, sameNext, Option.map_none]

end Stencil.Render
