import Stencil.Glob.Fault
import Stencil.Glob.Pattern

/-!
# Reading exclusion patterns

A pattern is read character by character.  Braces open groups of alternates, brackets open
classes, and a backslash takes the meaning of the next character away.
-/

namespace Stencil.Glob

/-- A group of alternates that is still open. -/
structure Group where
  /-- The finished branches, the latest first. -/
  finished : List Pattern
  /-- The parts before the group, the latest first. -/
  outer : List Part

/-- What has been read of a pattern. -/
structure Draft where
  /-- The parts of the branch that is being read, the latest first. -/
  current : List Part
  /-- The open groups, the innermost first. -/
  groups : List Group

namespace Draft

def empty : Draft := ⟨[], []⟩

def push (draft : Draft) (part : Part) : Draft :=
  { draft with current := part :: draft.current }

/-- Two stars that are not a whole component mean the same as one. -/
def pushStars (draft : Draft) : Draft :=
  (draft.push .zeroOrMore).push .zeroOrMore

def openGroup (draft : Draft) : Draft :=
  ⟨[], ⟨[], draft.current⟩ :: draft.groups⟩

/-- A comma separates the branches of a group, and stands for itself elsewhere. -/
def comma (draft : Draft) : Draft :=
  match draft.groups with
  | [] => draft.push (.literal ',')
  | group :: others => ⟨[], ⟨draft.current.reverse :: group.finished, group.outer⟩ :: others⟩

def closeGroup (draft : Draft) : Except Fault Draft :=
  match draft.groups with
  | [] => .error .unopenedAlternates
  | group :: others =>
      let branches := (draft.current.reverse :: group.finished).reverse
      .ok ⟨.alternates branches :: group.outer, others⟩

def finish (draft : Draft) : Except Fault Pattern :=
  match draft.groups with
  | [] => .ok draft.current.reverse
  | _ :: _ => .error .unclosedAlternates

/-- Replace the latest part by a recursive one, unless it is recursive already. -/
def makeRecursive (draft : Draft) (part : Part) : Draft :=
  match draft.current with
  | .recursiveStart :: _ | .recursiveEnd :: _ => draft
  | _ :: rest => { draft with current := part :: rest }
  | [] => draft

/-- Read two stars.  The character before them is `previous`, and the text after them is `rest`.
The draft after the stars comes with the rest, which loses a slash that belongs to them. -/
def stars (draft : Draft) (previous : Option Char) (rest : List Char) : Draft × List Char :=
  let inGroup := !draft.groups.isEmpty
  if draft.current.isEmpty then
    match rest with
    | [] => (draft.push .recursiveStart, [])
    | '/' :: after => (draft.push .recursiveStart, after)
    | _ => (draft.pushStars, rest)
  else if previous = some '/' ∨ (inGroup ∧ (previous = some ',' ∨ previous = some '\x7b')) then
    match rest with
    | [] => (draft.makeRecursive .recursiveEnd, [])
    | '/' :: after => (draft.makeRecursive .recursiveMiddle, after)
    | c :: _ =>
        if inGroup ∧ (c = ',' ∨ c = '\x7d') then (draft.makeRecursive .recursiveEnd, rest)
        else (draft.pushStars, rest)
  else (draft.pushStars, rest)

theorem length_stars_le (draft : Draft) (previous : Option Char) (rest : List Char) :
    (draft.stars previous rest).2.length ≤ rest.length := by
  unfold stars
  dsimp only
  repeat' split
  all_goals simp

end Draft

/-- Give the latest range a new last character. -/
def extendRange (last : Char) : List (Char × Char) → Except Fault (List (Char × Char))
  | (first, _) :: others =>
      if last < first then .error (.invalidRange first last) else .ok ((first, last) :: others)
  | [] => .ok []

/-- Read a class up to its closing bracket.  The ranges read so far stand with the latest first;
`inRange` tells that a hyphen came last. -/
def readClass (first inRange : Bool) (ranges : List (Char × Char)) :
    List Char → Except Fault (List (Char × Char) × List Char)
  | [] => .error .unclosedClass
  | c :: rest =>
      if c = ']' ∧ !first then
        .ok ((if inRange then ('-', '-') :: ranges else ranges).reverse, rest)
      else if c = ']' ∨ (c = '-' ∧ first) then readClass false inRange ((c, c) :: ranges) rest
      else if c = '-' ∧ !inRange then readClass false true ranges rest
      else if inRange then
        match extendRange c ranges with
        | .error fault => .error fault
        | .ok ranges => readClass false false ranges rest
      else readClass false false ((c, c) :: ranges) rest

theorem length_lt_of_readClass {first inRange : Bool} {ranges found : List (Char × Char)}
    {source rest : List Char} (h : readClass first inRange ranges source = .ok (found, rest)) :
    rest.length < source.length := by
  induction source generalizing first inRange ranges with
  | nil => simp [readClass] at h
  | cons c source ih =>
      unfold readClass at h
      grind

/-- Whether a class is negated, and the text after the sign for it. -/
def classSign : List Char → Bool × List Char
  | '!' :: rest | '^' :: rest => (true, rest)
  | rest => (false, rest)

theorem length_classSign_le (source : List Char) :
    (classSign source).2.length ≤ source.length := by
  unfold classSign
  split <;> simp

/-- Read on from a draft.  The character that was read last is `previous`. -/
def readFrom (draft : Draft) (previous : Option Char) (source : List Char) :
    Except Fault Pattern :=
  match source with
  | [] => draft.finish
  | '?' :: rest => readFrom (draft.push .any) (some '?') rest
  | '*' :: '*' :: rest =>
      let slash := (draft.stars previous rest).2.length < rest.length
      readFrom (draft.stars previous rest).1 (some (if slash then '/' else '*'))
        (draft.stars previous rest).2
  | '*' :: rest => readFrom (draft.push .zeroOrMore) (some '*') rest
  | '[' :: rest =>
      match _found : readClass true false [] (classSign rest).2 with
      | .error fault => .error fault
      | .ok (ranges, after) =>
          readFrom (draft.push (.oneOf (classSign rest).1 ranges)) (some ']') after
  | '\x7b' :: rest => readFrom draft.openGroup (some '\x7b') rest
  | '\x7d' :: rest =>
      match draft.closeGroup with
      | .error fault => .error fault
      | .ok draft => readFrom draft (some '\x7d') rest
  | ',' :: rest => readFrom draft.comma (some ',') rest
  | ['\\'] => .error .danglingEscape
  | '\\' :: c :: rest => readFrom (draft.push (.literal c)) (some c) rest
  | c :: rest => readFrom (draft.push (.literal c)) (some c) rest
termination_by source.length
decreasing_by
  all_goals simp_wf
  all_goals
    first
    | omega
    | (have shorter := length_lt_of_readClass _found
       have := length_classSign_le rest
       omega)
    | (have shorter := draft.length_stars_le previous rest
       omega)

/-- The pattern that a text stands for. -/
def parse (source : String) : Except Fault Pattern :=
  readFrom .empty none source.toList

end Stencil.Glob
