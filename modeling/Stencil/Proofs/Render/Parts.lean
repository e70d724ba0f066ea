import Stencil.Proofs.Markup.Seams
import Stencil.Proofs.Placeholder
import Stencil.Proofs.Render.Noninterference

/-!
# Pages in parts

A page that is cut after a tag and a line feed, with all tags closed before the cut, is rendered
part by part.  Reading goes on behind the cut as on a new page, only with some output before it; no
placeholder goes across the cut; and what the first part has left in the store does not matter to
the second.
-/

namespace Stencil.Render

open Markup (Token)

namespace Draft

/-- Put text before the output. -/
def prepend (text : String) (draft : Draft) : Draft :=
  { draft with output := text ++ draft.output }

variable {draft : Draft} {text tag : String}

theorem prepend_empty (text : String) : empty.prepend text = ⟨text, []⟩ := by
  simp [prepend, empty]

theorem append_prepend (more : String) :
    (draft.prepend text).append more = (draft.append more).prepend text := by
  rcases draft with ⟨output, _ | ⟨level, outer⟩⟩
  · simp [append, prepend, String.append_assoc]
  · rfl

theorem closeInclusion_prepend :
    (draft.prepend text).closeInclusion tag =
      (draft.closeInclusion tag).map fun (inclusion, draft) => (inclusion, draft.prepend text) := by
  rcases draft with ⟨output, _ | ⟨level, outer⟩⟩
  · rfl
  · by_cases innermost : level.innermost = (.inclusion, tag) <;>
      simp [closeInclusion, prepend, innermost, Except.map]

theorem readInclusion_prepend (opens closes : Bool) (name : String) (attributes : Bindings) :
    (draft.prepend text).readInclusion opens closes tag name attributes =
      (draft.readInclusion opens closes tag name attributes).map fun (closed, draft) =>
        (closed, draft.prepend text) := by
  have opened : (if opens then (draft.prepend text).openInclusion tag name attributes
        else draft.prepend text) =
      prepend text (if opens then draft.openInclusion tag name attributes else draft) := by
    cases opens <;> rfl
  unfold readInclusion
  rw [opened]
  cases closes with
  | false => rfl
  | true =>
      dsimp only
      rw [if_pos rfl, if_pos rfl, closeInclusion_prepend]
      cases closeInclusion _ tag <;> rfl

theorem openAssignment_prepend (key : String) :
    (draft.prepend text).openAssignment tag key =
      (draft.openAssignment tag key).map (prepend text) := by
  rcases draft with ⟨output, _ | ⟨⟨inclusion, _ | assignment⟩, outer⟩⟩ <;> rfl

theorem closeAssignment_prepend :
    (draft.prepend text).closeAssignment tag = (draft.closeAssignment tag).map (prepend text) := by
  rcases draft with ⟨output, _ | ⟨⟨inclusion, _ | assignment⟩, outer⟩⟩
  · rfl
  · rfl
  · by_cases same : assignment.tag = tag <;>
      simp [closeAssignment, prepend, same, Except.map]

theorem readAssignment_prepend (opens closes : Bool) (key : String) :
    (draft.prepend text).readAssignment opens closes tag key =
      (draft.readAssignment opens closes tag key).map (prepend text) := by
  have opened : (if opens then (draft.prepend text).openAssignment tag key
        else .ok (draft.prepend text)) =
      (if opens then draft.openAssignment tag key else .ok draft).map (prepend text) := by
    cases opens with
    | false => rfl
    | true => exact openAssignment_prepend key
  unfold readAssignment
  rw [opened]
  cases closes with
  | false => rfl
  | true =>
      cases (if opens then draft.openAssignment tag key else .ok draft) with
      | error nesting => rfl
      | ok middle => exact closeAssignment_prepend

theorem finish_prepend : (draft.prepend text).finish = draft.finish.map (text ++ ·) := by
  rcases draft with ⟨output, _ | ⟨level, outer⟩⟩ <;> rfl

end Draft

/-- What two parts of a page give together. -/
def Rendered.append (first second : Rendered) : Rendered :=
  ⟨first.content ++ second.content, first.dependencies ∪ second.dependencies⟩

namespace Composer

open Rendering
open Text (NotSeparator Unseparated)

variable {composer : Composer} {scope : Bindings} {draft : Draft}

theorem advance_prepend (text : String) (token : Token) :
    composer.advance scope (draft.prepend text) token =
      (composer.advance scope draft token).map fun (closed, draft) =>
        (closed, draft.prepend text) := by
  unfold advance
  cases roleOf composer.dialect token with
  | plain => simp only [Draft.append_prepend, Except.map]
  | inclusion tag name => exact Draft.readInclusion_prepend _ _ _ _
  | assignment tag key =>
      dsimp only
      rw [Draft.readAssignment_prepend]
      cases draft.readAssignment token.opens token.closes tag key <;> rfl

/-- Output before a draft stays before it. -/
theorem read_prepend (expand : Inclusion → Rendering String) (text : String) (token : Token) :
    composer.read scope expand (draft.prepend text) token =
      composer.read scope expand draft token >>= fun draft => pure (draft.prepend text) := by
  rw [read_eq, read_eq, advance_prepend]
  rcases composer.advance scope draft token with nesting | ⟨_ | inclusion, next⟩
  · rfl
  · rfl
  · simp only [Except.map, bind_assoc, pure_bind, Draft.append_prepend]

theorem foldlM_read_prepend (expand : Inclusion → Rendering String) (text : String)
    (tokens : List Token) :
    tokens.foldlM (composer.read scope expand) (draft.prepend text) =
      tokens.foldlM (composer.read scope expand) draft >>= fun draft =>
        pure (draft.prepend text) := by
  induction tokens generalizing draft with
  | nil => simp
  | cons token others ih =>
      rw [List.foldlM_cons, List.foldlM_cons, read_prepend]
      simp only [bind_assoc, pure_bind, ih]

/-- Text before the first tag is added at once. -/
theorem foldlM_read_tokensFrom (expand : Inclusion → Rendering String) (source : List Char) :
    (Markup.tokensFrom none source).foldlM (composer.read scope expand) draft =
      (Markup.tokensFrom none (source.dropWhile (· != '<'))).foldlM (composer.read scope expand)
        (draft.append (String.ofList (source.takeWhile (· != '<')))) := by
  cases source with
  | nil => simp
  | cons c rest =>
      by_cases sign : c = '<'
      · simp [sign]
      · have text : Markup.Reading.next? none (c :: rest) = _ := Markup.Reading.markup?_text sign
        rw [Markup.tokensFrom_of_next? text, List.foldlM_cons]
        rfl

/-- A character of text may be added before the text after it is read. -/
theorem foldlM_read_cons (expand : Inclusion → Rendering String) {c : Char} (plain : c ≠ '<')
    (source : List Char) :
    (Markup.tokensFrom none (c :: source)).foldlM (composer.read scope expand) draft =
      (Markup.tokensFrom none source).foldlM (composer.read scope expand)
        (draft.append (String.singleton c)) := by
  rw [foldlM_read_tokensFrom, foldlM_read_tokensFrom expand source]
  simp [plain]

/-- The end of a rendering: all tags have to be closed, and the placeholders are filled in. -/
def conclude (composer : Composer) (scope : Bindings) (draft : Draft) : Rendering String :=
  match draft.finish with
  | .error error => throw error
  | .ok output => return Placeholder.substitute composer.dialect scope output

theorem renderBody_eq_conclude (levels : Nat) (origin : Path) (body : String) :
    composer.renderBody (levels + 1) origin body scope =
      (Markup.tokenize body).foldlM (composer.read scope
        (composer.expand (composer.renderBody levels) origin scope)) .empty >>=
          composer.conclude scope := rfl

/-- Output up to a line feed is filled in on its own. -/
theorem conclude_prepend {output : String} (feed : output.toList.getLast? = some '\n') :
    composer.conclude scope (draft.prepend output) =
      composer.conclude scope draft >>= fun text =>
        pure (Placeholder.substitute composer.dialect scope output ++ text) := by
  unfold conclude
  rw [Draft.finish_prepend]
  cases draft.finish with
  | error error => rfl
  | ok rest =>
      simp only [Except.map, pure_bind, Placeholder.substitute_append feed]

section Seam

variable {origin : Path} {body second : String} {token : Token}
  (last : (Markup.tokenize body).getLast? = some token) (completes : token.Completes)

include last completes

/-- Behind the cut, reading goes on with the tokens of the second part. -/
theorem foldlM_read_seam (expand : Inclusion → Rendering String) (draft : Draft)
    (second : String) :
    (Markup.tokenize (body ++ "\n" ++ second)).foldlM (composer.read scope expand) draft =
      (Markup.tokenize body).foldlM (composer.read scope expand) draft >>= fun draft =>
        (Markup.tokenize second).foldlM (composer.read scope expand) (draft.append "\n") := by
  have feed : ∀ draft, (Markup.tokenize ("\n" ++ second)).foldlM (composer.read scope expand) draft =
      (Markup.tokenize second).foldlM (composer.read scope expand) (draft.append "\n") := by
    intro draft
    have text : ("\n" ++ second).toList = '\n' :: second.toList := String.toList_append
    rw [Markup.tokenize, text, foldlM_read_cons expand (by decide)]
    rfl
  rw [String.append_assoc, Markup.tokenize_append ⟨token, last, completes⟩, List.foldlM_append]
  simp only [feed]

/-- When the first part is rendered, there is a draft at the cut whose tags are all closed. -/
theorem exists_draft_of_run {levels : Nat} {rendered : Rendered}
    (plain : (body ++ "\n").toList.head? ≠ some '@')
    (ran : (composer.run (levels + 1) origin (body ++ "\n") scope).1 = .ok rendered) :
    ∃ output store draft, output.toList.getLast? = some '\n' ∧
      runFrom ((Markup.tokenize body).foldlM (composer.read scope
        (composer.expand (composer.renderBody levels) origin scope)) .empty) .empty =
          (.ok draft, store) ∧
      draft.append "\n" = Draft.empty.prepend output ∧
      rendered = ⟨Placeholder.substitute composer.dialect scope output, store.dependencies⟩ := by
  have seam := @foldlM_read_seam composer scope body token last completes
    (composer.expand (composer.renderBody levels) origin scope) .empty ""
  have nothing : Markup.tokenize "" = [] := Markup.tokensFrom_nil none
  simp only [String.append_empty, nothing, List.foldlM_nil] at seam
  rw [run_eq, Preamble.read_eq_self plain, renderBody_eq_conclude, seam, bind_assoc] at ran
  rcases ended : runFrom ((Markup.tokenize body).foldlM (composer.read scope
    (composer.expand (composer.renderBody levels) origin scope)) .empty) .empty with
    ⟨error | draft, store⟩
  · rw [runFrom_bind, ended] at ran
    cases ran
  · rw [runFrom_bind, ended] at ran
    dsimp only at ran
    rw [pure_bind, conclude] at ran
    rcases draft with ⟨before, _ | ⟨level, outer⟩⟩
    · obtain rfl := Except.ok.inj ran
      refine ⟨before ++ "\n", store, ⟨before, []⟩, ?_, rfl, ?_, rfl⟩
      · simp [String.toList_append]
      · rw [Draft.prepend_empty]
        rfl
    · cases ran

/-- Without reuse, the second part is rendered as a page of its own. -/
theorem run_append_anew (anew : composer.reuse = false) {levels : Nat}
    (firstPlain : (body ++ "\n").toList.head? ≠ some '@')
    (secondPlain : second.toList.head? ≠ some '@') {rendered : Rendered}
    (ran : (composer.run levels origin (body ++ "\n") scope).1 = .ok rendered) :
    (composer.run levels origin (body ++ "\n" ++ second) scope).1 =
      (composer.run levels origin second scope).1.map rendered.append := by
  rcases levels with _ | levels
  · cases ran
  · obtain ⟨output, store, draft, feed, read, closed, rfl⟩ :=
      exists_draft_of_run last completes firstPlain ran
    have wholePlain : (body ++ "\n" ++ second).toList.head? ≠ some '@' := by
      rw [String.toList_append, List.head?_append]
      cases head : (body ++ "\n").toList.head? with
      | none => simp at head
      | some c => rwa [head] at firstPlain
    have goesOn : runFrom (composer.renderBody (levels + 1) origin (body ++ "\n" ++ second) scope)
        .empty = runFrom (composer.renderBody (levels + 1) origin second scope >>= fun text =>
          pure (Placeholder.substitute composer.dialect scope output ++ text)) store := by
      rw [renderBody_eq_conclude, renderBody_eq_conclude, foldlM_read_seam last completes,
        bind_assoc, runFrom_bind, read]
      dsimp only
      rw [closed, foldlM_read_prepend]
      simp only [bind_assoc, pure_bind, conclude_prepend feed]
    obtain ⟨⟨same, _⟩, adds⟩ :=
      independent_renderBody anew (levels + 1) origin second scope store .empty
    rw [run_eq, run_eq, Preamble.read_eq_self wholePlain, Preamble.read_eq_self secondPlain]
    dsimp only
    rw [goesOn, runFrom_map, same]
    generalize runFrom (composer.renderBody (levels + 1) origin second scope) store = ended
      at adds ⊢
    generalize runFrom (composer.renderBody (levels + 1) origin second scope) .empty = endedOther
      at adds ⊢
    have dependencies : ended.2.dependencies = store.dependencies ∪ endedOther.2.dependencies := by
      apply Std.ExtTreeSet.ext_mem
      intro place
      rw [Std.ExtTreeSet.mem_union_iff]
      constructor
      · exact adds.added place
      · rintro (before | after)
        · exact adds.kept place before
        · exact (adds.addedOther place after).resolve_left Std.ExtTreeSet.not_mem_empty
    rcases endedOther with ⟨error | text, lastOther⟩
    · rfl
    · simp only [Except.map, Rendered.append, dependencies]

end Seam

/-- A page is cut after a tag and a line feed, and its first part is rendered with a library that is
coherent, so that a place identifies its template.  Then the whole is rendered just when the second
part is as a page of its own.  It gives what the two parts give together, or fails as the second part
does. -/
theorem run_append (coherent : composer.library.Coherent)
    (templates : ∀ path content, composer.library.fetch path = .ok (some content) →
      Unseparated content)
    {body second : String} (bodyMade : Unseparated body) (secondMade : Unseparated second)
    (scopeMade : scope.IsMadeOf NotSeparator) {token : Token}
    (last : (Markup.tokenize body).getLast? = some token) (completes : token.Completes)
    (firstPlain : (body ++ "\n").toList.head? ≠ some '@')
    (secondPlain : second.toList.head? ≠ some '@') {levels : Nat} {origin : Path}
    {rendered : Rendered}
    (ran : (composer.run levels origin (body ++ "\n") scope).1 = .ok rendered) :
    ((∃ levels, (composer.run levels origin (body ++ "\n" ++ second) scope).1 ≠ .error .tooDeep) ↔
        ∃ levels, (composer.run levels origin second scope).1 ≠ .error .tooDeep) ∧
      ∀ levels more,
        (composer.run levels origin (body ++ "\n" ++ second) scope).1 ≠ .error .tooDeep →
          (composer.run more origin second scope).1 ≠ .error .tooDeep →
            (composer.run levels origin (body ++ "\n" ++ second) scope).1 =
              (composer.run more origin second scope).1.map rendered.append := by
  have comparable : Comparable True composer := ⟨coherent, templates, .inl trivial⟩
  have firstMade : Unseparated (body ++ "\n") :=
    Text.madeOf_append.mpr ⟨bodyMade, by decide +kernel⟩
  have wholeMade : Unseparated (body ++ "\n" ++ second) :=
    Text.madeOf_append.mpr ⟨firstMade, secondMade⟩
  -- With enough levels a page that is rendered is rendered alike without reuse.
  have settles : ∀ {source : String} {levels : Nat}, Unseparated source →
      (composer.run levels origin source scope).1 ≠ .error .tooDeep →
        ∃ enough, ∀ more, enough ≤ more →
          (composer.forgetful.run more origin source scope).1 =
            (composer.run levels origin source scope).1 := by
    intro source levels made accepted
    obtain ⟨enough, follows⟩ := run_forgetful comparable origin scope made scopeMade (fun _ => rfl)
      (.inl trivial) accepted
    exact ⟨enough, fun more deep => (follows more deep).2 trivial⟩
  have firstAccepted : (composer.run levels origin (body ++ "\n") scope).1 ≠ .error .tooDeep := by
    rw [ran]
    nofun
  obtain ⟨enough, first⟩ := settles firstMade firstAccepted
  have parts : ∀ more, enough ≤ more →
      (composer.forgetful.run more origin (body ++ "\n" ++ second) scope).1 =
        (composer.forgetful.run more origin second scope).1.map rendered.append := by
    intro more deep
    apply run_append_anew last completes rfl firstPlain secondPlain
    rw [first more deep, ran]
  have sameFailure : ∀ more, enough ≤ more →
      ((composer.forgetful.run more origin (body ++ "\n" ++ second) scope).1 = .error .tooDeep ↔
        (composer.forgetful.run more origin second scope).1 = .error .tooDeep) := by
    intro more deep
    rw [parts more deep]
    cases (composer.forgetful.run more origin second scope).1 <;> simp [Except.map]
  constructor
  · constructor
    · rintro ⟨levels, accepted⟩
      obtain ⟨enoughWhole, whole⟩ := settles wholeMade accepted
      refine ⟨max enough enoughWhole, accepted_of_forgetful comparable secondMade scopeMade ?_⟩
      rw [← whole (max enough enoughWhole) (by omega)] at accepted
      exact accepted ∘ (sameFailure _ (by omega)).mpr
    · rintro ⟨levels, accepted⟩
      obtain ⟨enoughSecond, rest⟩ := settles secondMade accepted
      refine ⟨max enough enoughSecond, accepted_of_forgetful comparable wholeMade scopeMade ?_⟩
      rw [← rest (max enough enoughSecond) (by omega)] at accepted
      exact accepted ∘ (sameFailure _ (by omega)).mp
  · intro levels more accepted acceptedSecond
    obtain ⟨enoughWhole, whole⟩ := settles wholeMade accepted
    obtain ⟨enoughSecond, rest⟩ := settles secondMade acceptedSecond
    let deep := max enough (max enoughWhole enoughSecond)
    rw [← whole deep (by omega), ← rest deep (by omega), parts deep (by omega)]

/-- The second part finds a template in the store. -/
theorem run_append_shared :
    let templates : List (Path × String) := [(⟨"a.html"⟩, "({{x}})"), (⟨"b.html"⟩, "b")]
    let composer : Composer := { dialect := {}, library := .ofList templates }
    let body := "<t:a/>"
    let second := "<t:a/><t:b/>"
    let scope : Bindings := .ofList [("x", "1")]
    (composer.run 2 ⟨"index.html"⟩ (body ++ "\n" ++ second) scope).1.toOption.map Rendered.content =
        some "(1)\n(1)b" ∧
      ∃ first, (composer.run 2 ⟨"index.html"⟩ (body ++ "\n") scope).1 = .ok first ∧
        (composer.run 2 ⟨"index.html"⟩ (body ++ "\n" ++ second) scope).1 =
          (composer.run 2 ⟨"index.html"⟩ second scope).1.map first.append := by
  intro templates composer body second scope
  have output : (composer.run 2 ⟨"index.html"⟩ (body ++ "\n" ++ second) scope).1.toOption.map
      Rendered.content = some "(1)\n(1)b" := by decide +kernel
  have outputFirst : (composer.run 2 ⟨"index.html"⟩ (body ++ "\n") scope).1.toOption.map
      Rendered.content = some "(1)\n" := by decide +kernel
  have outputSecond : (composer.run 2 ⟨"index.html"⟩ second scope).1.toOption.map
      Rendered.content = some "(1)b" := by decide +kernel
  obtain ⟨first, ran, -⟩ := Option.map_eq_some_iff.mp outputFirst
  have texts : ∀ entry ∈ templates, Unseparated entry.2 := by decide +kernel
  have held : ∀ path content, composer.library.fetch path = .ok (some content) →
      Unseparated content := by
    intro path content found
    obtain ⟨written, member⟩ := Template.Library.mem_of_fetch_ofList found
    exact texts _ member
  have bodyMade : Unseparated body := by decide +kernel
  have secondMade : Unseparated second := by decide +kernel
  have scopeMade : scope.IsMadeOf NotSeparator := Bindings.isMadeOf_empty.merge (by decide +kernel)
  have last : (Markup.tokenize body).getLast? = some (.selfClosingTag "<t:a/>" "t:a" []) := by
    decide +kernel
  refine ⟨output, first, ok_of_toOption ran, ?_⟩
  apply (run_append (Template.Library.coherent_ofList templates) held bodyMade secondMade scopeMade
    last trivial (by decide +kernel) (by decide +kernel) (ok_of_toOption ran)).2
  · intro deep
    rw [deep] at output
    cases output
  · intro deep
    rw [deep] at outputSecond
    cases outputSecond

end Composer

end Stencil.Render
