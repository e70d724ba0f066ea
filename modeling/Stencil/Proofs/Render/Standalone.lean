import Stencil.Proofs.Render.Noninterference
import Stencil.Proofs.Text.Affixes

/-!
# Templates on their own

A page that is nothing but an inclusion gives what its template gives as a page of its own, with no
inner text.  But the placeholders of the page are filled in after its inclusions are rendered, so
that a value which looks like a placeholder is filled in once more by every page around it.
-/

namespace Stencil

namespace Placeholder

variable {dialect : Dialect} {scope : Bindings}

/-- A text without the opening marker has no placeholders. -/
theorem substitute_eq_self {text : String}
    (free : ¬ dialect.opening.toList <:+: text.toList) : substitute dialect scope text = text :=
  if_pos (.inr (Text.offset?_isPrefixOf_eq_none_iff.mpr free))

@[simp]
theorem substitute_empty : substitute dialect scope "" = "" := by
  by_cases empty : dialect.opening = ""
  · exact if_pos (.inl empty)
  · apply substitute_eq_self
    simpa [List.infix_nil] using empty

end Placeholder

namespace Markup

/-- A page that does not begin with the sign of a tag begins with text. -/
theorem tokenize_text {page : String} {first : Char} {rest : List Char}
    (begins : page.toList = first :: rest) (plain : first ≠ '<') :
    ∃ raw others, tokenize page = .text raw :: others := by
  have text : Reading.next? none (first :: rest) =
      some ⟨.text (String.ofList ((first :: rest).takeWhile (· != '<'))),
        (first :: rest).dropWhile (· != '<'), none⟩ := by
    unfold Reading.next? Reading.markup?
    split <;> simp_all
  rw [tokenize, begins, tokensFrom]
  split
  next none => simp [text] at none
  next reading found =>
    rw [text] at found
    obtain rfl := Option.some.inj found
    exact ⟨_, _, rfl⟩

end Markup

namespace Render

/-- An inclusion with nothing in it only takes the inner text away. -/
theorem Inclusion.enter_bare {inclusion : Inclusion} (dialect : Dialect) (scope : Bindings)
    (template : String) (attributes : inclusion.attributes = ∅)
    (assignments : inclusion.assignments = ∅) (content : inclusion.content = "") :
    inclusion.enter dialect scope template =
      Preamble.read template (scope.set contentVariable "") := by
  have nothing : (∅ : Bindings).toList = [] := rfl
  have unchanged : ∀ bindings : Bindings, bindings.merge [] = bindings := fun _ => rfl
  have inner : Text.trim Text.isMargin "" = "" := rfl
  simp only [enter, attributes, assignments, content, nothing, unchanged, Bindings.mapValues,
    List.map_nil, Bindings.ofList, inner, Placeholder.substitute_empty, Preamble.set_read]
  rw [← Preamble.read_body template (scope.set contentVariable "") scope]

namespace Composer

open Rendering
open Text (NotSeparator Unseparated)

variable {composer : Composer} {source name : String} {template : Located}

/-- A page that is one self-closing inclusion tag without attributes.  Its template is a page. -/
structure Bare (composer : Composer) (source name : String) (template : Located) : Prop where
  alone : ∃ raw tag, Markup.tokenize source = [.selfClosingTag raw tag []] ∧
    Text.dropPrefix? tag composer.dialect.tagPrefix.toLower = some name
  found : search composer.library name = .ok template
  page : template.kind = .html

theorem Bare.read (bare : Bare composer source name template) (scope : Bindings) :
    Preamble.read source scope = (scope, source) := by
  rcases bare.alone with ⟨raw, tag, alone, _⟩
  apply Preamble.read_eq_self
  intro begins
  rcases List.head?_eq_some_iff.mp begins with ⟨rest, whole⟩
  obtain ⟨text, others, tokens⟩ := Markup.tokenize_text whole (by decide)
  rw [alone] at tokens
  cases tokens

/-- The body is rendered by filling in the placeholders of the output of the inclusion. -/
theorem Bare.renderBody (bare : Bare composer source name template) (levels : Nat) (origin : Path)
    (scope : Bindings) :
    ∃ inclusion : Inclusion, inclusion.name = name ∧ inclusion.attributes = ∅ ∧
      inclusion.assignments = ∅ ∧ inclusion.content = "" ∧
        composer.renderBody (levels + 1) origin source scope =
          composer.expand (composer.renderBody levels) origin scope inclusion >>=
            fun output => pure (Placeholder.substitute composer.dialect scope output) := by
  rcases bare.alone with ⟨raw, tag, alone, named⟩
  let token : Markup.Token := .selfClosingTag raw tag []
  have role : roleOf composer.dialect token = .inclusion tag name :=
    roleOf_eq_inclusion_iff.mpr ⟨rfl, named⟩
  have marked : markOf? composer.dialect token = some (.inclusion, tag) := by
    rw [markOf?, role]
    rfl
  let tree : Tree composer.dialect (.content false) :=
    .inclusion (.selfClosing token marked rfl rfl) .nil
  have whole : tree.tokens = Markup.tokenize source := alone.symm
  refine ⟨composer.inclusionOf scope token .empty, ?_, rfl, rfl, rfl, ?_⟩
  · exact (askedName_eq role).trans (templateName_of_unnamed scope name List.not_mem_nil)
  · rw [renderBody_eq_evaluate whole]
    simp only [tree, evaluate, close, Phrase.nothing, bind_assoc, pure_bind, Contents.prepend,
      Contents.empty, String.append_empty]

/-- The output of the inclusion is that of the template, without inner text. -/
theorem Bare.expand (bare : Bare composer source name template)
    (coherent : composer.library.Coherent) (levels : Nat) (origin : Path) {scope : Bindings}
    {inclusion : Inclusion} (named : inclusion.name = name) (attributes : inclusion.attributes = ∅)
    (assignments : inclusion.assignments = ∅) (content : inclusion.content = "") :
    (runFrom (composer.expand (composer.renderBody levels) origin scope inclusion) .empty).1 =
      (composer.run levels template.place.toPath template.content
        (scope.set Inclusion.contentVariable "")).1.map Rendered.content := by
  obtain ⟨last, reads, located⟩ :=
    @runFrom_locateAmong _ coherent composer.reuse name [] (Template.candidates name) .empty
      fun _ => Store.truthful_empty
  have same : last.SameBut composer.library .empty :=
    ⟨reads.truthful Store.truthful_empty, Store.truthful_empty, reads.fragments, reads.dependencies⟩
  have found : searchAmong composer.library name [] (Template.candidates name) = .ok template :=
    bare.found
  have fresh : (if composer.reuse then
      Store.empty.fragments[inclusion.fragmentKey origin scope]? else none) = none := by
    simp [Store.empty]
  rw [content_run, runFrom_expand]
  dsimp only
  rw [fresh, runFrom_produce, named, locate, located, found]
  dsimp only
  rw [inclusion.enter_bare composer.dialect scope template.content attributes assignments content]
  obtain ⟨⟨outcomes, _⟩, _⟩ := indifferent_renderBody coherent levels template.place.toPath
    (Preamble.read template.content (scope.set Inclusion.contentVariable "")).2
    (Preamble.read template.content (scope.set Inclusion.contentVariable "")).1 last .empty same
  rw [← outcomes]
  rcases runFrom (composer.renderBody levels _ _ _) last with ⟨_ | text, _⟩
  · rfl
  · simp only [bare.page, Template.Kind.wrap]

/-- The page gives what its template gives as a page at its own place, with the placeholders that
are left there filled in. -/
theorem Bare.run_succ (bare : Bare composer source name template)
    (coherent : composer.library.Coherent) (levels : Nat) (origin : Path) (scope : Bindings) :
    (composer.run (levels + 1) origin source scope).1.map Rendered.content =
      ((composer.run levels template.place.toPath template.content
        (scope.set Inclusion.contentVariable "")).1.map Rendered.content).map
          (Placeholder.substitute composer.dialect scope) := by
  obtain ⟨inclusion, named, attributes, assignments, content, renders⟩ :=
    bare.renderBody levels origin scope
  rw [content_run, bare.read, renders, runFrom_map,
    bare.expand coherent levels origin named attributes assignments content]

/-- The page fails as its template does. -/
theorem Bare.failed_iff (bare : Bare composer source name template)
    (coherent : composer.library.Coherent) {levels : Nat} {origin : Path} {scope : Bindings}
    {error : Error} :
    (composer.run (levels + 1) origin source scope).1 = .error error ↔
      (composer.run levels template.place.toPath template.content
        (scope.set Inclusion.contentVariable "")).1 = .error error := by
  have same := bare.run_succ coherent levels origin scope
  generalize (composer.run (levels + 1) origin source scope).1 = outcome at same ⊢
  generalize (composer.run levels _ _ _).1 = outcomeOther at same ⊢
  cases outcome <;> cases outcomeOther <;> simp_all [Except.map]

/-- In a coherent library, where a place identifies its template, a page that is one bare inclusion
gives what its template gives as a page of its own, without inner text and with the placeholders that
are left there filled in.  So it gives the same when no placeholder is left.  Where the template
stands as a page of its own does not matter, unless there are separators in the texts. -/
theorem run_standalone (bare : Bare composer source name template)
    (coherent : composer.library.Coherent) (origin : Path) (scope : Bindings) :
    (∀ levels, (composer.run (levels + 1) origin source scope).1.map Rendered.content =
      ((composer.run levels template.place.toPath template.content
        (scope.set Inclusion.contentVariable "")).1.map Rendered.content).map
          (Placeholder.substitute composer.dialect scope)) ∧
    (∀ levels rendered, (composer.run levels template.place.toPath template.content
        (scope.set Inclusion.contentVariable "")).1 = .ok rendered →
      ¬ composer.dialect.opening.toList <:+: rendered.content.toList →
        (composer.run (levels + 1) origin source scope).1.map Rendered.content =
          .ok rendered.content) ∧
    ((∀ path content, composer.library.fetch path = .ok (some content) → Unseparated content) →
      scope.IsMadeOf NotSeparator → ∀ elsewhere,
        ((∃ levels, (composer.run levels origin source scope).1 ≠ .error .tooDeep) ↔
          ∃ levels, (composer.run levels elsewhere template.content
            (scope.set Inclusion.contentVariable "")).1 ≠ .error .tooDeep) ∧
        ∀ levels more, (composer.run levels origin source scope).1 ≠ .error .tooDeep →
          (composer.run more elsewhere template.content
            (scope.set Inclusion.contentVariable "")).1 ≠ .error .tooDeep →
            (composer.run levels origin source scope).1.map Rendered.content =
              ((composer.run more elsewhere template.content
                (scope.set Inclusion.contentVariable "")).1.map Rendered.content).map
                  (Placeholder.substitute composer.dialect scope)) := by
  have here := fun levels => bare.run_succ coherent levels origin scope
  refine ⟨here, ?_, ?_⟩
  · intro levels rendered ran free
    rw [here, ran]
    exact congrArg Except.ok (Placeholder.substitute_eq_self free)
  · intro templates scopeMade elsewhere
    obtain ⟨path, fetched⟩ := fetch_of_searchAmong bare.found
    have givenMade : (scope.set Inclusion.contentVariable "").IsMadeOf NotSeparator :=
      scopeMade.set (by decide +kernel) Text.madeOf_empty
    obtain ⟨anywhere, alike⟩ := run_origin coherent templates (templates path _ fetched) givenMade
      template.place.toPath elsewhere
    rw [← anywhere]
    constructor
    · constructor
      · rintro ⟨_ | levels, accepted⟩
        · exact absurd (run_eq_error_iff.mpr rfl) accepted
        · exact ⟨levels, accepted ∘ (bare.failed_iff coherent).mpr⟩
      · rintro ⟨levels, accepted⟩
        exact ⟨levels + 1, accepted ∘ (bare.failed_iff coherent).mp⟩
    · rintro (_ | levels) more accepted acceptedOther
      · exact absurd (run_eq_error_iff.mpr rfl) accepted
      · rw [here, alike levels more (accepted ∘ (bare.failed_iff coherent).mpr) acceptedOther]

/-- The value that stands in for a placeholder is a placeholder itself.  The template leaves it as
it is, and the page around it fills it in. -/
theorem standalone_differs :
    let composer : Composer := { dialect := {}, library := .ofList [(⟨"p.html"⟩, "{{a}}")] }
    let scope : Bindings := .ofList [("a", "{{b}}"), ("b", "x")]
    composer.dialect.Valid ∧ composer.library.Coherent ∧
      Bare composer "<t:p/>" "p" ⟨Place.ofPath ⟨"p.html"⟩, .html, "{{a}}"⟩ ∧
        (composer.render 2 ⟨"index.html"⟩ "<t:p/>" scope).toOption.map Rendered.content = some "x" ∧
          (composer.render 1 ⟨"p.html"⟩ "{{a}}"
            (scope.set Inclusion.contentVariable "")).toOption.map Rendered.content =
              some "{{b}}" := by
  intro composer scope
  have found : search composer.library "p" = .ok ⟨Place.ofPath ⟨"p.html"⟩, .html, "{{a}}"⟩ :=
    ok_of_toOption (by decide +kernel)
  have bare : Bare composer "<t:p/>" "p" ⟨Place.ofPath ⟨"p.html"⟩, .html, "{{a}}"⟩ :=
    ⟨⟨"<t:p/>", "t:p", by decide +kernel, by decide +kernel⟩, found, rfl⟩
  refine ⟨by decide +kernel, Template.Library.coherent_ofList _, bare, ?_, ?_⟩
  · decide +kernel
  · decide +kernel

/-- No placeholder is left of the template. -/
theorem run_standalone_filled :
    let templates : List (Path × String) := [(⟨"p.html"⟩, "@b=2
<i>{{a}}{{b}}</i>")]
    let composer : Composer := { dialect := {}, library := .ofList templates }
    let scope : Bindings := .ofList [("a", "1")]
    (composer.run 2 ⟨"index.html"⟩ "<t:p/>" scope).1.map Rendered.content = .ok "<i>12</i>" := by
  intro templates composer scope
  have found : search composer.library "p" =
      .ok ⟨Place.ofPath ⟨"p.html"⟩, .html, "@b=2\n<i>{{a}}{{b}}</i>"⟩ :=
    ok_of_toOption (by decide +kernel)
  have bare : Bare composer "<t:p/>" "p"
      ⟨Place.ofPath ⟨"p.html"⟩, .html, "@b=2\n<i>{{a}}{{b}}</i>"⟩ :=
    ⟨⟨"<t:p/>", "t:p", by decide +kernel, by decide +kernel⟩, found, rfl⟩
  have output : (composer.run 1 ⟨"p.html"⟩ "@b=2\n<i>{{a}}{{b}}</i>"
      (scope.set Inclusion.contentVariable "")).1.toOption.map Rendered.content =
        some "<i>12</i>" := by decide +kernel
  have place : (Place.ofPath ⟨"p.html"⟩).toPath = ⟨"p.html"⟩ := by decide +kernel
  obtain ⟨rendered, ran, content⟩ := Option.map_eq_some_iff.mp output
  rw [← content]
  apply (run_standalone bare (Template.Library.coherent_ofList templates) ⟨"index.html"⟩ scope).2.1
  · rw [place]
    exact ok_of_toOption ran
  · rw [content]
    decide +kernel

end Composer

end Render

end Stencil
