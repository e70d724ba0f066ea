import Stencil.Proofs.Markup.LetterCase
import Stencil.Proofs.Preamble.Declarations
import Stencil.Proofs.Render.Rendering

/-!
# Composition in another letter case

The letter case of composition does not matter.  Names and keys of composition tags may be written in
either case, and so may the prefixes of a dialect and its name attribute.

A page that is written in another way has the same tokens, apart from the characters that its
composition tags are read from, and these are not looked at.  In another dialect every token has the
same role, and the same placeholders are filled in.
-/

namespace Stencil

open Text (Allows Spelling)

/-- Two dialects are the same apart from the letter case of prefixes and of the name attribute. -/
structure Dialect.Recased (dialect other : Dialect) : Prop where
  tagPrefix : Text.Recased dialect.tagPrefix.toList other.tagPrefix.toList
  variablePrefix : Text.Recased dialect.variablePrefix.toList other.variablePrefix.toList
  nameAttribute : Text.Recased dialect.nameAttribute.toList other.nameAttribute.toList
  opening : other.opening = dialect.opening
  closing : other.closing = dialect.closing
  reach : other.reach = dialect.reach

namespace Render

/-- Whether a token is an inclusion tag or a variable tag. -/
def composes (dialect : Dialect) (token : Markup.Token) : Bool :=
  roleOf dialect token != .plain

/-- The spelling of a token of a page.  Names and keys of composition tags are free. -/
def tokenSpelling (dialect : Dialect) (token : Markup.Token) : Spelling :=
  if composes dialect token then token.spelling else Text.fixed token.raw.toList

/-- The spelling of a page: its preamble, which is fixed, and its tokens. -/
def pageSpelling (dialect : Dialect) (source : String) : Spelling :=
  Text.fixed (Preamble.topLines source.toList).flatten ++
    (Markup.tokenize (Preamble.read source ∅).2).flatMap (tokenSpelling dialect)

/-- A token without what composition does not look at. -/
def essence (dialect : Dialect) (token : Markup.Token) : Markup.Token :=
  if composes dialect token then token.withRaw "" else token

variable {dialect other : Dialect}

/-! ## Tokens -/

theorem roleOf_withRaw (dialect : Dialect) (token : Markup.Token) (raw : String) :
    roleOf dialect (token.withRaw raw) = roleOf dialect token := by
  simp only [roleOf, Markup.Token.nameAfter?, Markup.Token.name?_withRaw]

theorem composes_withRaw (dialect : Dialect) (token : Markup.Token) (raw : String) :
    composes dialect (token.withRaw raw) = composes dialect token := by
  rw [composes, composes, roleOf_withRaw]

/-- What is written in a way that the spelling of a token allows is read as the token. -/
theorem essence_withRaw {token : Markup.Token} {raw : List Char}
    (allows : Allows (tokenSpelling dialect token) raw) :
    essence dialect (token.withRaw (String.ofList raw)) = essence dialect token := by
  rw [essence, essence, composes_withRaw]
  rw [tokenSpelling] at allows
  split
  · exact token.withRaw_withRaw _ _
  next plain =>
    rw [if_neg plain] at allows
    rw [Text.allows_fixed_iff.mp allows, String.ofList_toList, Markup.Token.withRaw_raw]

theorem map_fst_tokenSpelling {inside : Option String} {source : List Char}
    {reading : Markup.Reading} (found : Markup.Reading.next? inside source = some reading) :
    (tokenSpelling dialect reading.token).map Prod.fst = reading.token.raw.toList := by
  unfold tokenSpelling
  split
  · exact Markup.Reading.map_fst_spelling found
  · exact Text.map_fst_fixed _

theorem map_fst_flatMap_tokenSpelling (dialect : Dialect) (inside : Option String)
    (source : List Char) :
    ((Markup.tokensFrom inside source).flatMap (tokenSpelling dialect)).map Prod.fst = source := by
  fun_induction Markup.tokensFrom inside source with
  | case1 inside source nothing => exact (Markup.Reading.next?_eq_none nothing).symm
  | case2 inside source reading found ih =>
      rw [List.flatMap_cons, List.map_append, ih, map_fst_tokenSpelling found]
      exact Markup.Reading.whole_of_next? found

/-- A text that is written in another way has the same tokens, apart from what composition does not
look at. -/
theorem map_essence_tokensFrom {inside : Option String} {source others : List Char}
    (allows : Allows ((Markup.tokensFrom inside source).flatMap (tokenSpelling dialect)) others) :
    (Markup.tokensFrom inside others).map (essence dialect) =
      (Markup.tokensFrom inside source).map (essence dialect) := by
  fun_induction Markup.tokensFrom inside source generalizing others with
  | case1 inside source nothing =>
      obtain rfl := allows.recased.eq_nil
      rw [Markup.tokensFrom_nil]
  | case2 inside source reading found ih =>
      rw [List.flatMap_cons] at allows
      obtain ⟨raw, rest, rfl, first, behind⟩ := Text.allows_append_iff.mp allows
      -- Where a token ends depends on the text behind it, but not on the case of its letters.
      have recased := behind.recased
      rw [map_fst_flatMap_tokenSpelling] at recased
      have spelled : Allows reading.token.spelling raw := by
        have same := first
        rw [tokenSpelling] at same
        split at same
        · exact same
        · rw [Text.allows_fixed_iff.mp same, ← Markup.Reading.map_fst_spelling found]
          exact Text.allows_self _
      rw [Markup.tokensFrom_of_next? (Markup.Reading.next?_of_allows found spelled recased),
        List.map_cons, List.map_cons]
      exact congr (congrArg _ (essence_withRaw first)) (ih behind)

/-- A page that is written in another way declares the same, and its body is written in another
way. -/
theorem exists_body_of_allows {page respelled : String}
    (allows : Allows (pageSpelling dialect page) respelled.toList) (scope : Bindings) :
    ∃ body, Preamble.read respelled scope = ((Preamble.read page scope).1, body) ∧
      Allows ((Markup.tokenize (Preamble.read page scope).2).flatMap (tokenSpelling dialect))
        body.toList := by
  obtain ⟨lines, rest, whole, first, behind⟩ := Text.allows_append_iff.mp allows
  obtain rfl := Text.allows_fixed_iff.mp first
  rw [Preamble.read_body page ∅ scope] at behind
  have recased := behind.recased
  rw [Markup.tokenize, map_fst_flatMap_tokenSpelling, Preamble.read, String.toList_ofList] at recased
  -- The body does not begin like a declaration, so the preamble ends at the same place.
  have plain : rest.head? ≠ some '@' := by
    have other : ∀ c, (Preamble.readFrom scope page.toList).2.head? = some c →
        (c == '@') = false := by
      intro c first
      rw [beq_eq_false_iff_ne]
      rintro rfl
      exact Preamble.head?_readFrom scope page.toList first
    intro first
    cases recased.head?_of_caseless (Text.caseless_sign (by decide)) other '@' first
  refine ⟨String.ofList rest, ?_, by rwa [String.toList_ofList]⟩
  rw [Preamble.read, whole, Preamble.readFrom_topLines_append plain fun nothing =>
    (nothing ▸ recased).eq_nil]
  rfl

/-! ## Dialects -/

section Dialects

variable (recased : dialect.Recased other)

include recased

theorem substitute_recased :
    Placeholder.substitute other = Placeholder.substitute dialect := by
  funext scope source
  simp only [Placeholder.substitute, Placeholder.Markers.ofDialect, recased.opening,
    recased.closing, recased.reach]

theorem roleOf_recased (token : Markup.Token) : roleOf other token = roleOf dialect token := by
  simp only [roleOf, recased.tagPrefix.toLower_eq, recased.variablePrefix.toLower_eq]

theorem enter_recased (inclusion : Inclusion) : inclusion.enter other = inclusion.enter dialect := by
  funext scope template
  simp only [Inclusion.enter, substitute_recased recased]

end Dialects

namespace Composer

variable {composer : Composer} {scope : Bindings} {expand : Inclusion → Rendering String}
  {levels : Nat} {origin : Path}

/-- A token is read alike by what composition looks at. -/
theorem read_essence (draft : Draft) (token : Markup.Token) :
    composer.read scope expand draft (essence composer.dialect token) =
      composer.read scope expand draft token := by
  unfold essence
  split
  next composing =>
    have role : roleOf composer.dialect token ≠ .plain := bne_iff_ne.mp composing
    simp only [read, roleOf_withRaw, attributesOf, Markup.Token.attributes_withRaw,
      Markup.Token.opens_withRaw, Markup.Token.closes_withRaw]
    split
    next plain => exact absurd plain role
    · rfl
    · rfl
  · rfl

/-- A body that is written in another way is rendered alike. -/
theorem renderBody_of_allows {body respelled : String}
    (allows : Allows ((Markup.tokenize body).flatMap (tokenSpelling composer.dialect))
      respelled.toList) :
    composer.renderBody levels origin respelled scope =
      composer.renderBody levels origin body scope := by
  have loops : ∀ (expand : Inclusion → Rendering String) (tokens : List Markup.Token),
      tokens.foldlM (composer.read scope expand) .empty =
        (tokens.map (essence composer.dialect)).foldlM (composer.read scope expand) .empty := by
    intro expand tokens
    simp only [List.foldlM_map, read_essence]
  have same : (Markup.tokenize respelled).map (essence composer.dialect) =
      (Markup.tokenize body).map (essence composer.dialect) := map_essence_tokensFrom allows
  cases levels with
  | zero => rfl
  | succ levels =>
      unfold renderBody
      dsimp only
      rw [loops, same, ← loops]

section Dialects

variable {other : Dialect} (recased : composer.dialect.Recased other)

include recased

theorem read_recased :
    { composer with dialect := other }.read scope expand = composer.read scope expand := by
  funext draft token
  simp only [read, roleOf_recased recased, attributesOf, substitute_recased recased,
    recased.nameAttribute.toLower_eq]

theorem expand_recased {render : Path → String → Bindings → Rendering String} :
    { composer with dialect := other }.expand render = composer.expand render := by
  funext origin scope inclusion
  simp only [Composer.expand, enter_recased recased]

/-- In another dialect a body is rendered alike. -/
theorem renderBody_recased (levels : Nat) :
    { composer with dialect := other }.renderBody levels = composer.renderBody levels := by
  induction levels with
  | zero => rfl
  | succ levels ih =>
      funext origin body scope
      simp only [renderBody, ih, expand_recased recased, read_recased recased,
        substitute_recased recased]

end Dialects

/-- The letter case of composition does not matter.  A page is rendered alike, with the same output and
the same dependencies or with the same error, when letters in the names and in the keys of its
composition tags are written in the other case, and letters in the prefixes and the name attribute of
the dialect as well. -/
theorem run_recased {other : Dialect} (recased : composer.dialect.Recased other)
    {page respelled : String} (allows : Allows (pageSpelling composer.dialect page) respelled.toList)
    (origin : Path) (scope : Bindings) :
    (∀ levels, { composer with dialect := other }.run levels origin respelled scope =
        composer.run levels origin page scope) ∧
      ∀ levels, { composer with dialect := other }.render levels origin respelled scope =
        composer.render levels origin page scope := by
  have run : ∀ levels, { composer with dialect := other }.run levels origin respelled scope =
      composer.run levels origin page scope := by
    intro levels
    obtain ⟨body, read, spelled⟩ := exists_body_of_allows allows scope
    rw [run_eq, run_eq, read, renderBody_recased recased, renderBody_of_allows spelled]
  exact ⟨run, fun levels => congrArg Prod.fst (run levels)⟩

/-- The same page in other letters.  Its end tags are recognized, and so are its name attribute and its
variable tag, while its preamble, its values and the tag that composes nothing stay as they are. -/
theorem run_recased_mixed :
    let composer : Composer :=
      { dialect := {}, library := .ofList [(⟨"a.html"⟩, "<I>{{title}}|{{k}}|{{content}}")] }
    let other : Dialect := { tagPrefix := "T:", variablePrefix := "V:", nameAttribute := ":NAME" }
    let page := "@Who=You\n<t:x :name='a' title=Hi>{{Who}}<v:k>1</v:k></t:x><P CLASS=T>"
    let respelled := "@Who=You\n<T:X :NaMe='a' tITLE=Hi>{{Who}}<V:k>1</v:K></t:X><P CLASS=T>"
    composer.dialect.Recased other ∧
      Allows (pageSpelling composer.dialect page) respelled.toList ∧
        ({ composer with dialect := other }.run 2 ⟨"i.html"⟩ respelled ∅).1.map Rendered.content =
          .ok "<I>Hi|1|You<P CLASS=T>" := by
  intro composer other page respelled
  have recased : composer.dialect.Recased other :=
    ⟨by decide, by decide, by decide, rfl, rfl, rfl⟩
  have allows : Allows (pageSpelling composer.dialect page) respelled.toList := by decide +kernel
  have output : ((composer.run 2 ⟨"i.html"⟩ page ∅).1.map Rendered.content).toOption =
      some "<I>Hi|1|You<P CLASS=T>" := by decide +kernel
  refine ⟨recased, allows, ?_⟩
  rw [(run_recased recased allows ⟨"i.html"⟩ ∅).1]
  exact ok_of_toOption output

end Composer

end Render

end Stencil
