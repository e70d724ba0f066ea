import Stencil.Proofs.Render.Characters
import Stencil.Render.Page

/-!
# Keys of fragments

The key of a fragment puts the page, the inclusion and the scope into one text.  As long as no part
holds the sign that ends it there, the key tells all of them apart.  The key itself escapes nothing:
an inclusion with two attributes has the same key as one whose first attribute holds the text of
both.
-/

namespace Stencil.Render

open Text (NotSeparator)

namespace Inclusion

variable {inclusion other : Inclusion} {origin elsewhere : Path} {scope scopeOther : Bindings}

/-- What a key tells: the page, all of the inclusion but the name of its tag, and the scope. -/
def SameParts (origin elsewhere : Path) (inclusion other : Inclusion)
    (scope scopeOther : Bindings) : Prop :=
  origin = elsewhere ∧ inclusion.name = other.name ∧ inclusion.content = other.content ∧
    inclusion.attributes = other.attributes ∧ inclusion.assignments = other.assignments ∧
      scope = scopeOther

/-- No part of an inclusion and of the scope around it holds a character that ends it in the key. -/
structure Delimited (inclusion : Inclusion) (scope : Bindings) : Prop where
  name : '\x1d' ∉ inclusion.name.toList
  content : '\x1d' ∉ inclusion.content.toList
  attributes : inclusion.attributes.Delimited
  assignments : inclusion.assignments.Delimited
  scope : scope.Delimited

theorem IsMadeOf.delimited (made : inclusion.IsMadeOf NotSeparator)
    (scopeMade : scope.IsMadeOf NotSeparator) : inclusion.Delimited scope where
  name member := (made.name _ member).1 rfl
  content member := (made.content _ member).1 rfl
  attributes := made.attributes.delimited
  assignments := made.assignments.delimited
  scope := scopeMade.delimited

/-- Delimited inclusions have one key only if they agree in all that the key tells.  Whatever the
path of the page holds, the other parts are found from the end of the key. -/
theorem fragmentKey_inj (delimited : inclusion.Delimited scope)
    (delimitedOther : other.Delimited scopeOther) :
    inclusion.fragmentKey origin scope = other.fragmentKey elsewhere scopeOther ↔
      SameParts origin elsewhere inclusion other scope scopeOther := by
  have apart := @Bindings.group_not_mem_flatten
  unfold fragmentKey SameParts
  rw [Text.append_group_inj (apart delimited.scope) (apart delimitedOther.scope),
    Text.append_group_inj (apart delimited.assignments) (apart delimitedOther.assignments),
    Text.append_group_inj (apart delimited.attributes) (apart delimitedOther.attributes),
    Text.append_group_inj delimited.content delimitedOther.content,
    Text.append_group_inj delimited.name delimitedOther.name,
    Bindings.flatten_inj delimited.scope delimitedOther.scope,
    Bindings.flatten_inj delimited.assignments delimitedOther.assignments,
    Bindings.flatten_inj delimited.attributes delimitedOther.attributes, ← Path.ext_iff]
  simp only [and_assoc]

/-! ## Inclusions with one key -/

/-- The first of two attributes with the text of both for its value. -/
def absorb (first second : String × String) : String × String :=
  (first.1, first.2 ++ "\x1e" ++ second.1 ++ "\x1f" ++ second.2)

theorem entryText_absorb (first second : String × String) :
    Bindings.entryText (absorb first second) =
      Bindings.entryText first ++ Bindings.entryText second := by
  simp [absorb, Bindings.entryText, String.append_assoc]

/-- Bindings with two names have the same text as some that have one name less. -/
theorem exists_flatten_eq {bindings : Bindings} (many : 1 < bindings.toList.length) :
    ∃ fewer : Bindings, fewer ≠ bindings ∧ fewer.flatten = bindings.flatten := by
  have ordered := Bindings.ordered_toList bindings
  obtain ⟨first, second, rest, listed⟩ : ∃ first second rest,
      bindings.toList = first :: second :: rest := by
    generalize bindings.toList = all at many ⊢
    rcases all with _ | ⟨first, _ | ⟨second, rest⟩⟩
    · cases many
    · exact absurd many (Nat.lt_irrefl 1)
    · exact ⟨first, second, rest, rfl⟩
  rw [listed, List.pairwise_cons, List.pairwise_cons] at ordered
  obtain ⟨before, -, others⟩ := ordered
  have fewer : (absorb first second :: rest).Pairwise Bindings.Precedes :=
    List.pairwise_cons.mpr ⟨fun _ member => before _ (List.mem_cons_of_mem _ member), others⟩
  have relisted := Bindings.toList_ofList_of_ordered fewer
  refine ⟨.ofList (absorb first second :: rest), fun same => ?_, ?_⟩
  · have lengths := congrArg List.length relisted
    rw [same, listed] at lengths
    simp at lengths
  · rw [Bindings.flatten_eq, Bindings.flatten_eq, relisted, listed]
    simp [String.join_cons, entryText_absorb, String.append_assoc]

/-- The key of an inclusion tells it from all others of the same kind as long as no part of it holds
a character that ends the part in the key.  It does not tell an inclusion with two attributes from
one whose first attribute holds that text. -/
theorem fragmentKey_eq_iff (inclusion : Inclusion) :
    (∀ (other : Inclusion) (origin elsewhere : Path) (scope scopeOther : Bindings),
        inclusion.Delimited scope → other.Delimited scopeOther →
          (inclusion.fragmentKey origin scope = other.fragmentKey elsewhere scopeOther ↔
            SameParts origin elsewhere inclusion other scope scopeOther)) ∧
      (1 < inclusion.attributes.toList.length →
        ∃ attributes, attributes ≠ inclusion.attributes ∧ ∀ origin scope,
          fragmentKey { inclusion with attributes } origin scope =
            inclusion.fragmentKey origin scope) := by
  refine ⟨fun _ _ _ _ _ => fragmentKey_inj, fun many => ?_⟩
  obtain ⟨attributes, apart, same⟩ := exists_flatten_eq many
  exact ⟨attributes, apart, fun origin scope => by simp only [fragmentKey, same]⟩

/-- An inclusion of the template `a` with nothing but attributes. -/
def ofAttributes (attributes : List (String × String)) : Inclusion :=
  ⟨"t:a", "a", .ofList attributes, ∅, ""⟩

theorem delimited_ofAttributes {attributes : List (String × String)}
    (delimited : ∀ given ∈ attributes, Bindings.EntryDelimited given.1 given.2) :
    (ofAttributes attributes).Delimited ∅ where
  name := (by decide : '\x1d' ∉ "a".toList)
  content := (by decide : '\x1d' ∉ "".toList)
  attributes := Bindings.delimited_ofList delimited
  assignments := Bindings.isMadeOf_empty.delimited
  scope := Bindings.isMadeOf_empty.delimited

/-- A key may hold the character that ends values, a value the one that ends keys, and the path of
the page the one that ends groups. -/
theorem fragmentKey_eq_iff_pair :
    let first := ofAttributes [("x\x1e", "1\x1f")]
    let second := ofAttributes [("x\x1e", "1"), ("y", "2")]
    first.Delimited ∅ ∧ second.Delimited ∅ ∧
      first.fragmentKey ⟨"\x1d"⟩ ∅ ≠ second.fragmentKey ⟨"\x1d"⟩ ∅ ∧
      1 < second.attributes.toList.length ∧
      ∃ attributes, attributes ≠ second.attributes ∧ ∀ origin scope,
        fragmentKey { second with attributes } origin scope = second.fragmentKey origin scope := by
  intro first second
  have delimited : first.Delimited ∅ := by
    apply delimited_ofAttributes
    rw [List.forall_mem_singleton]
    exact ⟨by decide, by decide, by decide, by decide⟩
  have also : second.Delimited ∅ := by
    apply delimited_ofAttributes
    rw [List.forall_mem_cons, List.forall_mem_singleton]
    exact ⟨⟨by decide, by decide, by decide, by decide⟩,
      ⟨by decide, by decide, by decide, by decide⟩⟩
  have many : 1 < second.attributes.toList.length := by decide +kernel
  refine ⟨delimited, also, fun same => ?_, many, (fragmentKey_eq_iff second).2 many⟩
  have parts := ((fragmentKey_eq_iff first).1 second _ _ _ _ delimited also).mp same
  exact absurd parts.2.2.2.1 (by decide +kernel)

/-- A page includes a template twice, with one attribute and with two.  The fragments have one key,
so the second inclusion is answered with the output of the first. -/
theorem exists_shared_key :
    let library : Template.Library := .ofList [(⟨"a.html"⟩, "{{x}}|{{y}}")]
    let page := "<t:a x='1\x1ey\x1f2'/>,<t:a x='1' y='2'/>"
    let output (reuse : Bool) :=
      (Composer.run ⟨{}, library, reuse⟩ 2 ⟨"i.html"⟩ page ∅).1.toOption.map Rendered.content
    (ofAttributes [("x", "1\x1ey\x1f2")]).fragmentKey ⟨"i.html"⟩ ∅ =
        (ofAttributes [("x", "1"), ("y", "2")]).fragmentKey ⟨"i.html"⟩ ∅ ∧
      (ofAttributes [("x", "1\x1ey\x1f2")]).attributes ≠
        (ofAttributes [("x", "1"), ("y", "2")]).attributes ∧
        output true = some "1\x1ey\x1f2|,1\x1ey\x1f2|" ∧
          output false = some "1\x1ey\x1f2|,1|2" := by
  decide +kernel

end Inclusion

end Stencil.Render
