import Stencil.Template.Files

/-!
# Coherent libraries

The place of a template is to identify it.  A library keeps to that when all paths that lead to one
place hold the same template, as they do in a list of texts and in the files on a disk.  What is
remembered about a template is only right in a library that does.
-/

namespace Stencil.Template.Library

/-- Paths that lead to one place hold the same template. -/
def Coherent (library : Library) : Prop :=
  ∀ ⦃path other : Path⦄, library.identify path = library.identify other →
    library.fetch path = library.fetch other

-- A library that has a text of its own for each path, but one place for all of them.
example : ¬(Library.mk (fun _ => .here) fun path => .ok (some path.text)).Coherent :=
  fun coherent => absurd (Except.ok.inj (@coherent ⟨"a"⟩ ⟨"b"⟩ rfl)) (by decide)

theorem coherent_ofList (templates : List (Path × String)) : (ofList templates).Coherent := by
  intro path other same
  have places : Place.ofPath path = Place.ofPath other := same
  simp only [ofList, places]

/-- A list of texts has no other templates than those texts, at their places. -/
theorem written_of_fetch_ofList {templates : List (Path × String)} {path : Path} {content : String}
    (found : (ofList templates).fetch path = .ok (some content)) :
    ∃ written, Place.ofPath written = Place.ofPath path ∧ (written, content) ∈ templates := by
  have held : ∀ (shelf : Std.ExtTreeMap Place String),
      (templates.foldl (fun shelf template => shelf.insert (Place.ofPath template.1) template.2)
        shelf)[Place.ofPath path]? = some content →
          shelf[Place.ofPath path]? = some content ∨
            ∃ written, Place.ofPath written = Place.ofPath path ∧ (written, content) ∈ templates := by
    clear found
    induction templates with
    | nil => exact fun shelf found => .inl found
    | cons template others ih =>
        intro shelf found
        rcases ih _ found with found | ⟨written, same, member⟩
        · simp only [Std.ExtTreeMap.getElem?_insert, Std.compare_eq_iff_eq] at found
          split at found
          next same => exact .inr ⟨template.1, same, by simp [← Option.some.inj found]⟩
          · exact .inl found
        · exact .inr ⟨written, same, List.mem_cons_of_mem _ member⟩
  have found := held ∅ (Except.ok.inj found)
  simpa using found

theorem mem_of_fetch_ofList {templates : List (Path × String)} {path : Path} {content : String}
    (found : (ofList templates).fetch path = .ok (some content)) :
    ∃ written, (written, content) ∈ templates := by
  obtain ⟨written, -, member⟩ := written_of_fetch_ofList found
  exact ⟨written, member⟩

/-- A library of given texts has a text for each of their paths. -/
theorem exists_fetch_ofList {templates : List (Path × String)} {path written : Path} {text : String}
    (member : (written, text) ∈ templates) (same : Place.ofPath written = Place.ofPath path) :
    ∃ content, (ofList templates).fetch path = .ok (some content) := by
  have held : ∀ (shelf : Std.ExtTreeMap Place String),
      (∃ template ∈ templates, Place.ofPath template.1 = Place.ofPath path) ∨
          Place.ofPath path ∈ shelf →
        Place.ofPath path ∈ templates.foldl
          (fun shelf template => shelf.insert (Place.ofPath template.1) template.2) shelf := by
    clear member
    induction templates with
    | nil => simp
    | cons template others ih =>
        rintro shelf (⟨first, member, leads⟩ | held)
        · rcases List.mem_cons.mp member with rfl | member
          · exact ih _ (.inr (Std.ExtTreeMap.mem_insert.mpr (.inl (Std.compare_eq_iff_eq.mpr leads))))
          · exact ih _ (.inl ⟨first, member, leads⟩)
        · exact ih _ (.inr (Std.ExtTreeMap.mem_insert.mpr (.inr held)))
  have there := held ∅ (.inl ⟨(written, text), member, same⟩)
  obtain ⟨content, found⟩ :=
    Option.isSome_iff_exists.mp (Std.ExtTreeMap.mem_iff_isSome_getElem?.mp there)
  exact ⟨content, congrArg Except.ok found⟩

theorem coherent_below (disk : Disk) (root : Place) : (below disk root).Coherent := by
  intro path other same
  have places : root.resolve path = root.resolve other := same
  simp only [below, places]

end Stencil.Template.Library
