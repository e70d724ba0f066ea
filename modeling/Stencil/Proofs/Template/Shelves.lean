import Stencil.Proofs.Disk.Walks
import Stencil.Proofs.Template.Coherence
import Stencil.Proofs.Text.Separators
import Stencil.Proofs.Text.Utf8

/-!
# Templates in files and in memory

The same templates may be kept in memory or in the files below a directory.  A path that does not
leave the directory leads to the same text in both, and to places that differ in the directory only.
What such a path would find outside is not compared.
-/

namespace Stencil

/-- The files in a directory are the given templates, each with a path of names. -/
structure Disk.Stores (disk : Disk) (root : Place) (templates : List (Path × String)) : Prop where
  named : ∀ path text, (path, text) ∈ templates → ∃ names : List Name, path.components = names.map .name
  read_iff : ∀ names content, disk.read (root.below names).toPath = .ok (.file content) ↔
    ∃ path text, (path, text) ∈ templates ∧ path.components = names.map .name ∧
      content = text.toUTF8

/-- Without links, the files in a directory are what the disk holds there. -/
theorem Disk.Plain.stores {disk : Disk} (plain : disk.Plain) {root : Place}
    (absolute : root.Absolute) {templates : List (Path × String)}
    (held : ∀ path text, (path, text) ∈ templates → ∃ names : List Name,
      path.components = names.map .name ∧ (root.below names).Reachable ∧
        disk.get? (root.names ++ names) = some (.file text.toUTF8))
    (all : ∀ names content, disk.get? (root.names ++ names) = some (.file content) →
      ∃ path text, (path, text) ∈ templates ∧ path.components = names.map .name) :
    disk.Stores root templates := by
  have injective : ∀ first second : List Name,
      first.map Component.name = second.map Component.name → first = second :=
    fun _ _ => (List.map_inj_right fun _ _ => Component.name.inj).mp
  constructor
  · intro path text member
    obtain ⟨names, named, -⟩ := held path text member
    exact ⟨names, named⟩
  · intro names content
    have here : (root.below names).Absolute := absolute
    rw [read_toPath plain here]
    constructor
    · rintro ⟨-, there⟩
      obtain ⟨path, text, member, named⟩ := all names content there
      obtain ⟨others, same, -, kept⟩ := held path text member
      obtain rfl := injective others names (same.symm.trans named)
      refine ⟨path, text, member, named, ?_⟩
      exact Entry.file.inj (Option.some.inj (there.symm.trans kept))
    · rintro ⟨path, text, member, named, rfl⟩
      obtain ⟨others, same, reachable, kept⟩ := held path text member
      obtain rfl := injective others names (same.symm.trans named)
      exact ⟨reachable, kept⟩

namespace Template.Library

variable {library : Library} {path : Path}

/-- The library, with a fault for every question about a place that is not inside. -/
def confined (library : Library) (inside : Place → Bool) (fault : Disk.Fault) : Library where
  identify := library.identify
  fetch path := if inside (library.identify path) then library.fetch path else .error fault

theorem Coherent.confined (coherent : library.Coherent) (inside : Place → Bool)
    (fault : Disk.Fault) : (library.confined inside fault).Coherent := by
  intro path other same
  have same : library.identify path = library.identify other := same
  simp only [Library.confined, same, coherent same]

theorem fetch_of_confined {inside : Place → Bool} {fault : Disk.Fault} {content : String}
    (found : (library.confined inside fault).fetch path = .ok (some content)) :
    library.fetch path = .ok (some content) := by
  simp only [confined] at found
  split at found
  · exact found
  · cases found

/-- Paths that stay inside of a directory find the same texts in both libraries, at places that
differ in the directory.  In the first library all others come to a fault. -/
structure Moved (root : Place) (fault : Disk.Fault) (library other : Library) : Prop where
  inside : ∀ path names, library.identify path = ⟨.above 0, names⟩ →
    other.identify path = root.below names ∧ other.fetch path = library.fetch path
  outside : ∀ path, (library.identify path).anchor ≠ .above 0 → library.fetch path = .error fault

section Stores

variable {disk : Disk} {root : Place} {templates : List (Path × String)}
  (stores : disk.Stores root templates)

include stores

/-- What stands at names in the directory is the template with these names. -/
theorem fetch_below_of_stores {names : List Name} (leads : root.resolve path = root.below names)
    (inside : Place.ofPath path = ⟨.above 0, names⟩) :
    (below disk root).fetch path = (ofList templates).fetch path := by
  have place : ∀ {written : Path} {others : List Name},
      written.components = others.map .name → Place.ofPath written = ⟨.above 0, others⟩ := by
    intro written others named
    rw [Place.ofPath, named, Place.foldl_follow_names]
    rfl
  have asked : (below disk root).fetch path =
      if disk.isFile (root.below names).toPath then
        (disk.readText (root.below names).toPath).map some else .ok none := by
    simp only [below, leads]
  rw [asked]
  rcases found : (ofList templates).fetch path with fault | _ | text
  · cases found
  · rw [if_neg]
    intro file
    obtain ⟨content, read⟩ := Disk.isFile_iff.mp file
    obtain ⟨written, text, member, named, -⟩ := (stores.read_iff names content).mp read
    obtain ⟨other, there⟩ := exists_fetch_ofList member ((place named).trans inside.symm)
    rw [found] at there
    cases there
  · obtain ⟨written, same, member⟩ := written_of_fetch_ofList found
    obtain ⟨others, named⟩ := stores.named written text member
    rw [place named, inside] at same
    obtain rfl := congrArg Place.names same
    have read := (stores.read_iff others text.toUTF8).mpr ⟨written, text, member, named, rfl⟩
    rw [if_pos (Disk.isFile_iff.mpr ⟨_, read⟩), Disk.readText, read]
    dsimp only
    rw [Text.fromUTF8?_toUTF8]
    rfl

/-- What is found in the directory is one of the templates. -/
theorem mem_of_fetch_confined {fault : Disk.Fault} {content : String}
    (found : ((below disk root).confined (·.Within root) fault).fetch path = .ok (some content)) :
    ∃ written, (written, content) ∈ templates := by
  simp only [confined] at found
  split at found
  next inside =>
    obtain ⟨anchor, rest, names⟩ := of_decide_eq_true inside
    have leads : root.resolve path = root.below rest := Place.ext anchor names.symm
    simp only [below, leads] at found
    split at found
    next file =>
      obtain ⟨bytes, read⟩ := Disk.isFile_iff.mp file
      obtain ⟨written, text, member, -, rfl⟩ := (stores.read_iff rest bytes).mp read
      rw [Disk.readText, read] at found
      dsimp only at found
      rw [Text.fromUTF8?_toUTF8] at found
      obtain rfl := Option.some.inj (Except.ok.inj found)
      exact ⟨written, member⟩
    · cases found
  · cases found

/-- The templates in memory are those of the directory. -/
theorem moved_of_stores (absolute : root.Absolute) (fault : Disk.Fault) :
    Moved root fault ((ofList templates).confined (·.anchor = .above 0) fault)
      ((below disk root).confined (·.Within root) fault) := by
  constructor
  · intro path names inside
    have inside : Place.ofPath path = ⟨.above 0, names⟩ := inside
    have leads : root.resolve path = root.below names := Place.resolve_of_ofPath absolute inside
    have within : (root.resolve path).Within root := by
      rw [leads]
      exact ⟨rfl, List.prefix_append _ _⟩
    have known : (Place.ofPath path).anchor = .above 0 := by rw [inside]
    refine ⟨leads, ?_⟩
    have asked : ((below disk root).confined (·.Within root) fault).fetch path =
        (below disk root).fetch path := if_pos (decide_eq_true within)
    have askedOther : ((ofList templates).confined (·.anchor = .above 0) fault).fetch path =
        (ofList templates).fetch path := if_pos (decide_eq_true known)
    rw [asked, askedOther, fetch_below_of_stores stores leads inside]
  · intro path outside
    exact if_neg fun known => outside (of_decide_eq_true known)

end Stores

end Template.Library

end Stencil
