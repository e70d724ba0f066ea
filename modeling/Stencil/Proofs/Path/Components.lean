import Stencil.Disk.Step

/-!
# Components of written paths

A path that is written from the root and names has these for components again, and nothing behind
them.  So what is asked of such a path is answered from the names.
-/

namespace Stencil

namespace Component

@[simp]
theorem ofPiece?_nil : ofPiece? [] = none := rfl

/-- The piece that a name is written as stands for that name. -/
@[simp]
theorem ofPiece?_text (entry : Name) : ofPiece? entry.text.toList = some (name entry) := by
  have apart : entry.text.toList ≠ ['.', '.'] := by
    intro same
    apply entry.ne_parent
    rw [← String.ofList_toList (s := entry.text), same]
  rw [ofPiece?, if_neg apart, String.ofList_toList, Name.ofText?_text, Option.map_some]

/-- A component that may stand behind others. -/
def Inner : Component → Prop
  | parent | name _ => True
  | root | current => False

theorem inner_names (names : List Name) :
    ∀ component ∈ names.map Component.name, component.Inner := by
  intro component member
  obtain ⟨entry, -, rfl⟩ := List.mem_map.mp member
  trivial

/-- Names and an inner component behind them. -/
theorem inner_concat (names : List Name) {last : Component} (inner : last.Inner) :
    ∀ component ∈ names.map Component.name ++ [last], component.Inner := by
  intro component member
  rcases List.mem_append.mp member with member | member
  · exact inner_names names component member
  · rwa [List.mem_singleton.mp member]

/-- The piece that an inner component is written as stands for that component. -/
theorem Inner.ofPiece? {component : Component} (inner : component.Inner) :
    Component.ofPiece? component.text.toList = some component := by
  cases component with
  | root => cases inner
  | current => cases inner
  | parent => rfl
  | name entry => exact ofPiece?_text entry

/-- The piece of an inner component is not blank, and is not the dot that repeats a directory. -/
theorem Inner.piece_ne {component : Component} (inner : component.Inner) :
    component.text.toList ≠ [] ∧ component.text.toList ≠ ['.'] := by
  have stands := inner.ofPiece?
  constructor <;> intro same <;> rw [same] at stands <;> cases stands

/-- Only inner components are written as pieces. -/
theorem inner_of_ofPiece? {piece : List Char} {component : Component}
    (found : ofPiece? piece = some component) : component.Inner := by
  unfold ofPiece? at found
  split at found
  · obtain rfl := Option.some.inj found
    trivial
  · obtain ⟨entry, -, rfl⟩ := Option.map_eq_some_iff.mp found
    trivial

/-- Of two lists of components, one comes no later than the other. -/
theorem isLE_total (first second : List Component) :
    ((compare first second).isLE || (compare second first).isLE) = true := by
  rw [@Std.OrientedCmp.eq_swap _ compare _ first second]
  cases compare second first <;> rfl

end Component

namespace Path

/-- Names as the pieces that they are written as. -/
def piecesOf (names : List Name) : List (List Char) :=
  names.map (·.text.toList)

@[simp]
theorem piecesOf_nil : piecesOf [] = [] := rfl

@[simp]
theorem piecesOf_cons (first : Name) (rest : List Name) :
    piecesOf (first :: rest) = first.text.toList :: piecesOf rest := rfl

theorem pieces_of_noSlash {piece : List Char} (noSlash : '/' ∉ piece) :
    pieces piece = [piece] := by
  induction piece with
  | nil => rfl
  | cons c rest ih =>
      rw [List.mem_cons, not_or] at noSlash
      simp only [pieces, Ne.symm noSlash.1, if_false, ih noSlash.2]

/-- There is no slash in the pieces between slashes. -/
theorem noSlash_of_mem_pieces {chars piece : List Char} (member : piece ∈ pieces chars) :
    '/' ∉ piece := by
  induction chars generalizing piece with
  | nil =>
      obtain rfl := List.mem_singleton.mp member
      exact List.not_mem_nil
  | cons c rest ih =>
      rw [pieces] at member
      split at member
      · rcases List.mem_cons.mp member with rfl | member
        · exact List.not_mem_nil
        · exact ih member
      next apart =>
        generalize pieces rest = others at ih member
        cases others with
        | nil =>
            obtain rfl := List.mem_singleton.mp member
            simpa using Ne.symm apart
        | cons first others =>
            rcases List.mem_cons.mp member with rfl | member
            · rw [List.mem_cons, not_or]
              exact ⟨Ne.symm apart, ih List.mem_cons_self⟩
            · exact ih (List.mem_cons_of_mem _ member)

theorem pieces_ne_nil (chars : List Char) : pieces chars ≠ [] := by
  cases chars with
  | nil => exact List.cons_ne_nil _ _
  | cons c rest =>
      rw [pieces]
      split
      · exact List.cons_ne_nil _ _
      · split <;> exact List.cons_ne_nil _ _

/-- The pieces before a slash and behind it. -/
theorem pieces_append_slash (chars rest : List Char) :
    pieces (chars ++ '/' :: rest) = pieces chars ++ pieces rest := by
  induction chars with
  | nil => simp [pieces]
  | cons c chars ih =>
      by_cases slash : c = '/'
      · simp only [List.cons_append, pieces, slash, if_true, ih]
      · obtain ⟨first, others, split⟩ := List.exists_cons_of_ne_nil (pieces_ne_nil chars)
        simp only [List.cons_append, pieces, slash, if_false, ih, split]

/-- A piece without slashes ends at the first slash. -/
theorem pieces_append {piece rest : List Char} (noSlash : '/' ∉ piece) :
    pieces (piece ++ '/' :: rest) = piece :: pieces rest := by
  rw [pieces_append_slash, pieces_of_noSlash noSlash, List.singleton_append]

/-- A piece that is not empty and has no slash in it. -/
def IsSolid (piece : List Char) : Prop :=
  piece ≠ [] ∧ '/' ∉ piece

theorem isSolid_of_mem_piecesOf {names : List Name} {piece : List Char}
    (member : piece ∈ piecesOf names) : IsSolid piece := by
  obtain ⟨name, -, rfl⟩ := List.mem_map.mp member
  refine ⟨fun empty => name.ne_empty ?_, name.no_slash⟩
  rw [← String.ofList_toList (s := name.text), empty]

/-- Pieces that were written with slashes between them are the pieces of the text. -/
theorem pieces_joined_of_noSlash {all : List (List Char)} (nonempty : all ≠ [])
    (noSlash : ∀ piece ∈ all, '/' ∉ piece) : pieces (joined all) = all := by
  induction all with
  | nil => exact absurd rfl nonempty
  | cons first rest ih =>
      have here := noSlash first List.mem_cons_self
      cases rest with
      | nil => exact pieces_of_noSlash here
      | cons second others =>
          have inner := ih nofun fun piece member => noSlash piece (List.mem_cons_of_mem _ member)
          simp only [joined] at inner ⊢
          rw [pieces_append here, inner]

/-- Pieces without slashes that go on behind a slash. -/
theorem pieces_joined_append {all : List (List Char)} (nonempty : all ≠ [])
    (noSlash : ∀ piece ∈ all, '/' ∉ piece) (rest : List Char) :
    pieces (joined all ++ '/' :: rest) = all ++ pieces rest := by
  rw [pieces_append_slash, pieces_joined_of_noSlash nonempty noSlash]

theorem pieces_joined_of_isSolid {all : List (List Char)} (nonempty : all ≠ [])
    (solid : ∀ piece ∈ all, IsSolid piece) : pieces (joined all) = all :=
  pieces_joined_of_noSlash nonempty fun piece member => (solid piece member).2

/-- Names that were written with slashes between them are the pieces of the text. -/
theorem pieces_joined {names : List Name} (nonempty : names ≠ []) :
    pieces (joined (piecesOf names)) = piecesOf names :=
  pieces_joined_of_isSolid (by simpa [piecesOf] using nonempty) fun _ => isSolid_of_mem_piecesOf

theorem filterMap_ofPiece?_piecesOf (names : List Name) :
    (piecesOf names).filterMap Component.ofPiece? = names.map .name := by
  induction names with
  | nil => rfl
  | cons first rest ih => simp [ih]

/-- The path from the root along names. -/
def fromRoot (names : List Name) : Path :=
  ofComponents (.root :: names.map .name)

theorem toList_fromRoot (names : List Name) :
    (fromRoot names).text.toList = '/' :: joined (piecesOf names) := by
  simp [fromRoot, ofComponents, piecesOf, Function.comp_def, Component.text]

theorem opening_fromRoot (names : List Name) :
    (fromRoot names).opening = (some .root, pieces (joined (piecesOf names))) := by
  simp only [opening, toList_fromRoot]

@[simp]
theorem components_fromRoot (names : List Name) :
    (fromRoot names).components = .root :: names.map .name := by
  rw [components, opening_fromRoot]
  by_cases empty : names = []
  · subst empty
    rfl
  · rw [pieces_joined empty, filterMap_ofPiece?_piecesOf]
    rfl

@[simp]
theorem isAbsolute_fromRoot (names : List Name) : (fromRoot names).isAbsolute = true := by
  simp [isAbsolute, toList_fromRoot]

@[simp]
theorem fileName?_fromRoot (names : List Name) :
    (fromRoot names).fileName? = names.getLast? := by
  rw [fileName?, components_fromRoot]
  rcases List.eq_nil_or_concat names with rfl | ⟨front, last, rfl⟩
  · rfl
  · rw [List.concat_eq_append, List.map_append, ← List.cons_append]
    simp only [List.map_cons, List.map_nil, List.getLast?_concat]

@[simp]
theorem parent?_fromRoot_concat (names : List Name) (last : Name) :
    (fromRoot (names ++ [last])).parent? = some (fromRoot names) := by
  rw [parent?, components_fromRoot, List.map_append, ← List.cons_append]
  simp only [List.map_cons, List.map_nil, List.getLast?_concat, List.dropLast_concat]
  rfl

theorem steps_fromRoot_nil : (fromRoot []).steps = [.along .root, .slash] := by
  rw [steps, components_fromRoot]
  rfl

theorem joined_append {first second : List (List Char)} (nonempty : first ≠ [])
    (others : second ≠ []) :
    joined (first ++ second) = joined first ++ '/' :: joined second := by
  induction first with
  | nil => exact absurd rfl nonempty
  | cons piece rest ih =>
      cases rest with
      | nil =>
          cases second with
          | nil => exact absurd rfl others
          | cons _ _ => rfl
      | cons next rest =>
          have inner := ih nofun
          simp only [List.cons_append, joined] at inner ⊢
          rw [inner, List.append_assoc, List.cons_append]

/-- Names that differ in the last one only are written alike up to it. -/
theorem joined_piecesOf_concat (names : List Name) :
    ∃ directory : List Char, (directory = [] ∨ directory.getLast? = some '/') ∧
      ∀ last : Name, joined (piecesOf (names ++ [last])) = directory ++ last.text.toList := by
  by_cases top : names = []
  · subst top
    exact ⟨[], .inl rfl, fun _ => rfl⟩
  · refine ⟨joined (piecesOf names) ++ ['/'], .inr List.getLast?_concat, fun last => ?_⟩
    rw [piecesOf, List.map_append, joined_append (by simpa) (by simp), List.append_assoc]
    rfl

theorem ofComponents_names (names : List Name) :
    ofComponents (names.map .name) = ⟨String.ofList (joined (piecesOf names))⟩ := by
  cases names with
  | nil => rfl
  | cons first rest => simp [ofComponents, piecesOf, Function.comp_def, Component.text]

/-- A text of pieces begins with a character that is no slash. -/
theorem head?_joined {all : List (List Char)} (solid : ∀ piece ∈ all, IsSolid piece) :
    (joined all).head? ≠ some '/' := by
  cases all with
  | nil => nofun
  | cons first rest =>
      obtain ⟨filled, noSlash⟩ := solid first List.mem_cons_self
      cases first with
      | nil => exact absurd rfl filled
      | cons c piece =>
          rw [List.mem_cons, not_or] at noSlash
          cases rest <;> simp [joined, Ne.symm noSlash.1]

/-- A text of pieces ends with a character that is no slash. -/
theorem getLast?_joined {all : List (List Char)} (nonempty : all ≠ [])
    (solid : ∀ piece ∈ all, IsSolid piece) : ∃ c, (joined all).getLast? = some c ∧ c ≠ '/' := by
  induction all with
  | nil => exact absurd rfl nonempty
  | cons first rest ih =>
      obtain ⟨filled, noSlash⟩ := solid first List.mem_cons_self
      cases rest with
      | nil =>
          obtain ⟨c, last⟩ := Option.ne_none_iff_exists'.mp (mt List.getLast?_eq_none_iff.mp filled)
          refine ⟨c, last, ?_⟩
          rintro rfl
          exact noSlash (List.mem_of_getLast? last)
      | cons second others =>
          obtain ⟨c, last, apart⟩ := ih nofun fun piece member =>
            solid piece (List.mem_cons_of_mem _ member)
          refine ⟨c, ?_, apart⟩
          simp only [joined, List.getLast?_append, List.getLast?_cons] at last ⊢
          simp [last]

section Inner

variable {first second components : List Component}
  (inner : ∀ component ∈ components, component.Inner)

theorem toList_ofComponents_root (components : List Component) :
    (ofComponents (.root :: components)).text.toList =
      '/' :: joined (components.map (·.text.toList)) := by
  simp [ofComponents]

include inner

theorem isSolid_of_inner : ∀ piece ∈ components.map (·.text.toList), IsSolid piece := by
  intro piece member
  obtain ⟨component, among, rfl⟩ := List.mem_map.mp member
  cases component with
  | root => cases inner _ among
  | current => cases inner _ among
  | parent => exact ⟨nofun, by decide⟩
  | name entry =>
      have among : entry.text.toList ∈ piecesOf [entry] := List.mem_singleton_self _
      exact isSolid_of_mem_piecesOf among

theorem toList_ofComponents :
    (ofComponents components).text.toList = joined (components.map (·.text.toList)) := by
  cases components with
  | nil => rfl
  | cons component rest =>
      cases component with
      | root => cases inner _ List.mem_cons_self
      | current => cases inner _ List.mem_cons_self
      | parent => simp [ofComponents]
      | name entry => simp [ofComponents]

/-- A path of components that may stand behind others is relative. -/
theorem isAbsolute_ofComponents : (ofComponents components).isAbsolute = false := by
  simpa [isAbsolute, toList_ofComponents inner] using head?_joined (isSolid_of_inner inner)

theorem filterMap_ofPiece?_inner :
    (components.map (·.text.toList)).filterMap Component.ofPiece? = components := by
  induction components with
  | nil => rfl
  | cons component rest ih =>
      have last := (inner component List.mem_cons_self).ofPiece?
      simp only [List.map_cons, List.filterMap_cons, last]
      rw [ih fun other member => inner other (List.mem_cons_of_mem _ member)]

/-- A path that is written from the root has the components that it was written with. -/
theorem components_ofComponents_root :
    (ofComponents (.root :: components)).components = .root :: components := by
  have opening : (ofComponents (.root :: components)).opening =
      (some .root, pieces (joined (components.map (·.text.toList)))) := by
    simp only [opening, toList_ofComponents_root]
  rw [Path.components, opening]
  by_cases empty : components = []
  · subst empty
    rfl
  · rw [pieces_joined_of_isSolid (by simpa using empty) (isSolid_of_inner inner),
      filterMap_ofPiece?_inner inner]
    rfl

theorem opening_ofComponents (nonempty : components ≠ []) :
    (ofComponents components).opening = (none, components.map (·.text.toList)) := by
  have solid := isSolid_of_inner inner
  have all := pieces_joined_of_isSolid (by simpa using nonempty) solid
  unfold opening
  rw [toList_ofComponents inner]
  split
  next chars slash => exact absurd (by rw [slash]; rfl) (head?_joined solid)
  · rw [all]
    split
    next others dot =>
      obtain ⟨first, rest, rfl⟩ := List.exists_cons_of_ne_nil nonempty
      exact absurd (List.cons.inj dot).1 (inner first List.mem_cons_self).piece_ne.2
    · rfl

/-- A path that is written from components inside of paths has these for components again. -/
theorem components_ofComponents : (ofComponents components).components = components := by
  by_cases empty : components = []
  · subst empty
    rfl
  · rw [Path.components, opening_ofComponents inner empty]
    exact filterMap_ofPiece?_inner inner

/-- A path that is written from a dot has the components that it was written with. -/
theorem components_ofComponents_current :
    (ofComponents (.current :: components)).components = .current :: components := by
  have written : (ofComponents (.current :: components)).text.toList =
      joined (['.'] :: components.map (·.text.toList)) := by
    simp [ofComponents, Component.text]
  have noSlash : ∀ piece ∈ ['.'] :: components.map (·.text.toList), '/' ∉ piece := by
    intro piece member
    rcases List.mem_cons.mp member with rfl | member
    · decide
    · exact (isSolid_of_inner inner piece member).2
  have all := pieces_joined_of_noSlash (List.cons_ne_nil _ _) noSlash
  have opening : (ofComponents (.current :: components)).opening =
      (some .current, components.map (·.text.toList)) := by
    unfold Path.opening
    rw [written]
    split
    next slash => cases components <;> cases slash
    · rw [all]
      rfl
  rw [Path.components, opening]
  exact congrArg (Component.current :: ·) (filterMap_ofPiece?_inner inner)

/-- There is nothing behind pieces of components. -/
theorem lastStep?_eq_none {path : Path} (nonempty : components ≠ [])
    (opening : path.opening.2 = components.map (·.text.toList)) : path.lastStep? = none := by
  rcases List.eq_nil_or_concat components with rfl | ⟨front, last, rfl⟩
  · exact absurd rfl nonempty
  · have lastInner : last.Inner := inner last (by simp)
    obtain ⟨filled, notDot⟩ := lastInner.piece_ne
    unfold lastStep?
    rw [opening]
    simp only [List.concat_eq_append, List.map_append, List.map_cons, List.map_nil,
      List.reverse_append, List.reverse_cons, List.reverse_nil, List.nil_append,
      List.cons_append, List.dropWhile_cons, List.isEmpty_eq_false_iff.mpr filled]
    split
    · simp_all
    · simp [filled]

/-- Behind pieces of components stands a slash when an empty piece follows. -/
theorem lastStep?_eq_slash {path : Path}
    (opening : path.opening.2 = components.map (·.text.toList) ++ [[]]) :
    path.lastStep? = some .slash := by
  unfold lastStep?
  rw [opening]
  simp only [List.reverse_append, List.reverse_singleton, List.singleton_append,
    List.dropWhile_cons_of_pos List.isEmpty_nil]
  rcases List.eq_nil_or_concat components with rfl | ⟨front, last, rfl⟩
  · rfl
  · have lastInner : last.Inner := inner last (by simp)
    obtain ⟨filled, notDot⟩ := lastInner.piece_ne
    rw [List.concat_eq_append, List.map_append, List.map_singleton, List.reverse_append,
      List.reverse_singleton, List.singleton_append,
      List.dropWhile_cons_of_neg (by simpa using filled)]
    split
    next dot => exact absurd (List.cons.inj dot).1 notDot
    · rfl

/-- A walk along components ends with the last one. -/
theorem steps_ofComponents (nonempty : components ≠ []) :
    (ofComponents components).steps = components.map .along := by
  have opening := congrArg Prod.snd (opening_ofComponents inner nonempty)
  rw [steps, lastStep?_eq_none inner nonempty opening, components_ofComponents inner]
  simp

/-- A walk from the root along components ends with the last one. -/
theorem steps_ofComponents_root (nonempty : components ≠ []) :
    (ofComponents (.root :: components)).steps = .along .root :: components.map .along := by
  have opening : (ofComponents (.root :: components)).opening.2 =
      components.map (·.text.toList) := by
    simp only [opening, toList_ofComponents_root]
    exact pieces_joined_of_isSolid (by simpa using nonempty) (isSolid_of_inner inner)
  rw [steps, lastStep?_eq_none inner nonempty opening, components_ofComponents_root inner]
  simp

end Inner

/-- A walk along a path does not end with a step to a name. -/
def Unnamed (path : Path) : Prop :=
  ∀ name, path.steps.getLast? ≠ some (.along (.name name))

/-- The components of a path are inner ones, but for the first. -/
theorem components_shape (path : Path) :
    ∃ inner, (∀ component ∈ inner, component.Inner) ∧
      (path.components = inner ∨ path.components = .root :: inner ∨
        path.components = .current :: inner) := by
  refine ⟨path.opening.2.filterMap Component.ofPiece?, fun component member => ?_, ?_⟩
  · obtain ⟨piece, -, stands⟩ := List.mem_filterMap.mp member
    exact Component.inner_of_ofPiece? stands
  · have first : path.opening.1 = none ∨ path.opening.1 = some .root ∨
        path.opening.1 = some .current := by
      unfold opening
      split
      · exact .inr (.inl rfl)
      · split
        · exact .inr (.inr rfl)
        · exact .inl rfl
    unfold components
    rcases first with none | root | current
    · exact .inl (by rw [none]; rfl)
    · exact .inr (.inl (by rw [root]; rfl))
    · exact .inr (.inr (by rw [current]; rfl))

/-- The directory of a path has the components of the path, but for the last. -/
theorem components_of_parent? {path parent : Path} (found : path.parent? = some parent) :
    parent.components = path.components.dropLast := by
  obtain rfl : ofComponents path.components.dropLast = parent := by
    unfold parent? at found
    split at found
    · cases found
    · cases found
    · exact Option.some.inj found
  obtain ⟨inner, all, shape⟩ := path.components_shape
  have front : ∀ component ∈ inner.dropLast, component.Inner :=
    fun component member => all component (List.dropLast_subset _ member)
  have onward : ∀ first : Component, inner ≠ [] →
      (first :: inner).dropLast = first :: inner.dropLast :=
    fun first nonempty => List.dropLast_cons_of_ne_nil nonempty
  by_cases last : inner = []
  · subst last
    rcases shape with shape | shape | shape <;> rw [shape] <;> rfl
  · rcases shape with shape | shape | shape
    · rw [shape, components_ofComponents front]
    · rw [shape, onward _ last, components_ofComponents_root front]
    · rw [shape, onward _ last, components_ofComponents_current front]

/-- A walk to a name ends with that name. -/
theorem steps_fromRoot {names : List Name} (nonempty : names ≠ []) :
    (fromRoot names).steps = .along .root :: names.map fun name => .along (.name name) := by
  rw [fromRoot, steps_ofComponents_root (Component.inner_names names) (by simpa using nonempty),
    List.map_map]
  rfl

/-- A path that is followed by another one begins at the root when one of the two does. -/
theorem isAbsolute_join (path next : Path) :
    (path.join next).isAbsolute = (next.isAbsolute || path.isAbsolute) := by
  cases rooted : next.isAbsolute with
  | true => rw [join, if_pos rooted, rooted, Bool.true_or]
  | false =>
      rw [join, rooted, if_neg nofun, Bool.false_or]
      cases written : path.text.toList with
      | nil =>
          have empty : path.text = "" := by rw [← String.toList_inj, written, String.toList_empty]
          have relative : path.isAbsolute = false := by rw [isAbsolute, written]; rfl
          rw [if_pos (.inl empty), empty, String.empty_append, relative, ← rooted]
      | cons c rest => split <;> simp [isAbsolute, written]

/-- A slash goes between components and a relative path behind them. -/
theorem ofComponents_join {first : List Component} {path : Path}
    (inner : ∀ component ∈ first, component.Inner) (nonempty : first ≠ [])
    (relative : path.isAbsolute = false) :
    (ofComponents first).join path = ⟨(ofComponents first).text ++ "/" ++ path.text⟩ := by
  obtain ⟨c, last, apart⟩ := getLast?_joined (by simpa using nonempty) (isSolid_of_inner inner)
  have ends : (ofComponents first).text.toList.getLast? ≠ some '/' := by
    rw [toList_ofComponents inner, last]
    simpa using apart
  have filled : (ofComponents first).text ≠ "" := by
    intro empty
    rw [← toList_ofComponents inner, empty] at last
    cases last
  rw [join, relative, if_neg nofun, if_neg (not_or.mpr ⟨filled, ends⟩)]

section Joins

variable {first second : List Component} (nonempty : second ≠ [])
  (inner : ∀ component ∈ first, component.Inner) (also : ∀ component ∈ second, component.Inner)

include nonempty inner also

/-- Going on along components from a path of components. -/
theorem join_ofComponents :
    (ofComponents first).join (ofComponents second) = ofComponents (first ++ second) := by
  have both : ∀ component ∈ first ++ second, component.Inner :=
    fun component member => (List.mem_append.mp member).elim (inner _) (also _)
  have relative := isAbsolute_ofComponents also
  apply Path.ext
  rw [← String.toList_inj]
  by_cases top : first = []
  · subst top
    rw [join, relative, if_neg nofun, if_pos (.inl rfl)]
    simp [ofComponents, joined]
  · rw [ofComponents_join inner top relative]
    simp only [String.toList_append, toList_ofComponents inner, toList_ofComponents also,
      toList_ofComponents both, List.map_append]
    rw [joined_append (by simpa) (by simpa)]
    simp

theorem join_ofComponents_root :
    (ofComponents (.root :: first)).join (ofComponents second) =
      ofComponents (.root :: (first ++ second)) := by
  have relative := isAbsolute_ofComponents also
  rw [join, relative, if_neg nofun]
  apply Path.ext
  rw [← String.toList_inj]
  by_cases top : first = []
  · subst top
    have slash : (ofComponents [.root]).text.toList.getLast? = some '/' := by
      rw [toList_ofComponents_root]
      rfl
    rw [if_pos (.inr slash)]
    simp [toList_ofComponents_root, toList_ofComponents also, joined]
  · obtain ⟨c, last, apart⟩ := getLast?_joined (by simpa using top) (isSolid_of_inner inner)
    have ends : (ofComponents (.root :: first)).text.toList.getLast? ≠ some '/' := by
      rw [toList_ofComponents_root, List.getLast?_cons, last]
      simpa using apart
    have filled : (ofComponents (.root :: first)).text ≠ "" := by
      intro empty
      have chars := toList_ofComponents_root first
      simp [empty] at chars
    rw [if_neg (not_or.mpr ⟨filled, ends⟩)]
    simp only [String.toList_append, toList_ofComponents also, toList_ofComponents_root,
      List.map_append]
    rw [joined_append (by simpa) (by simpa)]
    simp

end Joins

/-- A path that is not empty has a component. -/
theorem components_ne_nil {path : Path} (filled : path.text ≠ "") : path.components ≠ [] := by
  unfold components opening
  cases written : path.text.toList with
  | nil => exact absurd (String.toList_eq_nil_iff.mp written) filled
  | cons c rest =>
      by_cases slash : c = '/'
      · subst slash
        exact List.cons_ne_nil _ _
      · obtain ⟨piece, others, whole⟩ : ∃ piece others,
            pieces (c :: rest) = (c :: piece) :: others := by
          rw [pieces, if_neg slash]
          cases pieces rest with
          | nil => exact ⟨[], [], rfl⟩
          | cons first others => exact ⟨first, others, rfl⟩
        have noSlash : '/' ∉ c :: piece := noSlash_of_mem_pieces (by
          rw [whole]
          exact List.mem_cons_self)
        split
        next same => exact absurd (List.cons.inj same).1 slash
        · rw [whole]
          split
          next dot => exact List.cons_ne_nil _ _
          next apart =>
            have stands : (Component.ofPiece? (c :: piece)).isSome := by
              unfold Component.ofPiece?
              split
              · rfl
              next notParent =>
                rw [Option.isSome_map, Option.isSome_iff_ne_none, ne_eq, Name.ofText?_eq_none]
                simp only [← String.toList_inj, String.toList_ofList]
                rintro (empty | dot | parent | slash)
                · cases empty
                · exact apart _ (by rw [dot]; rfl)
                · exact notParent parent
                · exact noSlash slash
            obtain ⟨component, stands⟩ := Option.isSome_iff_exists.mp stands
            rw [List.filterMap_cons, stands]
            exact List.cons_ne_nil _ _

/-- A path without a dot at its beginning keeps all its components. -/
theorem filter_components_of_bare {path : Path} (bare : .current ∉ path.components) :
    path.components.filter (· ≠ .current) = path.components := by
  rw [List.filter_eq_self]
  intro component member
  rw [decide_eq_true_eq]
  rintro rfl
  exact bare member

/-- The three ways in which a path can begin, with the piece that is left out behind each. -/
theorem opening_cases (path : Path) :
    path.isAbsolute = true ∧ path.opening.1 = some .root ∧
        pieces path.text.toList = [] :: path.opening.2 ∨
      path.isAbsolute = false ∧ path.opening.1 = some .current ∧
        pieces path.text.toList = ['.'] :: path.opening.2 ∨
      path.isAbsolute = false ∧ path.opening.1 = none ∧
        pieces path.text.toList = path.opening.2 := by
  unfold opening isAbsolute
  split
  next rest slash => exact .inl ⟨by rw [slash]; rfl, rfl, by rw [slash, pieces, if_pos rfl]⟩
  next apart =>
    have relative : (path.text.toList.head? == some '/') = false := by
      rw [beq_eq_false_iff_ne]
      intro first
      obtain ⟨rest, slash⟩ := List.head?_eq_some_iff.mp first
      exact apart rest slash
    split
    next others dot => exact .inr (.inl ⟨relative, rfl, dot⟩)
    · exact .inr (.inr ⟨relative, rfl, rfl⟩)

/-- Apart from a dot at its beginning, a path has the components of its pieces behind the root. -/
theorem filter_components_eq (path : Path) :
    path.components.filter (· ≠ .current) =
      (if path.isAbsolute then [.root] else []) ++
        (pieces path.text.toList).filterMap Component.ofPiece? := by
  have kept : (path.opening.2.filterMap Component.ofPiece?).filter (· ≠ .current) =
      path.opening.2.filterMap Component.ofPiece? := by
    rw [List.filter_eq_self]
    intro component member
    obtain ⟨piece, -, found⟩ := List.mem_filterMap.mp member
    have inner := Component.inner_of_ofPiece? found
    cases component <;> simp_all [Component.Inner]
  have blank : Component.ofPiece? ['.'] = none := by decide
  rw [components, List.filter_append, kept]
  rcases path.opening_cases with ⟨rooted, first, all⟩ | ⟨relative, first, all⟩ |
    ⟨relative, first, all⟩
  · rw [rooted, first, all, List.filterMap_cons, Component.ofPiece?_nil]
    rfl
  · rw [relative, first, all, List.filterMap_cons, blank]
    rfl
  · rw [relative, first, all]
    rfl

/-- A relative path that goes on behind another one adds its components, apart from a dot at its
beginning. -/
theorem filter_components_join (path : Path) {next : Path} (relative : next.isAbsolute = false) :
    (path.join next).components.filter (· ≠ .current) =
      path.components.filter (· ≠ .current) ++ next.components.filter (· ≠ .current) := by
  have pieces_join : (pieces (path.join next).text.toList).filterMap Component.ofPiece? =
      (pieces path.text.toList).filterMap Component.ofPiece? ++
        (pieces next.text.toList).filterMap Component.ofPiece? := by
    rw [join, relative, if_neg Bool.false_ne_true]
    split
    next bare =>
      rcases bare with empty | slash
      · rw [empty, String.empty_append]
        rfl
      · obtain ⟨front, whole⟩ := List.getLast?_eq_some_iff.mp slash
        rw [String.toList_append, whole, List.append_assoc, List.singleton_append,
          pieces_append_slash, pieces_append_slash, List.filterMap_append, List.filterMap_append]
        simp [pieces]
    · have text : (path.text ++ "/" ++ next.text).toList =
          path.text.toList ++ '/' :: next.text.toList := by simp
      rw [text, pieces_append_slash, List.filterMap_append]
  rw [filter_components_eq, filter_components_eq, filter_components_eq, pieces_join,
    isAbsolute_join, relative, Bool.false_or, if_neg Bool.false_ne_true, List.nil_append,
    List.append_assoc]

section Relative

variable {path : Path} (relative : path.isAbsolute = false)

include relative

/-- Apart from a dot at its beginning, a relative path has the components of its pieces. -/
theorem filter_components :
    path.components.filter (· ≠ .current) =
      (pieces path.text.toList).filterMap Component.ofPiece? := by
  rw [filter_components_eq, relative, if_neg Bool.false_ne_true, List.nil_append]

theorem root_not_mem_components : .root ∉ path.components := by
  intro member
  have still : .root ∈ path.components.filter (· ≠ .current) := by simpa using member
  rw [filter_components relative] at still
  obtain ⟨piece, -, found⟩ := List.mem_filterMap.mp still
  exact Component.inner_of_ofPiece? found

/-- The pieces of a path of names stay when a relative path goes on behind them. -/
theorem opening_fromRoot_join (names : List Name) :
    ((fromRoot names).join path).opening = (some .root, piecesOf names ++ pieces path.text.toList) := by
  rw [join, relative, if_neg nofun]
  have written := toList_fromRoot names
  by_cases top : names = []
  · subst top
    have slash : (fromRoot []).text = "/" := by decide
    rw [if_pos (.inr (by rw [slash]; rfl)), slash]
    simp [Path.opening]
  · obtain ⟨c, last, apart⟩ := @getLast?_joined (piecesOf names) (by simpa [piecesOf] using top)
      fun _ => isSolid_of_mem_piecesOf
    have ends : (fromRoot names).text.toList.getLast? ≠ some '/' := by
      rw [written, List.getLast?_cons, last]
      simpa using apart
    have filled : (fromRoot names).text ≠ "" := by
      intro empty
      simp [empty] at written
    rw [if_neg (not_or.mpr ⟨filled, ends⟩)]
    simp only [Path.opening, String.toList_append, written, List.cons_append]
    have slash : "/".toList = ['/'] := rfl
    rw [slash, List.append_assoc, List.singleton_append,
      pieces_joined_append (by simpa [piecesOf] using top)
        fun piece member => (isSolid_of_mem_piecesOf member).2]

/-- Going on along a relative path from a path of names. -/
theorem components_fromRoot_join (names : List Name) :
    ((fromRoot names).join path).components =
      .root :: (names.map .name ++ path.components.filter (· ≠ .current)) := by
  rw [filter_components relative, components, opening_fromRoot_join relative, List.filterMap_append,
    filterMap_ofPiece?_piecesOf]
  rfl

end Relative

/-- The pieces of inner components stay when a relative path goes on behind them. -/
theorem opening_ofComponents_join {first : List Component} {path : Path}
    (inner : ∀ component ∈ first, component.Inner) (nonempty : first ≠ [])
    (relative : path.isAbsolute = false) :
    ((ofComponents first).join path).opening =
      (none, first.map (·.text.toList) ++ pieces path.text.toList) := by
  have text : ((ofComponents first).text ++ "/" ++ path.text).toList =
      joined (first.map (·.text.toList)) ++ '/' :: path.text.toList := by
    simp only [String.toList_append, toList_ofComponents inner, List.append_assoc]
    rfl
  have solid := isSolid_of_inner inner
  have both := pieces_joined_append (by simpa using nonempty)
    (fun piece member => (solid piece member).2) path.text.toList
  rw [ofComponents_join inner nonempty relative, opening, text]
  obtain ⟨c, last, -⟩ := getLast?_joined (by simpa using nonempty) solid
  split
  next slash =>
    have begins := head?_joined solid
    cases written : joined (first.map (·.text.toList)) with
    | nil => simp [written] at last
    | cons c chars => simp_all
  · obtain ⟨front, others, rfl⟩ := List.exists_cons_of_ne_nil nonempty
    rw [both]
    split
    next dot => exact absurd (List.cons.inj dot).1 (inner front List.mem_cons_self).piece_ne.2
    · rfl

/-- Going on along a relative path from a path of inner components. -/
theorem components_ofComponents_join {first : List Component} {path : Path}
    (inner : ∀ component ∈ first, component.Inner) (relative : path.isAbsolute = false)
    (bare : .current ∉ path.components) :
    ((ofComponents first).join path).components = first ++ path.components := by
  have kept := filter_components_of_bare bare
  by_cases top : first = []
  · subst top
    have empty : (ofComponents []).text = "" := rfl
    rw [join, relative, if_neg nofun, if_pos (.inl rfl), empty, String.empty_append, List.nil_append]
  · rw [components, opening_ofComponents_join inner top relative, ← kept,
      filter_components relative, List.filterMap_append, filterMap_ofPiece?_inner inner]
    rfl

/-- A path from the root leads to the same place when an empty path is added to it. -/
theorem components_join_empty (names : List Name) :
    ((fromRoot names).join ⟨""⟩).components = .root :: names.map .name := by
  rw [components_fromRoot_join rfl, filter_components rfl]
  simp [pieces]

/-- A walk along a path to which an empty path is added ends with a slash. -/
theorem steps_join_empty (names : List Name) :
    ((fromRoot names).join ⟨""⟩).steps =
      .along .root :: (names.map (fun name => .along (.name name)) ++ [.slash]) := by
  have opening := @opening_fromRoot_join ⟨""⟩ rfl names
  have last : ((fromRoot names).join ⟨""⟩).lastStep? = some .slash :=
    lastStep?_eq_slash (Component.inner_names names) (by
      rw [opening, List.map_map]
      rfl)
  rw [steps, components_join_empty, last]
  simp

/-- Going on along names from a path of names. -/
theorem fromRoot_join {names rest : List Name} (nonempty : rest ≠ []) :
    (fromRoot names).join ⟨String.ofList (joined (piecesOf rest))⟩ = fromRoot (names ++ rest) := by
  rw [← ofComponents_names, fromRoot, join_ofComponents_root (by simpa using nonempty)
    (Component.inner_names names) (Component.inner_names rest), ← List.map_append]
  rfl

theorem fault?_eq_none {path : Path} : path.fault? = none ↔
    '\x00' ∉ path.text.toList ∧ path.text ≠ "" ∧ path.text.utf8ByteSize < sizeLimit := by
  unfold fault?
  grind

/-- A path that is not refused has a directory that is not refused. -/
theorem fault?_fromRoot_concat {names : List Name} {last : Name}
    (accepted : (fromRoot (names ++ [last])).fault? = none) : (fromRoot names).fault? = none := by
  have longer : ∃ rest, (fromRoot (names ++ [last])).text = (fromRoot names).text ++ rest := by
    by_cases top : names = []
    · subst top
      exact ⟨last.text, by rw [← String.toList_inj]; simp [toList_fromRoot, joined]⟩
    · refine ⟨"/" ++ last.text, ?_⟩
      rw [← String.toList_inj]
      simp only [String.toList_append, toList_fromRoot]
      rw [piecesOf, piecesOf, List.map_append, joined_append (by simpa) (by simp)]
      simp [joined]
  rcases longer with ⟨rest, longer⟩
  have filled : (fromRoot names).text ≠ "" := by
    intro empty
    have chars := toList_fromRoot names
    simp [empty] at chars
  rw [fault?_eq_none, longer] at accepted
  rcases accepted with ⟨clean, _, small⟩
  rw [String.toList_append, List.mem_append, not_or] at clean
  rw [String.utf8ByteSize_append] at small
  exact fault?_eq_none.mpr ⟨clean.1, filled, by omega⟩

/-- Nor are the directories above refused. -/
theorem fault?_fromRoot_above {names above : List Name} (accepted : (fromRoot names).fault? = none)
    (within : above <+: names) : (fromRoot above).fault? = none := by
  rcases within with ⟨rest, rfl⟩
  induction rest generalizing above with
  | nil => simpa using accepted
  | cons name rest ih =>
      apply fault?_fromRoot_concat
      apply @ih (above ++ [name])
      simpa using accepted

end Path

end Stencil
