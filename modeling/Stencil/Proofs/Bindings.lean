import Stencil.Bindings
import Stencil.Proofs.Text.Separators

/-!
# Laws of bindings

What bindings list is what they give, and giving values keeps a property of the characters in names
and values.  The form of bindings as one text tells them apart as long as no name and no value
holds the character that ends it there.
-/

namespace Stencil.Bindings

open Text (MadeOf NotSeparator)

theorem mem_toList {bindings : Bindings} {key value : String} :
    (key, value) ∈ bindings.toList ↔ bindings.get? key = some value :=
  Std.ExtTreeMap.mem_toList_iff_getElem?_eq_some

/-- All names and values are made of characters with the property `p`. -/
def IsMadeOf (p : Char → Prop) (bindings : Bindings) : Prop :=
  ∀ key value, bindings.get? key = some value → MadeOf p key ∧ MadeOf p value

section Characters

variable {p : Char → Prop} {bindings : Bindings}

theorem isMadeOf_empty : (∅ : Bindings).IsMadeOf p := by
  simp [IsMadeOf]

theorem IsMadeOf.value (made : bindings.IsMadeOf p) (key : String) :
    MadeOf p (bindings.value key) := by
  unfold Bindings.value
  cases found : bindings.get? key with
  | none => exact Text.madeOf_empty
  | some value => exact (made key value found).2

theorem IsMadeOf.set (made : bindings.IsMadeOf p) {key value : String} (keyMade : MadeOf p key)
    (valueMade : MadeOf p value) : (bindings.set key value).IsMadeOf p := by
  intro other found given
  rw [get?_set] at given
  split at given
  next same => exact ⟨same ▸ keyMade, Option.some.inj given ▸ valueMade⟩
  · exact made other found given

theorem IsMadeOf.setIfAbsent (made : bindings.IsMadeOf p) {key value : String}
    (keyMade : MadeOf p key) (valueMade : MadeOf p value) :
    (bindings.setIfAbsent key value).IsMadeOf p := by
  unfold Bindings.setIfAbsent
  split
  · exact made.set keyMade valueMade
  · exact made

theorem IsMadeOf.merge (made : bindings.IsMadeOf p) {additions : List (String × String)}
    (added : ∀ entry ∈ additions, MadeOf p entry.1 ∧ MadeOf p entry.2) :
    (bindings.merge additions).IsMadeOf p := by
  induction additions generalizing bindings with
  | nil => exact made
  | cons entry rest ih =>
      rw [List.forall_mem_cons] at added
      exact ih (made.set added.1.1 added.1.2) added.2

theorem IsMadeOf.toList (made : bindings.IsMadeOf p) :
    ∀ entry ∈ bindings.toList, MadeOf p entry.1 ∧ MadeOf p entry.2 :=
  fun _ member => made _ _ (mem_toList.mp member)

theorem IsMadeOf.mapValues (made : bindings.IsMadeOf p) {change : String → String}
    (changed : ∀ value, MadeOf p value → MadeOf p (change value)) :
    (bindings.mapValues change).IsMadeOf p := by
  apply isMadeOf_empty.merge
  intro entry member
  rcases List.mem_map.mp member with ⟨given, inside, rfl⟩
  exact ⟨(made.toList given inside).1, changed _ (made.toList given inside).2⟩

end Characters

section Flatten

/-- The form of one name and its value in the text of bindings. -/
def entryText (entry : String × String) : String :=
  entry.1 ++ "\x1f" ++ entry.2 ++ "\x1e"

/-- A name and a value without the characters that end them in the text of bindings, and without the
one that stands between two such texts. -/
structure EntryDelimited (key value : String) : Prop where
  key_no_unit : '\x1f' ∉ key.toList
  key_no_group : '\x1d' ∉ key.toList
  value_no_record : '\x1e' ∉ value.toList
  value_no_group : '\x1d' ∉ value.toList

/-- All names and values are found again in the text of bindings. -/
def Delimited (bindings : Bindings) : Prop :=
  ∀ key value, bindings.get? key = some value → EntryDelimited key value

theorem delimited_iff {bindings : Bindings} :
    bindings.Delimited ↔ ∀ entry ∈ bindings.toList, EntryDelimited entry.1 entry.2 :=
  ⟨fun delimited _ member => delimited _ _ (mem_toList.mp member),
    fun delimited _ _ found => delimited (_, _) (mem_toList.mpr found)⟩

theorem IsMadeOf.delimited {bindings : Bindings} (made : bindings.IsMadeOf NotSeparator) :
    bindings.Delimited := by
  intro key value found
  obtain ⟨keyMade, valueMade⟩ := made key value found
  exact ⟨fun member => (keyMade _ member).2.2 rfl, fun member => (keyMade _ member).1 rfl,
    fun member => (valueMade _ member).2.1 rfl, fun member => (valueMade _ member).1 rfl⟩

theorem flatten_eq (bindings : Bindings) :
    bindings.flatten = String.join (bindings.toList.map entryText) := rfl

theorem entryText_append (entry : String × String) (rest : String) :
    entryText entry ++ rest = entry.1 ++ "\x1f" ++ (entry.2 ++ "\x1e" ++ rest) := by
  simp [entryText, String.append_assoc]

theorem entryText_append_ne_empty (entry : String × String) (rest : String) :
    entryText entry ++ rest ≠ "" := by
  intro empty
  simpa [entryText] using congrArg String.toList empty

theorem join_entryText_inj {entries others : List (String × String)}
    (delimited : ∀ entry ∈ entries, EntryDelimited entry.1 entry.2)
    (delimitedOthers : ∀ entry ∈ others, EntryDelimited entry.1 entry.2)
    (same : String.join (entries.map entryText) = String.join (others.map entryText)) :
    entries = others := by
  induction entries generalizing others with
  | nil =>
      cases others with
      | nil => rfl
      | cons other others =>
          rw [List.map_cons, String.join_cons] at same
          exact absurd same.symm (entryText_append_ne_empty _ _)
  | cons entry entries ih =>
      cases others with
      | nil =>
          rw [List.map_cons, String.join_cons] at same
          exact absurd same (entryText_append_ne_empty _ _)
      | cons other others =>
          rw [List.forall_mem_cons] at delimited delimitedOthers
          rw [List.map_cons, List.map_cons, String.join_cons, String.join_cons, entryText_append,
            entryText_append,
            Text.append_unit_inj delimited.1.key_no_unit delimitedOthers.1.key_no_unit,
            Text.append_record_inj delimited.1.value_no_record delimitedOthers.1.value_no_record]
            at same
          rw [Prod.ext same.1 same.2.1, ih delimited.2 delimitedOthers.2 same.2.2]

/-- Delimited bindings are told apart by their form as one text. -/
theorem flatten_inj {bindings others : Bindings} (delimited : bindings.Delimited)
    (delimitedOthers : others.Delimited) :
    bindings.flatten = others.flatten ↔ bindings = others := by
  constructor
  · intro same
    rw [flatten_eq, flatten_eq] at same
    exact toList_inj.mp
      (join_entryText_inj (delimited_iff.mp delimited) (delimited_iff.mp delimitedOthers) same)
  · rintro rfl
    rfl

theorem group_not_mem_flatten {bindings : Bindings} (delimited : bindings.Delimited) :
    '\x1d' ∉ bindings.flatten.toList := by
  have inside : ∀ entries : List (String × String),
      (∀ entry ∈ entries, EntryDelimited entry.1 entry.2) →
        '\x1d' ∉ (String.join (entries.map entryText)).toList := by
    intro entries delimited
    induction entries with
    | nil => simp
    | cons entry entries ih =>
        rw [List.forall_mem_cons] at delimited
        rw [List.map_cons, String.join_cons, String.toList_append, List.mem_append]
        rintro (member | member)
        · simp [entryText, delimited.1.key_no_group, delimited.1.value_no_group] at member
        · exact ih delimited.2 member
  rw [flatten_eq]
  exact inside _ (delimited_iff.mp delimited)

end Flatten

section Entries

/-- The value of the first entry for a key. -/
def firstOf (key : String) (entries : List (String × String)) : Option String :=
  (entries.find? (·.1 == key)).map Prod.snd

/-- The value of the last entry for a key. -/
def lastOf (key : String) (entries : List (String × String)) : Option String :=
  firstOf key entries.reverse

variable {key : String} {entry : String × String} {entries others : List (String × String)}
  {bindings : Bindings}

@[simp]
theorem firstOf_nil : firstOf key [] = none := rfl

theorem firstOf_cons :
    firstOf key (entry :: entries) =
      if entry.1 = key then some entry.2 else firstOf key entries := by
  by_cases same : entry.1 = key <;> simp [firstOf, same]

theorem firstOf_append :
    firstOf key (entries ++ others) = (firstOf key entries).or (firstOf key others) := by
  simp [firstOf, List.find?_append, Option.map_or]

@[simp]
theorem lastOf_nil : lastOf key [] = none := rfl

theorem lastOf_cons :
    lastOf key (entry :: entries) = (lastOf key entries).or (firstOf key [entry]) := by
  simp [lastOf, firstOf_append]

theorem mem_of_firstOf {value : String} (found : firstOf key entries = some value) :
    (key, value) ∈ entries := by
  rcases Option.map_eq_some_iff.mp found with ⟨⟨name, _⟩, first, rfl⟩
  obtain rfl : name = key := by simpa using List.find?_some first
  exact List.mem_of_find?_eq_some first

theorem firstOf_eq_none_iff : firstOf key entries = none ↔ ∀ entry ∈ entries, entry.1 ≠ key := by
  simp [firstOf]

/-- Entries that are given one after the other leave the last value for each key. -/
theorem get?_merge (bindings : Bindings) :
    (bindings.merge entries).get? key = (lastOf key entries).or (bindings.get? key) := by
  induction entries generalizing bindings with
  | nil => rfl
  | cons entry entries ih =>
      change ((bindings.set entry.1 entry.2).merge entries).get? key = _
      rw [ih, get?_set, lastOf_cons, firstOf_cons, Option.or_assoc]
      split <;> rfl

theorem get?_ofList : (ofList entries).get? key = lastOf key entries := by
  simp [ofList, get?_merge]

/-- Bindings list each key once. -/
theorem lastOf_toList (bindings : Bindings) : lastOf key bindings.toList = bindings.get? key := by
  cases found : lastOf key bindings.toList with
  | some value =>
      have member := List.mem_reverse.mp (mem_of_firstOf found)
      exact (mem_toList.mp member).symm
  | none =>
      rw [lastOf, firstOf_eq_none_iff] at found
      cases given : bindings.get? key with
      | none => rfl
      | some value =>
          have member := List.mem_reverse.mpr (mem_toList.mpr given)
          exact absurd rfl (found _ member)

theorem lastOf_map_snd (change : String → String) :
    lastOf key (entries.map fun entry => (entry.1, change entry.2)) =
      (lastOf key entries).map change := by
  induction entries with
  | nil => rfl
  | cons entry entries ih =>
      rw [List.map_cons, lastOf_cons, lastOf_cons, ih, firstOf_cons, firstOf_cons, Option.map_or]
      split <;> rfl

theorem get?_mapValues (change : String → String) :
    (bindings.mapValues change).get? key = (bindings.get? key).map change := by
  rw [mapValues, get?_ofList, lastOf_map_snd, lastOf_toList]

/-- The order in which bindings list their entries. -/
def Precedes (first second : String × String) : Prop :=
  compare first.1 second.1 = .lt

theorem ordered_toList (bindings : Bindings) : bindings.toList.Pairwise Precedes :=
  Std.ExtTreeMap.ordered_keys_toList

theorem lastOf_eq_some_iff {value : String} (ordered : entries.Pairwise Precedes) :
    lastOf key entries = some value ↔ (key, value) ∈ entries := by
  constructor
  · exact fun found => List.mem_reverse.mp (mem_of_firstOf found)
  · intro member
    induction entries with
    | nil => cases member
    | cons entry rest ih =>
        rw [List.pairwise_cons] at ordered
        rw [lastOf_cons]
        rcases List.mem_cons.mp member with rfl | inside
        · have absent : lastOf key rest = none := by
            rw [lastOf, firstOf_eq_none_iff]
            rintro other behind rfl
            have before := ordered.1 other (List.mem_reverse.mp behind)
            simp [Precedes] at before
          rw [absent, Option.none_or, firstOf_cons, if_pos rfl]
        · rw [ih ordered.2 inside, Option.some_or]

/-- Entries in the order of their keys are listed as they were given. -/
theorem toList_ofList_of_ordered (ordered : entries.Pairwise Precedes) :
    (ofList entries).toList = entries := by
  have distinct : ∀ {all : List (String × String)}, all.Pairwise Precedes → all.Nodup := by
    intro all ordered
    exact ordered.imp fun before same => by simp [Precedes, same] at before
  have listed := ordered_toList (ofList entries)
  have permuted := (List.perm_ext_iff_of_nodup (distinct listed) (distinct ordered)).mpr
    fun entry => by rw [mem_toList, get?_ofList, lastOf_eq_some_iff ordered]
  refine permuted.eq_of_pairwise (fun first second _ _ before after => ?_) listed ordered
  exact absurd after (Std.OrientedCmp.not_lt_of_lt before)

theorem delimited_ofList (delimited : ∀ entry ∈ entries, EntryDelimited entry.1 entry.2) :
    (ofList entries).Delimited := by
  intro key value found
  rw [get?_ofList] at found
  exact delimited (key, value) (List.mem_reverse.mp (mem_of_firstOf found))

end Entries

end Stencil.Bindings
