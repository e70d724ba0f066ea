import Std.Data.ExtTreeMap

/-!
# Bindings of names to values

Bindings give each of finitely many names one text.  They serve as the scope that a page or
template is read in, as the attributes of an inclusion and as the values of its variable tags.
Two bindings are equal exactly when every name has the same value in both, and they are listed in
the order of their names.
-/

namespace Stencil

/-- Finitely many names, each with one text as its value. -/
structure Bindings where
  entries : Std.ExtTreeMap String String

namespace Bindings

instance : EmptyCollection Bindings := ⟨⟨∅⟩⟩

instance : Inhabited Bindings := ⟨∅⟩

/-- The value of a name, when it has one. -/
def get? (bindings : Bindings) (key : String) : Option String :=
  bindings.entries[key]?

/-- The value of a name.  A name without a value stands for the empty text. -/
def value (bindings : Bindings) (key : String) : String :=
  (bindings.get? key).getD ""

/-- Give a name a value and forget the one it had. -/
def set (bindings : Bindings) (key value : String) : Bindings :=
  ⟨bindings.entries.insert key value⟩

/-- Give a name a value unless it already has one. -/
def setIfAbsent (bindings : Bindings) (key value : String) : Bindings :=
  match bindings.get? key with
  | none => bindings.set key value
  | some _ => bindings

/-- Names and values in the order of the names. -/
def toList (bindings : Bindings) : List (String × String) :=
  bindings.entries.toList

/-- Give names their values one after the other, so that the last value of a name stays. -/
def merge (bindings : Bindings) (additions : List (String × String)) : Bindings :=
  additions.foldl (fun bindings (key, value) => bindings.set key value) bindings

def ofList (additions : List (String × String)) : Bindings :=
  merge ∅ additions

/-- Change every value by a function. -/
def mapValues (change : String → String) (bindings : Bindings) : Bindings :=
  ofList (bindings.toList.map fun (key, value) => (key, change value))

/-- The bindings as one text.  Each name is followed by the unit separator, and each value by the
record separator. -/
def flatten (bindings : Bindings) : String :=
  String.join (bindings.toList.map fun (key, value) => key ++ "\x1f" ++ value ++ "\x1e")

@[ext]
theorem ext {first second : Bindings} (h : ∀ key, first.get? key = second.get? key) :
    first = second := by
  cases first
  cases second
  exact congrArg mk (Std.ExtTreeMap.ext_getElem? h)

theorem toList_inj {first second : Bindings} :
    first.toList = second.toList ↔ first = second := by
  cases first
  cases second
  simp [toList, Std.ExtTreeMap.toList_inj]

instance : DecidableEq Bindings := fun first second =>
  decidable_of_iff (first.toList = second.toList) toList_inj

@[simp]
theorem get?_empty (key : String) : (∅ : Bindings).get? key = none :=
  Std.ExtTreeMap.getElem?_empty

theorem get?_set (bindings : Bindings) (key value other : String) :
    (bindings.set key value).get? other =
      if key = other then some value else bindings.get? other := by
  simp [get?, set, Std.ExtTreeMap.getElem?_insert]

theorem get?_setIfAbsent (bindings : Bindings) (key value other : String) :
    (bindings.setIfAbsent key value).get? other =
      if key = other then some ((bindings.get? key).getD value) else bindings.get? other := by
  unfold setIfAbsent
  split <;> rename_i h
  · simp [get?_set, h]
  · split
    · simp_all
    · rfl

end Bindings

end Stencil
