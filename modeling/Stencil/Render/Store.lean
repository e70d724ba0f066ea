import Std.Data.ExtTreeSet
import Stencil.Error
import Stencil.Template.Candidate
import Stencil.Template.Library

/-!
# The store of a build

While a page is built, a store keeps what has been found out: the texts of the templates that were
read, the fragments that were finished, the templates that the output depends on, and every place
at which the library was asked for a template.
-/

namespace Stencil.Render

/-- What is known in the course of a build. -/
structure Store where
  contents : Std.ExtTreeMap Place String
  fragments : Std.ExtTreeMap String String
  dependencies : Std.ExtTreeSet Place
  consulted : Std.ExtTreeSet Place

namespace Store

def empty : Store := ⟨∅, ∅, ∅, ∅⟩

instance : Inhabited Store := ⟨empty⟩

/-- Note that the library is asked for a place. -/
def consult (store : Store) (place : Place) : Store :=
  { store with consulted := store.consulted.insert place }

/-- Keep the text of a template. -/
def keepContent (store : Store) (place : Place) (content : String) : Store :=
  { store with contents := store.contents.insert place content }

/-- Keep a fragment, and note the template that it was made from. -/
def keepFragment (store : Store) (key fragment : String) (place : Place) : Store :=
  { store with
    fragments := store.fragments.insert key fragment
    dependencies := store.dependencies.insert place }

end Store

/-- A computation in the course of a build.  The store outlives a failure. -/
abbrev Rendering (α : Type) := ExceptT Error (StateM Store) α

/-- A template that was found. -/
structure Located where
  place : Place
  kind : Template.Kind
  content : String
deriving DecidableEq

/-- Try candidates in turn.  The paths that were tried in vain stand in `attempted`, the latest
first.  With `reuse` a text that is already in the store is not fetched again. -/
def locateAmong (library : Template.Library) (reuse : Bool) (name : String) :
    (attempted : List Path) → List Template.Candidate → Rendering Located
  | attempted, [] => throw (.templateNotFound name attempted.reverse)
  | attempted, candidate :: others => do
      let place := library.identify candidate.path
      let store ← get
      match if reuse then store.contents[place]? else none with
      | some content => return ⟨place, candidate.kind, content⟩
      | none =>
          modify (·.consult place)
          match library.fetch candidate.path with
          | .error fault => throw (.disk fault)
          | .ok (some content) =>
              modify (·.keepContent place content)
              return ⟨place, candidate.kind, content⟩
          | .ok none => locateAmong library reuse name (candidate.path :: attempted) others

/-- Find the template with a name. -/
def locate (library : Template.Library) (reuse : Bool) (name : String) : Rendering Located :=
  locateAmong library reuse name [] (Template.candidates name)

end Stencil.Render
