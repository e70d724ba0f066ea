import Stencil.Preamble
import Stencil.Proofs.Bindings
import Stencil.Proofs.Text.Characters

/-!
# What a preamble leaves

The body of a page is found from its text alone, whatever scope the preamble is read into.  The
scope afterwards and the body hold no characters but those of the scope before and of the text.
-/

namespace Stencil

open Text (MadeOf)

variable {p : Char → Prop}

namespace Preamble

theorem isMadeOf_declare {scope : Bindings} {line : List Char} (scopeMade : scope.IsMadeOf p)
    (made : ∀ c ∈ line, p c) : (declare scope line).IsMadeOf p := by
  have kept : ∀ c ∈ Text.dropCarriage line, p c :=
    fun c member => made c (Text.mem_of_mem_dropCarriage member)
  unfold declare
  split
  · exact scopeMade
  next key value found =>
    unfold declaration? at found
    split at found
    · simp at found
    next equals rest split =>
      obtain ⟨rfl, rfl⟩ := Prod.mk.inj (Option.some.inj found)
      apply scopeMade.setIfAbsent <;> rw [Text.madeOf_ofList]
      · exact fun c member => kept c ((List.takeWhile_sublist _).mem member)
      · intro c member
        apply kept c ((List.dropWhile_sublist (· != '=')).mem _)
        rw [split]
        exact List.mem_cons_of_mem _ member

theorem isMadeOf_readFrom {scope : Bindings} {source : List Char} (scopeMade : scope.IsMadeOf p)
    (made : ∀ c ∈ source, p c) :
    (readFrom scope source).1.IsMadeOf p ∧ ∀ c ∈ (readFrom scope source).2, p c := by
  fun_induction readFrom scope source with
  | case1 scope rest ih =>
      have kept : ∀ c ∈ rest, p c := fun c member => made c (List.mem_cons_of_mem _ member)
      apply ih
      · apply isMadeOf_declare scopeMade
        exact fun c member => kept c (Text.mem_of_mem_cutLine (.inl member))
      · exact fun c member => kept c (Text.mem_of_mem_cutLine (.inr member))
  | case2 => exact ⟨scopeMade, made⟩

/-- The scope after a preamble and the body come from the text and the scope before. -/
theorem isMadeOf_read {content : String} {scope : Bindings} (scopeMade : scope.IsMadeOf p)
    (made : MadeOf p content) :
    (read content scope).1.IsMadeOf p ∧ MadeOf p (read content scope).2 := by
  have parts := isMadeOf_readFrom scopeMade made
  exact ⟨parts.1, Text.madeOf_ofList.mpr parts.2⟩

theorem readFrom_body (scope other : Bindings) (source : List Char) :
    (readFrom scope source).2 = (readFrom other source).2 := by
  fun_induction readFrom scope source generalizing other with
  | case1 scope rest ih =>
      rw [readFrom]
      exact ih _
  | case2 scope source plain => rw [readFrom.eq_2 _ _ plain]

/-- The body of a page does not depend on the scope that its preamble is read into. -/
theorem read_body (content : String) (scope other : Bindings) :
    (read content scope).2 = (read content other).2 :=
  congrArg String.ofList (readFrom_body scope other content.toList)

/-- The keys and values that the lines of a preamble declare, in their order. -/
def declarations (source : List Char) : List (String × String) :=
  match source with
  | '@' :: rest =>
      (declaration? (Text.dropCarriage (Text.cutLine rest).1)).toList ++
        declarations (Text.cutLine rest).2
  | _ => []
termination_by source.length
decreasing_by
  have := Text.length_cutLine_le rest
  simp only [List.length_cons]
  omega

/-- The value of the first declaration of a key at the top of a text. -/
def declared? (content key : String) : Option String :=
  Bindings.firstOf key (declarations content.toList)

theorem get?_declare (scope : Bindings) (line : List Char) (key : String) :
    (declare scope line).get? key =
      (scope.get? key).or
        (Bindings.firstOf key (declaration? (Text.dropCarriage line)).toList) := by
  unfold declare
  cases declaration? (Text.dropCarriage line) with
  | none => simp
  | some entry =>
      rcases entry with ⟨name, value⟩
      simp only [Option.toList_some, Bindings.firstOf_cons, Bindings.get?_setIfAbsent]
      by_cases same : name = key
      · cases given : scope.get? key <;> simp [same, given]
      · simp [same]

theorem get?_readFrom (scope : Bindings) (source : List Char) (key : String) :
    (readFrom scope source).1.get? key =
      (scope.get? key).or (Bindings.firstOf key (declarations source)) := by
  fun_induction readFrom scope source with
  | case1 scope rest ih =>
      rw [ih, get?_declare, declarations, Bindings.firstOf_append, Option.or_assoc]
  | case2 scope source plain => rw [declarations.eq_2 _ plain, Bindings.firstOf_nil, Option.or_none]

/-- A key keeps the value that it has in the scope, and else takes that of its first declaration. -/
theorem get?_read (content : String) (scope : Bindings) (key : String) :
    (read content scope).1.get? key = (scope.get? key).or (declared? content key) :=
  get?_readFrom scope content.toList key

/-- A value that is given before the preamble stays as one that is given after it. -/
theorem set_read (content : String) (scope : Bindings) (key value : String) :
    (read content scope).1.set key value = (read content (scope.set key value)).1 := by
  apply Bindings.ext
  intro other
  rw [Bindings.get?_set, get?_read, get?_read, Bindings.get?_set]
  by_cases same : key = other <;> simp [same]

/-- Only `@` begins a preamble. -/
theorem read_eq_self {content : String} (plain : content.toList.head? ≠ some '@')
    (scope : Bindings) : read content scope = (scope, content) := by
  have starts : ∀ rest, content.toList = '@' :: rest → False := by
    intro rest whole
    exact plain (by rw [whole]; rfl)
  simp only [read, readFrom.eq_2 _ _ starts, String.ofList_toList]

end Preamble

end Stencil
