import Stencil.Proofs.Preamble
import Stencil.Proofs.Text.Splits

/-!
# The lines of a preamble

A preamble is the longest run of whole lines at the top of a text that start with `@`, and the body
is all that follows.  A key without a value gets that of the first line that declares it.  So what
is written as a preamble, one declaration in a line, is read back from it.
-/

namespace Stencil

namespace Text

variable {c ending : Char} {source line : List Char}

/-- A line without a character at its end, if it ends with that one. -/
def dropEnding (ending : Char) (line : List Char) : List Char :=
  if line.getLast? = some ending then line.dropLast else line

theorem dropCarriage_eq (line : List Char) : dropCarriage line = dropEnding '\r' line := rfl

theorem dropEnding_of_last (other : line.getLast? ≠ some ending) : dropEnding ending line = line :=
  if_neg other

theorem dropEnding_concat (ending : Char) (line : List Char) :
    dropEnding ending (line ++ [ending]) = line := by
  rw [dropEnding, if_pos (by simp), List.dropLast_concat]

theorem dropEnding_cons (other : c ≠ ending) :
    dropEnding ending (c :: line) = c :: dropEnding ending line := by
  rcases List.eq_nil_or_concat line with rfl | ⟨front, last, rfl⟩
  · exact dropEnding_of_last (by simpa using other)
  · rw [List.concat_eq_append]
    by_cases same : last = ending
    · rw [same, ← List.cons_append, dropEnding_concat, dropEnding_concat]
    · have apart : (front ++ [last]).getLast? ≠ some ending := by simpa using same
      have behind : (c :: (front ++ [last])).getLast? ≠ some ending := by
        rwa [← List.cons_append, List.getLast?_concat, ← List.getLast?_concat]
      rw [dropEnding_of_last apart, dropEnding_of_last behind]

theorem firstLine_cons (other : c ≠ '\n') :
    firstLine (c :: source) = (c :: (firstLine source).1, (firstLine source).2) := by
  simp [firstLine, other]

/-- A line is cut off with its line feed, which is dropped. -/
theorem cutLine_eq (source : List Char) :
    cutLine source = (dropEnding '\n' (firstLine source).1, (firstLine source).2) := by
  refine Prod.ext ?_ rfl
  rw [cutLine, firstLine]
  cases behind : source.dropWhile (· != '\n') with
  | nil =>
      have plain : (source.takeWhile (· != '\n')).getLast? ≠ some '\n' := by
        intro last
        simpa using List.all_eq_true.mp List.all_takeWhile '\n' (List.mem_of_getLast? last)
      rw [List.take_nil, List.append_nil, dropEnding_of_last plain]
  | cons feed rest =>
      obtain rfl : feed = '\n' := by
        simpa [behind] using List.head?_dropWhile_not (· != '\n') source
      exact (dropEnding_concat '\n' _).symm

end Text

namespace Preamble

variable {scope : Bindings} {source line : List Char} {key value : String}

/-! ## Declarations -/

/-- A line is `@`, the key, `=` and the value, apart from its line feed and from one carriage return
before that.  The key goes on to the first `=`. -/
def Declares (line : List Char) (key value : String) : Prop :=
  '=' ∉ key.toList ∧
    Text.dropEnding '\r' (Text.dropEnding '\n' line) = '@' :: (key.toList ++ '=' :: value.toList)

/-- The first of some lines that declares a key gives it a value. -/
inductive FirstDeclares (key value : String) : List (List Char) → Prop
  | here {line : List Char} {rest : List (List Char)} (declares : Declares line key value) :
      FirstDeclares key value (line :: rest)
  | later {line : List Char} {rest : List (List Char)} (silent : ∀ other, ¬ Declares line key other)
      (first : FirstDeclares key value rest) : FirstDeclares key value (line :: rest)

theorem firstDeclares_cons_iff {rest : List (List Char)} :
    FirstDeclares key value (line :: rest) ↔
      Declares line key value ∨
        (∀ other, ¬ Declares line key other) ∧ FirstDeclares key value rest := by
  constructor
  · rintro (declares | ⟨silent, first⟩)
    · exact .inl declares
    · exact .inr ⟨silent, first⟩
  · rintro (declares | ⟨silent, first⟩)
    · exact .here declares
    · exact .later silent first

theorem declaration?_eq_some_iff :
    declaration? line = some (key, value) ↔
      '=' ∉ key.toList ∧ line = key.toList ++ '=' :: value.toList := by
  constructor
  · intro found
    unfold declaration? at found
    split at found
    · cases found
    next equals rest behind =>
      obtain ⟨rfl, rfl⟩ := Prod.mk.inj (Option.some.inj found)
      obtain rfl : equals = '=' := by
        simpa [behind] using List.head?_dropWhile_not (· != '=') line
      have parts := List.takeWhile_append_dropWhile (p := (· != '=')) (l := line)
      rw [behind] at parts
      rw [String.toList_ofList, String.toList_ofList]
      refine ⟨fun member => ?_, parts.symm⟩
      simpa using List.all_eq_true.mp List.all_takeWhile '=' member
  · rintro ⟨free, rfl⟩
    have pass : ∀ c ∈ key.toList, (c != '=') = true := by
      intro c member
      rw [bne_iff_ne]
      rintro rfl
      exact free member
    simp [declaration?, List.takeWhile_append_of_pos pass, List.dropWhile_append_of_pos pass]

/-- What is read behind `@` is what the whole line declares. -/
theorem declaration?_cutLine_iff :
    declaration? (Text.dropCarriage (Text.cutLine source).1) = some (key, value) ↔
      Declares ('@' :: (Text.firstLine source).1) key value := by
  rw [declaration?_eq_some_iff, Declares, Text.cutLine_eq, Text.dropCarriage_eq,
    Text.dropEnding_cons (by decide), Text.dropEnding_cons (by decide), List.cons_inj_right]

/-! ## The lines that are read -/

/-- The longest run of whole lines at the top of a text that start with `@`. -/
def topLines (source : List Char) : List (List Char) :=
  (Text.lines source).takeWhile (·.head? == some '@')

theorem topLines_cons (rest : List Char) :
    topLines ('@' :: rest) =
      ('@' :: (Text.firstLine rest).1) :: topLines (Text.firstLine rest).2 := by
  rw [topLines, Text.lines, Text.firstLine_cons (by decide)]
  simp [topLines]

/-- A text that does not start with `@` has no preamble. -/
theorem topLines_of_plain (plain : ∀ rest, source = '@' :: rest → False) :
    topLines source = [] := by
  rw [topLines]
  cases source with
  | nil =>
      rw [Text.lines]
      rfl
  | cons c rest =>
      have other : c ≠ '@' := fun same => plain rest (congrArg (· :: rest) same)
      rw [Text.lines, List.takeWhile_cons_of_neg]
      by_cases feed : c = '\n'
      · simp [Text.firstLine, feed]
      · simpa [Text.firstLine_cons feed] using other

/-- The lines that start with `@` are taken, and nothing else. -/
theorem flatten_topLines_append (scope : Bindings) (source : List Char) :
    (topLines source).flatten ++ (readFrom scope source).2 = source := by
  fun_induction readFrom scope source with
  | case1 scope rest ih =>
      rw [Text.cutLine_eq] at ih ⊢
      rw [topLines_cons, List.flatten_cons, List.append_assoc, ih, List.cons_append,
        Text.firstLine_append]
  | case2 scope source plain =>
      rw [topLines_of_plain plain]
      rfl

theorem head?_readFrom (scope : Bindings) (source : List Char) :
    (readFrom scope source).2.head? ≠ some '@' := by
  fun_induction readFrom scope source with
  | case1 scope rest ih => exact ih
  | case2 scope source plain =>
      intro first
      obtain ⟨rest, rfl⟩ := List.head?_eq_some_iff.mp first
      exact plain rest rfl

/-- The same lines are read before another body that does not start with `@`. -/
theorem readFrom_topLines_append {scope : Bindings} {source more : List Char}
    (plain : more.head? ≠ some '@') (ends : (readFrom scope source).2 = [] → more = []) :
    readFrom scope ((topLines source).flatten ++ more) = ((readFrom scope source).1, more) := by
  fun_induction readFrom scope source with
  | case1 scope rest ih =>
      have behind : (Text.firstLine rest).2 = [] →
          (topLines (Text.firstLine rest).2).flatten ++ more = [] := by
        intro nothing
        have plain : ∀ rest, ([] : List Char) = '@' :: rest → False := fun rest same => by
          cases same
        rw [Text.cutLine_eq, nothing, readFrom.eq_2 _ _ plain] at ends
        rw [nothing, ends rfl, topLines_of_plain plain]
        rfl
      rw [topLines_cons, List.flatten_cons, List.cons_append, List.cons_append, List.append_assoc,
        readFrom, Text.cutLine_eq, Text.firstLine_fst_append behind, ← ih ends, Text.cutLine_eq]
  | case2 scope source bodyOnly =>
      rw [topLines_of_plain bodyOnly, List.flatten_nil, List.nil_append]
      apply readFrom.eq_2
      rintro rest rfl
      exact plain rfl

theorem firstOf_toList_append_iff {given? : Option (String × String)}
    {entries : List (String × String)} :
    Bindings.firstOf key (given?.toList ++ entries) = some value ↔
      given? = some (key, value) ∨
        (∀ other, given? ≠ some (key, other)) ∧ Bindings.firstOf key entries = some value := by
  rcases given? with _ | ⟨name, other⟩
  · simp
  · by_cases same : name = key <;> simp [Bindings.firstOf_cons, same]

/-- The first value that is read for a key comes from the first line that declares the key. -/
theorem firstOf_declarations_iff :
    Bindings.firstOf key (declarations source) = some value ↔
      FirstDeclares key value (topLines source) := by
  fun_induction declarations source with
  | case1 rest ih =>
      simp only [topLines_cons, firstDeclares_cons_iff, firstOf_toList_append_iff, ih, ne_eq,
        declaration?_cutLine_iff]
      rw [Text.cutLine_eq]
  | case2 source plain =>
      rw [topLines_of_plain plain]
      exact iff_of_false nofun nofun

/-! ## Writing a preamble -/

/-- A key and a value that can be written in one line. -/
structure Writable (key value : String) : Prop where
  key_no_equals : '=' ∉ key.toList
  key_no_feed : '\n' ∉ key.toList
  value_no_feed : '\n' ∉ value.toList
  value_no_carriage : value.toList.getLast? ≠ some '\r'

/-- What is written of a declaration behind its `@`. -/
def declaredChars (key value : String) : List Char :=
  key.toList ++ '=' :: value.toList

/-- Declarations as a text, each in a line of its own. -/
def written (entries : List (String × String)) : String :=
  String.ofList (entries.flatMap fun (key, value) => '@' :: (declaredChars key value ++ ['\n']))

theorem written_cons (entry : String × String) (rest : List (String × String)) :
    (written (entry :: rest)).toList =
      '@' :: (declaredChars entry.1 entry.2 ++ '\n' :: (written rest).toList) := by
  simp [written]

namespace Writable

variable (writable : Writable key value)

include writable

theorem cutLine_declaredChars (more : List Char) :
    Text.cutLine (declaredChars key value ++ '\n' :: more) = (declaredChars key value, more) := by
  have pass : ∀ c ∈ declaredChars key value, (c != '\n') = true := by
    apply Text.forall_ne_feed
    simp [declaredChars, writable.key_no_feed, writable.value_no_feed]
  simp [Text.cutLine, List.takeWhile_append_of_pos pass, List.dropWhile_append_of_pos pass]

theorem declaration?_declaredChars :
    declaration? (Text.dropCarriage (declaredChars key value)) = some (key, value) := by
  have last : (declaredChars key value).getLast? ≠ some '\r' := by
    have behind := writable.value_no_carriage
    rw [declaredChars, List.getLast?_append, List.getLast?_cons, Option.some_or]
    cases ends : value.toList.getLast? with
    | none => decide
    | some c => rwa [ends] at behind
  rw [Text.dropCarriage_eq, Text.dropEnding_of_last last]
  exact declaration?_eq_some_iff.mpr ⟨writable.key_no_equals, rfl⟩

end Writable

section Written

variable {entries : List (String × String)} {body : String}
  (writable : ∀ entry ∈ entries, Writable entry.1 entry.2)
  (plain : body.toList.head? ≠ some '@')

include plain

theorem forall_ne_at (rest : List Char) : body.toList = '@' :: rest → False := by
  intro whole
  exact plain (by rw [whole]; rfl)

include writable

theorem declarations_written :
    declarations ((written entries).toList ++ body.toList) = entries := by
  induction entries with
  | nil => exact declarations.eq_2 _ (forall_ne_at plain)
  | cons entry rest ih =>
      rw [List.forall_mem_cons] at writable
      rw [written_cons, List.cons_append, List.append_assoc, List.cons_append, declarations,
        writable.1.cutLine_declaredChars, writable.1.declaration?_declaredChars, ih writable.2]
      rfl

theorem readFrom_written (scope : Bindings) :
    (readFrom scope ((written entries).toList ++ body.toList)).2 = body.toList := by
  induction entries generalizing scope with
  | nil => rw [written, List.flatMap_nil, String.toList_ofList, List.nil_append,
      readFrom.eq_2 _ _ (forall_ne_at plain)]
  | cons entry rest ih =>
      rw [List.forall_mem_cons] at writable
      rw [written_cons, List.cons_append, List.append_assoc, List.cons_append, readFrom,
        writable.1.cutLine_declaredChars]
      exact ih writable.2 _

end Written

/-! ## What a preamble gives -/

/-- What is left of a text and what it declares: all leading lines that start with `@` are taken,
and a key keeps its value, or else has that of the first of these lines that declares it. -/
structure Takes (content : String) (scope : Bindings) (after : Bindings × String) : Prop where
  whole : (topLines content.toList).flatten ++ after.2.toList = content.toList
  body_plain : after.2.toList.head? ≠ some '@'
  get?_iff : ∀ key value, after.1.get? key = some value ↔
    scope.get? key = some value ∨
      scope.get? key = none ∧ FirstDeclares key value (topLines content.toList)

theorem takes_read (content : String) (scope : Bindings) :
    Takes content scope (read content scope) where
  whole := by
    rw [read, String.toList_ofList]
    exact flatten_topLines_append scope content.toList
  body_plain := by
    rw [read, String.toList_ofList]
    exact head?_readFrom scope content.toList
  get?_iff key value := by
    rw [get?_read, declared?, Option.or_eq_some_iff, firstOf_declarations_iff]

/-- A preamble is all leading lines that start with `@`, whatever they hold, and gives each key
without a value that of its first declaration.  Declarations that are written before a body that
does not start with `@` are read back, and the body is left. -/
theorem read_takes :
    (∀ content scope, Takes content scope (read content scope)) ∧
      ∀ entries body, (∀ entry ∈ entries, Writable entry.1 entry.2) →
        body.toList.head? ≠ some '@' →
          (read (written entries ++ body) ∅).2 = body ∧
            ∀ key, (read (written entries ++ body) ∅).1.get? key =
              Bindings.firstOf key entries := by
  refine ⟨takes_read, fun entries body writable plain => ⟨?_, fun key => ?_⟩⟩
  · rw [← String.toList_inj, read, String.toList_ofList, String.toList_append,
      readFrom_written writable plain]
  · rw [get?_read, declared?, String.toList_append, declarations_written writable plain,
      Bindings.get?_empty, Option.none_or]

/-- Carriage returns, a line that declares nothing, an empty key and a second declaration, before
and after an empty line. -/
theorem read_takes_mixed :
    Takes "@a=1\r\n@b\n@=x=y\r\r\n@a=2\n\n@c=3" (Bindings.ofList [("b", "0")])
        (Bindings.ofList [("a", "1"), ("b", "0"), ("", "x=y\r")], "\n@c=3") ∧
      (read (written [("a", "1=\r2"), ("", ""), ("a", "3")] ++ "\r@") ∅).2 = "\r@" ∧
        (read (written [("a", "1=\r2"), ("", ""), ("a", "3")] ++ "\r@") ∅).1.get? "a" =
          some "1=\r2" := by
  have first : read "@a=1\r\n@b\n@=x=y\r\r\n@a=2\n\n@c=3" (Bindings.ofList [("b", "0")]) =
      (Bindings.ofList [("a", "1"), ("b", "0"), ("", "x=y\r")], "\n@c=3") := by decide +kernel
  have writable : ∀ entry ∈ [("a", "1=\r2"), ("", ""), ("a", "3")], Writable entry.1 entry.2 := by
    simp only [List.forall_mem_cons]
    exact ⟨⟨by decide, by decide, by decide, by decide⟩,
      ⟨by decide, by decide, by decide, by decide⟩,
      ⟨by decide, by decide, by decide, by decide⟩, nofun⟩
  obtain ⟨body, values⟩ := read_takes.2 _ "\r@" writable (by decide)
  exact ⟨first ▸ read_takes.1 _ _, body, (values "a").trans rfl⟩

end Preamble

end Stencil
