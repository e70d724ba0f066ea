import Mathlib.Data.List.Induction
import Stencil.Proofs.Markup.Seams
import Stencil.Proofs.Text.LetterCase

/-!
# The attributes of a tag

A key may occur in a tag several times.  The attributes of the tag hold it once, at the place of its
first occurrence and with the value of its last.  The occurrences are told here from the lexemes of
the tag alone, one after the other: a key, and behind an equals sign its value, between quotation
marks or up to the next gap.  The machine that reads tags lexeme by lexeme collects just these.
-/

namespace Stencil.Markup

/-! ## Keys that occur several times -/

namespace Attribute

variable {key value : String} {given : Attribute} {attributes occurrences : List Attribute}

/-- Give the keys of some occurrences their values, one after the other. -/
def gather (attributes occurrences : List Attribute) : List Attribute :=
  occurrences.foldl (fun before given => put given.key given.value before) attributes

@[simp]
theorem gather_nil (attributes : List Attribute) : gather attributes [] = attributes := rfl

@[simp]
theorem gather_cons (attributes : List Attribute) (given : Attribute)
    (occurrences : List Attribute) :
    gather attributes (given :: occurrences) =
      gather (put given.key given.value attributes) occurrences := rfl

theorem gather_concat (attributes occurrences : List Attribute) (given : Attribute) :
    gather attributes (occurrences ++ [given]) =
      put given.key given.value (gather attributes occurrences) := by
  rw [gather, List.foldl_append]
  rfl

theorem put_of_not_mem (value : String) (fresh : key ∉ attributes.map Attribute.key) :
    put key value attributes = attributes ++ [⟨key, value⟩] := by
  induction attributes with
  | nil => rfl
  | cons first rest ih =>
      rw [List.map_cons, List.mem_cons, not_or] at fresh
      rw [put, if_neg (Ne.symm fresh.1), ih fresh.2, List.cons_append]

/-- Attributes with different keys are kept in their order. -/
theorem gather_of_nodup (distinct : ((attributes ++ occurrences).map Attribute.key).Nodup) :
    gather attributes occurrences = attributes ++ occurrences := by
  induction occurrences generalizing attributes with
  | nil => rw [gather_nil, List.append_nil]
  | cons first rest ih =>
      have fresh : first.key ∉ attributes.map Attribute.key := by
        rw [List.map_append, List.map_cons] at distinct
        exact fun member => (List.nodup_append.mp distinct).2.2 _ member _ List.mem_cons_self rfl
      have onward : attributes ++ first :: rest = attributes ++ [first] ++ rest := by simp
      rw [gather_cons, put_of_not_mem first.value fresh, onward]
      exact ih (onward ▸ distinct)

/-- A key that is given a value has no other. -/
theorem of_mem_put (distinct : (attributes.map Attribute.key).Nodup)
    (member : given ∈ put key value attributes) :
    given = ⟨key, value⟩ ∨ given ∈ attributes ∧ given.key ≠ key := by
  induction attributes with
  | nil => exact .inl (List.mem_singleton.mp member)
  | cons first rest ih =>
      obtain ⟨fresh, distinct⟩ := List.nodup_cons.mp distinct
      rw [put] at member
      split at member
      next same =>
        rcases List.mem_cons.mp member with rfl | behind
        · exact .inl rfl
        · refine .inr ⟨List.mem_cons_of_mem _ behind, fun again => fresh ?_⟩
          rw [same, ← again]
          exact List.mem_map_of_mem behind
      next other =>
        rcases List.mem_cons.mp member with rfl | behind
        · exact .inr ⟨List.mem_cons_self, other⟩
        · exact (ih distinct behind).imp_right (And.imp_left (List.mem_cons_of_mem _))

/-- Attributes hold each key that occurs once, at the place of its first occurrence and with the
value of its last. -/
structure Gathers (occurrences attributes : List Attribute) : Prop where
  distinct : (attributes.map Attribute.key).Nodup
  first : attributes.map Attribute.key = (occurrences.map Attribute.key).eraseDups
  last : ∀ given ∈ attributes, (occurrences.filter (·.key == given.key)).getLast? = some given

theorem Gathers.mem (gathers : Gathers occurrences attributes) (member : given ∈ attributes) :
    given ∈ occurrences :=
  (List.mem_filter.mp (List.mem_of_getLast? (gathers.last given member))).1

/-- One more occurrence changes the value of its key, or adds the key at the end. -/
theorem Gathers.put (gathers : Gathers occurrences attributes) (given : Attribute) :
    Gathers (occurrences ++ [given]) (put given.key given.value attributes) := by
  have known : given.key ∈ attributes.map Attribute.key ↔
      given.key ∈ occurrences.map Attribute.key := by
    rw [gathers.first, List.mem_eraseDups]
  refine ⟨?_, ?_, fun other member => ?_⟩
  · rw [keys_put]
    split
    · exact gathers.distinct
    next fresh =>
      refine List.nodup_append.mpr ⟨gathers.distinct, by simp, fun name member other last => ?_⟩
      rintro rfl
      exact fresh (List.mem_singleton.mp last ▸ member)
  · rw [keys_put, List.map_append, List.eraseDups_append, ← gathers.first]
    by_cases again : given.key ∈ occurrences.map Attribute.key
    · rw [if_pos (known.mpr again)]
      simp [List.cons_removeAll, again]
    · rw [if_neg (again ∘ known.mp)]
      simp [List.cons_removeAll, List.eraseDups_cons, again]
  · rw [List.filter_append, List.getLast?_append]
    rcases of_mem_put gathers.distinct member with rfl | ⟨inside, apart⟩
    · simp
    · simp [Ne.symm apart, gathers.last other inside]

theorem gathers_gather (occurrences : List Attribute) :
    Gathers occurrences (gather [] occurrences) := by
  induction occurrences using List.reverseRecOn with
  | nil => exact ⟨List.nodup_nil, rfl, nofun⟩
  | append_singleton front given ih =>
      rw [gather_concat]
      exact ih.put given

end Attribute

/-! ## The occurrences of keys -/

namespace Lexeme

/-- The lexemes of a text, up to a quotation mark without a partner. -/
def lexemes (source : List Char) : List Lexeme :=
  match _h : next? source with
  | none => []
  | some (lexeme, rest) => lexeme :: lexemes rest
termination_by source.length
decreasing_by exact length_lt_of_next? _h

/-- Whether a lexeme is a gap. -/
def isBlank : Lexeme → Bool
  | gap _ => true
  | close | selfClose | slash | equals | quoted _ _ | word _ => false

/-- An unquoted value, and the lexemes behind it.  It goes on to the next gap or to the end of the
tag, and a slash directly before the end belongs to it. -/
def unquotedValue : List Lexeme → List Char × List Lexeme
  | [] => ([], [])
  | lexeme :: rest =>
      match lexeme with
      | gap _ | close => ([], lexeme :: rest)
      | selfClose => (['/'], close :: rest)
      | slash | equals | quoted _ _ | word _ =>
          (lexeme.text ++ (unquotedValue rest).1, (unquotedValue rest).2)

/-- A value that comes next, and the lexemes behind it.  There is none where the tag ends. -/
def valueAt : List Lexeme → List Char × List Lexeme
  | quoted _ body :: rest => (body, rest)
  | selfClose :: rest => ([], selfClose :: rest)
  | lexemes => unquotedValue lexemes

/-- The value of a key that stands before some lexemes, and the lexemes behind it.  Without an equals
sign the value is empty. -/
def valueBehind (lexemes : List Lexeme) : List Char × List Lexeme :=
  match lexemes.dropWhile isBlank with
  | equals :: rest => valueAt (rest.dropWhile isBlank)
  | rest => ([], rest)

theorem length_unquotedValue_le (lexemes : List Lexeme) :
    (unquotedValue lexemes).2.length ≤ lexemes.length := by
  induction lexemes with
  | nil => exact Nat.le_refl _
  | cons lexeme rest ih =>
      cases lexeme with
      | gap | close | selfClose => exact Nat.le_refl _
      | slash | equals | quoted | word => exact Nat.le_succ_of_le ih

theorem length_valueAt_le (lexemes : List Lexeme) :
    (valueAt lexemes).2.length ≤ lexemes.length := by
  unfold valueAt
  split
  · exact Nat.le_succ _
  · exact Nat.le_refl _
  · exact length_unquotedValue_le _

theorem length_valueBehind_le (lexemes : List Lexeme) :
    (valueBehind lexemes).2.length ≤ lexemes.length := by
  have shorter : ∀ all : List Lexeme, (all.dropWhile isBlank).length ≤ all.length :=
    fun all => (List.dropWhile_sublist _).length_le
  unfold valueBehind
  split
  next rest behind =>
    have whole := shorter lexemes
    rw [behind, List.length_cons] at whole
    exact Nat.le_trans (length_valueAt_le _) (Nat.le_trans (shorter rest) (Nat.le_of_succ_le whole))
  · exact shorter lexemes

/-- The attributes that are written with the lexemes of a tag, in their order and with every
repetition of a key. -/
def occurrences : List Lexeme → List Attribute
  | [] => []
  | lexeme :: rest =>
      match lexeme with
      | close | selfClose => []
      | gap _ | slash => occurrences rest
      | equals | quoted _ _ | word _ =>
          ⟨(String.ofList lexeme.text).toLower, String.ofList (valueBehind rest).1⟩ ::
            occurrences (valueBehind rest).2
termination_by lexemes => lexemes.length
decreasing_by
  · exact Nat.lt_succ_self _
  · exact Nat.lt_succ_of_le (length_valueBehind_le rest)

/-- Every key that occurs is in lower case. -/
theorem small_of_mem_occurrences {lexemes : List Lexeme} {given : Attribute}
    (member : given ∈ occurrences lexemes) : Text.MadeOf (·.isUpper = false) given.key := by
  fun_induction occurrences lexemes with
  -- The tag is over.
  | case1 | case2 | case3 => cases member
  -- A gap or a slash comes first.
  | case4 _ _ ih | case5 _ ih => exact ih member
  -- A key comes first.
  | case6 _ ih | case7 _ _ _ ih | case8 _ _ ih =>
      rcases List.mem_cons.mp member with rfl | behind
      · exact Text.small_toLower _
      · exact ih behind

/-- A key with a value that has been found, and what occurs behind the value. -/
def occurrencesFrom (key : String) (value : List Char × List Lexeme) : List Attribute :=
  ⟨key, String.ofList value.1⟩ :: occurrences value.2

variable {source rest : List Char} {lexeme : Lexeme}

@[simp]
theorem lexemes_nil : lexemes [] = [] := by
  rw [lexemes]
  rfl

theorem lexemes_of_next? (found : next? source = some (lexeme, rest)) :
    lexemes source = lexeme :: lexemes rest := by
  rw [lexemes]
  split
  next none => cases none.symm.trans found
  next read =>
    obtain ⟨rfl, rfl⟩ := Prod.mk.inj (Option.some.inj (found.symm.trans read))
    rfl

end Lexeme

/-! ## Reading collects the occurrences -/

namespace Progress

/-- The occurrences still to come, with the one that has been read in part. -/
def occurrences : Progress → List Lexeme → List Attribute
  | between, lexemes => Lexeme.occurrences lexemes
  | afterKey key, lexemes => Lexeme.occurrencesFrom key (Lexeme.valueBehind lexemes)
  | beforeValue key, lexemes =>
      Lexeme.occurrencesFrom key (Lexeme.valueAt (lexemes.dropWhile Lexeme.isBlank))
  | unquoted key value, lexemes =>
      let (more, rest) := Lexeme.unquotedValue lexemes
      Lexeme.occurrencesFrom key (value.toList ++ more, rest)

variable {progress next : Progress} {attributes middle final : List Attribute} {lexeme : Lexeme}
  {selfClosing : Bool}

-- Both sides are what is gathered when the whole tag has been read: a lexeme takes an occurrence from
-- those still to come just when the machine gives its key a value.

/-- Reading a lexeme after which a tag goes on does not change what is gathered in the end. -/
theorem gather_of_goOn (goesOn : progress.advance attributes lexeme = .goOn next middle)
    (rest : List Lexeme) :
    Attribute.gather attributes (progress.occurrences (lexeme :: rest)) =
      Attribute.gather middle (next.occurrences rest) := by
  cases progress with
  | between =>
      cases lexeme with
      | gap | slash | equals | quoted | word =>
          obtain ⟨rfl, rfl⟩ := Advance.goOn.inj goesOn
          simp [occurrences, Lexeme.occurrences, keyOf, Lexeme.occurrencesFrom]
      | close | selfClose => cases goesOn
  | afterKey key =>
      cases lexeme with
      | gap | equals =>
          obtain ⟨rfl, rfl⟩ := Advance.goOn.inj goesOn
          rfl
      | slash | quoted | word =>
          obtain ⟨rfl, rfl⟩ := Advance.goOn.inj goesOn
          simp [occurrences, Lexeme.occurrencesFrom, Lexeme.valueBehind, Lexeme.isBlank,
            Lexeme.occurrences, keyOf]
      | close | selfClose => cases goesOn
  | beforeValue key =>
      cases lexeme with
      | gap | quoted =>
          obtain ⟨rfl, rfl⟩ := Advance.goOn.inj goesOn
          rfl
      | slash | equals | word =>
          obtain ⟨rfl, rfl⟩ := Advance.goOn.inj goesOn
          simp [occurrences, Lexeme.occurrencesFrom, Lexeme.valueAt, Lexeme.isBlank,
            Lexeme.unquotedValue]
      | close | selfClose => cases goesOn
  | unquoted key value =>
      cases lexeme with
      | gap =>
          obtain ⟨rfl, rfl⟩ := Advance.goOn.inj goesOn
          simp [occurrences, Lexeme.occurrencesFrom, Lexeme.unquotedValue, Lexeme.occurrences]
      | slash | equals | quoted | word =>
          obtain ⟨rfl, rfl⟩ := Advance.goOn.inj goesOn
          simp [occurrences, Lexeme.occurrencesFrom, Lexeme.unquotedValue]
      | close | selfClose => cases goesOn

/-- With the sign that ends a tag all is gathered. -/
theorem gather_of_stop (stopped : progress.advance attributes lexeme = .stop selfClosing final)
    (rest : List Lexeme) :
    Attribute.gather attributes (progress.occurrences (lexeme :: rest)) = final := by
  rcases advance_eq_stop stopped with rfl | rfl <;>
    cases progress with
    | between | afterKey | beforeValue | unquoted =>
        obtain ⟨-, rfl⟩ := Advance.stop.inj stopped
        simp [occurrences, Lexeme.occurrencesFrom, Lexeme.valueBehind, Lexeme.valueAt,
          Lexeme.isBlank, Lexeme.unquotedValue, Lexeme.occurrences]

end Progress

namespace Interior

variable {progress : Progress} {attributes : List Attribute} {taken source : List Char}
  {interior : Interior}

/-- Reading gathers the occurrences still to come. -/
theorem attributes_of_readFrom?
    (found : readFrom? progress attributes taken source = some interior) :
    interior.attributes =
      Attribute.gather attributes (progress.occurrences (Lexeme.lexemes source)) := by
  fun_induction readFrom? progress attributes taken source with
  | case1 => cases found
  | case2 progress attributes taken source lexeme rest read selfClosing final stopped =>
      obtain rfl := Option.some.inj found
      rw [Lexeme.lexemes_of_next? read, Progress.gather_of_stop stopped]
  | case3 progress attributes taken source lexeme rest read next middle goesOn ih =>
      rw [Lexeme.lexemes_of_next? read, Progress.gather_of_goOn goesOn]
      exact ih found

/-- An interior with nothing behind it is made of lexemes. -/
theorem flatMap_text_lexemes
    (found : readFrom? progress attributes taken source = some interior)
    (whole : interior.rest = []) : (Lexeme.lexemes source).flatMap Lexeme.text = source := by
  fun_induction readFrom? progress attributes taken source with
  | case1 => cases found
  | case2 progress attributes taken source lexeme rest read selfClosing final stopped =>
      obtain rfl := Option.some.inj found
      obtain rfl : rest = [] := whole
      rw [Lexeme.lexemes_of_next? read, Lexeme.lexemes_nil, List.flatMap_singleton]
      simpa using Lexeme.next?_eq_some read
  | case3 progress attributes taken source lexeme rest read next middle goesOn ih =>
      rw [Lexeme.lexemes_of_next? read, List.flatMap_cons, ih found]
      exact Lexeme.next?_eq_some read

/-- The attributes of a tag are gathered from the occurrences of keys in its lexemes. -/
theorem gathers_read? (found : read? source = some interior) :
    Attribute.Gathers (Lexeme.occurrences (Lexeme.lexemes interior.raw)) interior.attributes := by
  have same := attributes_of_readFrom? (read?_raw found)
  dsimp only [Progress.occurrences] at same
  rw [same]
  exact Attribute.gathers_gather _

end Interior

end Stencil.Markup
