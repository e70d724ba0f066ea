import Stencil.Proofs.Markup.Seams

/-!
# Reading comes to an end

Asking for one token after the other moves a cursor over the page.  Each token takes at least one
character, and what was read and what is left always make up the page.  So a page never has more
tokens than characters, and written one after the other they are the page, whatever is wrong with
it.
-/

namespace Stencil.Markup

/-- Where the reading of a page stands: the element whose raw text comes next, if any, and the text
that is left. -/
structure Cursor where
  inside : Option String
  source : List Char

namespace Cursor

/-- The beginning of a page. -/
def start (page : String) : Cursor :=
  ⟨none, page.toList⟩

/-- The next token, and where reading stands after it. -/
def next? (cursor : Cursor) : Option (Token × Cursor) :=
  (Reading.next? cursor.inside cursor.source).map fun reading =>
    (reading.token, ⟨reading.inside, reading.rest⟩)

/-- Ask for a token a number of times.  Once there is none, asking again changes nothing. -/
def read : (times : Nat) → Cursor → List Token × Cursor
  | 0, cursor => ([], cursor)
  | times + 1, cursor =>
      match cursor.next? with
      | none => ([], cursor)
      | some (token, cursor) =>
          let (tokens, cursor) := read times cursor
          (token :: tokens, cursor)

variable {cursor after : Cursor} {token : Token}

/-- A token takes characters away from the front of the text that is left. -/
theorem of_next? (found : cursor.next? = some (token, after)) :
    token.raw ≠ "" ∧ token.raw.toList ++ after.source = cursor.source := by
  rcases Option.map_eq_some_iff.mp found with ⟨reading, read, same⟩
  obtain ⟨rfl, rfl⟩ := Prod.mk.inj same
  exact ⟨Reading.raw_ne_empty_of_next? read, Reading.whole_of_next? read⟩

/-- There is a next token as long as there is any text. -/
theorem next?_eq_none_iff : cursor.next? = none ↔ cursor.source = [] := by
  constructor
  · intro nothing
    exact Reading.next?_eq_none (Option.map_eq_none_iff.mp nothing)
  · intro empty
    cases found : cursor.next? with
    | none => rfl
    | some next =>
        obtain ⟨taken, whole⟩ := of_next? found
        rw [empty] at whole
        exact absurd (String.toList_eq_nil_iff.mp (List.append_eq_nil_iff.mp whole).1) taken

/-- The tokens of the text that is left are the next one and those of the text after it. -/
theorem tokensFrom_of_next? (found : cursor.next? = some (token, after)) :
    tokensFrom cursor.inside cursor.source = token :: tokensFrom after.inside after.source := by
  rcases Option.map_eq_some_iff.mp found with ⟨reading, read, same⟩
  obtain ⟨rfl, rfl⟩ := Prod.mk.inj same
  exact Markup.tokensFrom_of_next? read

/-- Where reading stands after a number of tokens, their characters and the text that is left make
up the text at the beginning, and no token is empty. -/
theorem read_append (times : Nat) (cursor : Cursor) :
    (read times cursor).1.flatMap (·.raw.toList) ++ (read times cursor).2.source = cursor.source ∧
      "" ∉ (read times cursor).1.map Token.raw := by
  induction times generalizing cursor with
  | zero => exact ⟨rfl, List.not_mem_nil⟩
  | succ times ih =>
      rw [read]
      cases found : cursor.next? with
      | none => exact ⟨rfl, List.not_mem_nil⟩
      | some next =>
          rcases next with ⟨token, after⟩
          obtain ⟨taken, whole⟩ := of_next? found
          obtain ⟨parts, filled⟩ := ih after
          dsimp only
          rw [List.flatMap_cons, List.append_assoc, parts, whole, List.map_cons, List.mem_cons]
          exact ⟨rfl, not_or.mpr ⟨taken.symm, filled⟩⟩

/-- Asking a number of times gives as many of the tokens, and leaves the others. -/
theorem read_eq (times : Nat) (cursor : Cursor) :
    (read times cursor).1 = (tokensFrom cursor.inside cursor.source).take times ∧
      tokensFrom (read times cursor).2.inside (read times cursor).2.source =
        (tokensFrom cursor.inside cursor.source).drop times := by
  induction times generalizing cursor with
  | zero => exact ⟨rfl, rfl⟩
  | succ times ih =>
      rw [read]
      cases found : cursor.next? with
      | none => simp [next?_eq_none_iff.mp found]
      | some next =>
          rcases next with ⟨token, after⟩
          obtain ⟨taken, left⟩ := ih after
          rw [tokensFrom_of_next? found]
          exact ⟨congrArg (token :: ·) taken, left⟩

/-- There is no next token just when there are no tokens in the text that is left. -/
theorem tokensFrom_eq_nil_iff : tokensFrom cursor.inside cursor.source = [] ↔ cursor.next? = none := by
  cases found : cursor.next? with
  | none => simp [next?_eq_none_iff.mp found]
  | some next => simp [tokensFrom_of_next? found]

end Cursor

/-- No more tokens stand in a text than characters. -/
theorem length_tokensFrom_le (inside : Option String) (source : List Char) :
    (tokensFrom inside source).length ≤ source.length := by
  fun_induction tokensFrom inside source with
  | case1 => exact Nat.zero_le _
  | case2 inside source reading found ih =>
      have shorter := Reading.length_rest_lt found
      rw [List.length_cons]
      omega

/-- The tokens of a page, written one after the other, are the page. -/
theorem join_raw_tokenize (page : String) : String.join ((tokenize page).map Token.raw) = page := by
  rw [← String.toList_inj, String.toList_join, List.flatMap_map]
  exact flatMap_raw_tokensFrom none page.toList

/-- Whatever a page holds, asking for one token after the other comes to an end after no more tokens
than the page has characters.  No token is empty, and the tokens in their order are the page. -/
theorem tokenize_partition (page : String) :
    (tokenize page).length ≤ page.length ∧
      (∀ times, ((Cursor.start page).read times).1 = (tokenize page).take times ∧
        (((Cursor.start page).read times).2.next? = none ↔ (tokenize page).length ≤ times)) ∧
      "" ∉ (tokenize page).map Token.raw ∧
        String.join ((tokenize page).map Token.raw) = page := by
  have all := (Cursor.read_eq page.length (Cursor.start page)).1
  have few : (tokenize page).length ≤ page.length := by
    rw [← String.length_toList]
    exact length_tokensFrom_le none page.toList
  have whole : (Cursor.start page |>.read page.length).1 = tokenize page :=
    all.trans (List.take_of_length_le few)
  refine ⟨few, fun times => ?_, ?_, join_raw_tokenize page⟩
  · obtain ⟨taken, left⟩ := Cursor.read_eq times (Cursor.start page)
    rw [← Cursor.tokensFrom_eq_nil_iff, left, List.drop_eq_nil_iff]
    exact ⟨taken, Iff.rfl⟩
  · rw [← whole]
    exact (Cursor.read_append page.length (Cursor.start page)).2

/-- An element with raw text that closes at once, and a tag that never ends. -/
example : (tokenize "<script></script><a b='").map Token.raw =
    ["<script>", "</script>", "<a b='"] := by decide +kernel

end Stencil.Markup
