import Mathlib.Data.List.Forall2
import Stencil.Command.Report

/-!
# JSON

What a JSON text says, as far as reports need it: there are no numbers, there is no `null`, and no
character is written as a pair of codes.  A value is read from the beginning of some characters, and
leaves the others.  What reports write is read back.
-/

namespace Stencil.Command

/-- A JSON value. -/
inductive Json where
  | bool (value : Bool)
  | text (text : String)
  | list (items : List Json)
  | object (members : List (String × Json))

namespace Json

/-- Blank characters between two parts of a text. -/
inductive Gap : List Char → List Char → Prop where
  | nil {rest : List Char} : Gap rest rest
  | cons {c : Char} {chars rest : List Char} :
      c = ' ' ∨ c = '\t' ∨ c = '\n' ∨ c = '\r' → Gap chars rest → Gap (c :: chars) rest

/-- The value of a hexadecimal digit. -/
def digit? (c : Char) : Option Nat :=
  if '0' ≤ c ∧ c ≤ '9' then some (c.toNat - '0'.toNat)
  else if 'a' ≤ c ∧ c ≤ 'f' then some (c.toNat - 'a'.toNat + 10)
  else if 'A' ≤ c ∧ c ≤ 'F' then some (c.toNat - 'A'.toNat + 10)
  else none

/-- A character between quotes. -/
inductive Symbol : Char → List Char → List Char → Prop where
  | plain {c : Char} {rest : List Char} :
      c ≠ '\x22' → c ≠ '\\' → 32 ≤ c.toNat → Symbol c (c :: rest) rest
  | quote {rest : List Char} : Symbol '\x22' ('\\' :: '\x22' :: rest) rest
  | backslash {rest : List Char} : Symbol '\\' ('\\' :: '\\' :: rest) rest
  | slash {rest : List Char} : Symbol '/' ('\\' :: '/' :: rest) rest
  | backspace {rest : List Char} : Symbol '\x08' ('\\' :: 'b' :: rest) rest
  | formFeed {rest : List Char} : Symbol '\x0c' ('\\' :: 'f' :: rest) rest
  | lineFeed {rest : List Char} : Symbol '\n' ('\\' :: 'n' :: rest) rest
  | carriageReturn {rest : List Char} : Symbol '\r' ('\\' :: 'r' :: rest) rest
  | tab {rest : List Char} : Symbol '\t' ('\\' :: 't' :: rest) rest
  | code {c first second third fourth : Char} {i j k l : Nat} {rest : List Char} :
      digit? first = some i → digit? second = some j → digit? third = some k →
      digit? fourth = some l → c.toNat = ((i * 16 + j) * 16 + k) * 16 + l →
      Symbol c ('\\' :: 'u' :: first :: second :: third :: fourth :: rest) rest

/-- Characters up to the quote that closes them. -/
inductive Symbols : List Char → List Char → List Char → Prop where
  | close {rest : List Char} : Symbols [] ('\x22' :: rest) rest
  | cons {c : Char} {text chars middle rest : List Char} :
      Symbol c chars middle → Symbols text middle rest → Symbols (c :: text) chars rest

/-- Items with commas between them, up to the bracket that closes them. -/
inductive Separated {α : Type} (reads : α → List Char → List Char → Prop) (closing : Char) :
    List α → List Char → List Char → Prop where
  | last {item : α} {chars start after rest : List Char} :
      Gap chars start → reads item start after → Gap after (closing :: rest) →
      Separated reads closing [item] chars rest
  | cons {item : α} {items : List α} {chars start after others rest : List Char} :
      Gap chars start → reads item start after → Gap after (',' :: others) →
      Separated reads closing items others rest →
      Separated reads closing (item :: items) chars rest

mutual

/-- A value at the beginning of some characters. -/
inductive Reads : Json → List Char → List Char → Prop where
  | true {rest : List Char} : Reads (.bool .true) ('t' :: 'r' :: 'u' :: 'e' :: rest) rest
  | false {rest : List Char} : Reads (.bool .false) ('f' :: 'a' :: 'l' :: 's' :: 'e' :: rest) rest
  | text {text : String} {chars rest : List Char} :
      Symbols text.toList chars rest → Reads (.text text) ('\x22' :: chars) rest
  | noItems {chars rest : List Char} :
      Gap chars (']' :: rest) → Reads (.list []) ('[' :: chars) rest
  | items {items : List Json} {chars rest : List Char} :
      Separated Reads ']' items chars rest → Reads (.list items) ('[' :: chars) rest
  | noMembers {chars rest : List Char} :
      Gap chars ('\x7d' :: rest) → Reads (.object []) ('\x7b' :: chars) rest
  | members {members : List (String × Json)} {chars rest : List Char} :
      Separated Member '\x7d' members chars rest → Reads (.object members) ('\x7b' :: chars) rest

/-- A member of an object, with its key. -/
inductive Member : String × Json → List Char → List Char → Prop where
  | mk {key : String} {value : Json} {chars colon before start rest : List Char} :
      Symbols key.toList chars colon → Gap colon (':' :: before) → Gap before start →
      Reads value start rest → Member (key, value) ('\x22' :: chars) rest

end

/-- A text says a value. -/
def Spells (text : String) (value : Json) : Prop :=
  ∃ start after, Gap text.toList start ∧ Reads value start after ∧ Gap after []

/-- A text is read as a value, whatever follows it. -/
def Writes {α : Type} (reads : α → List Char → List Char → Prop) (value : α)
    (text : String) : Prop :=
  ∀ rest, reads value (text.toList ++ rest) rest

theorem digit?_hexDigit {value : Nat} (small : value < 16) :
    digit? (hexDigit value) = some value := by
  revert value
  decide

theorem symbol_escaped (c : Char) (rest : List Char) : Symbol c (escaped c ++ rest) rest := by
  fun_cases escaped c with
  | case1 same => exact same ▸ .quote
  | case2 _ same => exact same ▸ .backslash
  | case3 _ _ same => exact same ▸ .lineFeed
  | case4 _ _ _ same => exact same ▸ .carriageReturn
  | case5 _ _ _ _ same => exact same ▸ .tab
  | case6 _ _ _ _ _ same => exact same ▸ .backspace
  | case7 _ _ _ _ _ _ same => exact same ▸ .formFeed
  | case8 =>
      refine .code (i := 0) (j := 0) rfl rfl (digit?_hexDigit ?_) (digit?_hexDigit ?_) ?_ <;> omega
  | case9 quote backslash _ _ _ _ _ high => exact .plain quote backslash (Nat.le_of_not_lt high)

theorem symbols_escaped (text rest : List Char) :
    Symbols text (text.flatMap escaped ++ '\x22' :: rest) rest := by
  induction text with
  | nil => exact .close
  | cons c text ih =>
      rw [List.flatMap_cons, List.append_assoc]
      exact .cons (symbol_escaped c _) ih

theorem toList_quoted (text : String) (rest : List Char) :
    (quoted text).toList ++ rest = '\x22' :: (text.toList.flatMap escaped ++ '\x22' :: rest) := by
  simp [quoted]

theorem writes_quoted (text : String) : Writes Reads (.text text) (quoted text) := by
  intro rest
  rw [toList_quoted]
  exact .text (symbols_escaped _ rest)

theorem writes_bool (value : Bool) :
    Writes Reads (.bool value) (if value then "true" else "false") := by
  intro rest
  cases value with
  | true => exact .true
  | false => exact .false

theorem writes_jsonMember (key : String) {value : Json} {text : String}
    (writes : Writes Reads value text) : Writes Member (key, value) (jsonMember key text) := by
  intro rest
  have written : (jsonMember key text).toList ++ rest =
      '\x22' :: (key.toList.flatMap escaped ++ '\x22' :: ':' :: ' ' :: (text.toList ++ rest)) := by
    rw [jsonMember, String.toList_append, String.toList_append, List.append_assoc,
      List.append_assoc, toList_quoted]
    rfl
  rw [written]
  exact .mk (symbols_escaped _ _) .nil (.cons (.inl rfl) .nil) (writes rest)

section Block

variable {α : Type} {reads : α → List Char → List Char → Prop} {values : List α}
  {texts : List String}

theorem gap_indent (depth : Nat) (rest : List Char) :
    Gap ((String.join (List.replicate depth "  ")).toList ++ rest) rest := by
  induction depth generalizing rest with
  | zero => exact .nil
  | succ depth ih =>
      rw [List.replicate_succ, String.join_cons, String.toList_append, List.append_assoc]
      exact .cons (.inl rfl) (.cons (.inl rfl) (ih rest))

/-- Items on lines of their own, each behind a margin, are separated. -/
theorem separated_lines (each : List.Forall₂ (Writes reads) values texts) (filled : texts ≠ [])
    {margin : String} (blank : ∀ rest, Gap (margin.toList ++ rest) rest) (closing : Char)
    {after rest : List Char} (ends : Gap after (closing :: rest)) :
    Separated reads closing values
      ('\n' :: ((",\n".intercalate (texts.map (margin ++ ·))).toList ++ after)) rest := by
  induction each with
  | nil => exact absurd rfl filled
  | @cons value text values texts writes each ih =>
      cases texts with
      | nil =>
          cases each
          rw [List.map_singleton, String.intercalate_singleton, String.toList_append,
            List.append_assoc]
          exact .last (.cons (.inr (.inr (.inl rfl))) (blank _)) (writes _) ends
      | cons next others =>
          rw [List.map_cons, List.map_cons, String.intercalate_cons_cons, ← List.map_cons,
            String.toList_append, String.toList_append, String.toList_append, List.append_assoc,
            List.append_assoc, List.append_assoc]
          exact .cons (.cons (.inr (.inr (.inl rfl))) (blank _)) (writes _) .nil (ih nofun)

theorem toList_block_nil (opening closing : String) (depth : Nat) (rest : List Char) :
    (block opening closing depth []).toList ++ rest =
      opening.toList ++ (closing.toList ++ rest) := by
  rw [← List.append_assoc, ← String.toList_append]
  rfl

/-- The items of a block are separated behind what opens it. -/
theorem toList_block (each : List.Forall₂ (Writes reads) values texts) (filled : texts ≠ [])
    (opening closing : String) (last : Char) (closes : closing = String.singleton last)
    (depth : Nat) (rest : List Char) :
    ∃ chars, (block opening closing depth texts).toList ++ rest = opening.toList ++ chars ∧
      Separated reads last values chars rest := by
  have ends : Gap ('\n' :: ((String.join (List.replicate depth "  ")).toList ++ last :: rest))
      (last :: rest) :=
    .cons (.inr (.inr (.inl rfl))) (gap_indent depth _)
  refine ⟨_, ?_, separated_lines each filled (gap_indent (depth + 1)) last ends⟩
  rw [block, if_neg (by simpa using filled)]
  simp [closes]

theorem writes_list {items : List Json} (each : List.Forall₂ (Writes Reads) items texts)
    (depth : Nat) : Writes Reads (.list items) (block "[" "]" depth texts) := by
  intro rest
  cases each with
  | nil =>
      rw [toList_block_nil]
      exact .noItems .nil
  | cons writes each =>
      obtain ⟨chars, written, separated⟩ :=
        toList_block (.cons writes each) (List.cons_ne_nil _ _) "[" "]" ']' (by decide) depth rest
      rw [written]
      exact .items separated

theorem writes_object {members : List (String × Json)}
    (each : List.Forall₂ (Writes Member) members texts) (depth : Nat) :
    Writes Reads (.object members) (block "\x7b" "\x7d" depth texts) := by
  intro rest
  cases each with
  | nil =>
      rw [toList_block_nil]
      exact .noMembers .nil
  | cons writes each =>
      obtain ⟨chars, written, separated⟩ :=
        toList_block (.cons writes each) (List.cons_ne_nil _ _) "\x7b" "\x7d" '\x7d' (by decide)
          depth rest
      rw [written]
      exact .members separated

end Block

end Json

end Stencil.Command
