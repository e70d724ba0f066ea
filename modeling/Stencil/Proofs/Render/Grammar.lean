import Stencil.Error
import Stencil.Render.Role

/-!
# The grammar of composition tags

A page is text with inclusions in it, and an inclusion holds text, inclusions and variables.  A
variable holds text and inclusions again.  The grammar says which sequences of tokens are pages, and
a stack of the tags that are still open tells whether a sequence can become one.
-/

namespace Stencil.Render

open Markup (Token)

/-- The kind and the name of the tag that a role is about. -/
def Role.mark? : Role → Option (TagKind × String)
  | plain => none
  | inclusion tag _ => some (.inclusion, tag)
  | assignment tag _ => some (.assignment, tag)

/-- The kind and the name of a composition tag. -/
def markOf? (dialect : Dialect) (token : Token) : Option (TagKind × String) :=
  (roleOf dialect token).mark?

/-- The parts of a page. -/
inductive Phrase where
  /-- Text, tags that mean nothing here, inclusions, and variables where they are allowed. -/
  | content (mixed : Bool)
  /-- An inclusion or a variable. -/
  | element (kind : TagKind)

/-- Variables stand directly inside inclusions only. -/
def Phrase.inside : TagKind → Phrase
  | .inclusion => content true
  | .assignment => content false

/-- The sequences of tokens that a phrase stands for. -/
inductive Derives (dialect : Dialect) : Phrase → List Token → Prop
  | nil {mixed : Bool} : Derives dialect (.content mixed) []
  | plain {mixed : Bool} {token : Token} {rest : List Token} :
      markOf? dialect token = none → Derives dialect (.content mixed) rest →
        Derives dialect (.content mixed) (token :: rest)
  | inclusion {mixed : Bool} {tag rest : List Token} :
      Derives dialect (.element .inclusion) tag → Derives dialect (.content mixed) rest →
        Derives dialect (.content mixed) (tag ++ rest)
  | assignment {tag rest : List Token} :
      Derives dialect (.element .assignment) tag → Derives dialect (.content true) rest →
        Derives dialect (.content true) (tag ++ rest)
  | selfClosing {kind : TagKind} {name : String} {token : Token} :
      markOf? dialect token = some (kind, name) → token.opens = true → token.closes = true →
        Derives dialect (.element kind) [token]
  | enclosed {kind : TagKind} {name : String} {opening closing : Token} {inner : List Token} :
      markOf? dialect opening = some (kind, name) → opening.opens = true → opening.closes = false →
        Derives dialect (.inside kind) inner →
          markOf? dialect closing = some (kind, name) → closing.opens = false →
            closing.closes = true → Derives dialect (.element kind) (opening :: (inner ++ [closing]))

/-- The tokens are a whole page. -/
abbrev Sentence (dialect : Dialect) (tokens : List Token) : Prop :=
  Derives dialect (.content false) tokens

/-- More tokens can make a whole page of the tokens. -/
def Extendable (dialect : Dialect) (tokens : List Token) : Prop :=
  ∃ ending, Sentence dialect (tokens ++ ending)

theorem Extendable.front {dialect : Dialect} {tokens front : List Token}
    (extendable : Extendable dialect tokens) (start : front <+: tokens) :
    Extendable dialect front := by
  rcases extendable with ⟨ending, sentence⟩
  rcases start with ⟨rest, rfl⟩
  exact ⟨rest ++ ending, by rwa [← List.append_assoc]⟩

/-- The last tag that is still open after the tokens has the name `tag`. -/
def InnermostOpen (dialect : Dialect) (tokens : List Token) (tag : String) : Prop :=
  ∃ before opening inner kind, tokens = before ++ opening :: inner ∧
    markOf? dialect opening = some (kind, tag) ∧ opening.opens = true ∧ opening.closes = false ∧
      Derives dialect (.inside kind) inner

section Stacks

variable (dialect : Dialect)

/-- The innermost open tag is an inclusion. -/
def InsideInclusion (stack : List Token) : Prop :=
  (stack.head?.bind (markOf? dialect)).map Prod.fst = some .inclusion

instance (stack : List Token) : Decidable (InsideInclusion dialect stack) :=
  inferInstanceAs (Decidable (_ = _))

/-- Open a tag.  A variable has to stand directly inside an inclusion. -/
def openTag (stack : List Token) (token : Token) (kind : TagKind) : Option (List Token) :=
  if kind = .inclusion ∨ InsideInclusion dialect stack then some (token :: stack) else none

/-- Close the innermost open tag, which has to be of the same kind and name. -/
def closeTag (stack : List Token) (mark : TagKind × String) : Option (List Token) :=
  match stack with
  | [] => none
  | opening :: outer => if markOf? dialect opening = some mark then some outer else none

/-- The tags that are open after a token, the innermost first, if the token may stand there. -/
def nest (stack : List Token) (token : Token) : Option (List Token) :=
  match markOf? dialect token with
  | none => some stack
  | some mark =>
      (if token.opens then openTag dialect stack token mark.1 else some stack).bind fun opened =>
        if token.closes then closeTag dialect opened mark else some opened

/-- The tags that are open after some tokens. -/
def nestAll (stack tokens : List Token) : Option (List Token) :=
  tokens.foldlM (nest dialect) stack

/-- The stacks on which a phrase may stand. -/
def Phrase.Fits (stack : List Token) : Phrase → Prop
  | content mixed => mixed = true → InsideInclusion dialect stack
  | element kind => kind = .inclusion ∨ InsideInclusion dialect stack

variable {dialect} {stack opened : List Token} {token : Token} {kind : TagKind} {tag : String}

theorem opens_or_closes (marked : markOf? dialect token = some (kind, tag)) :
    token.opens = true ∨ token.closes = true := by
  cases token with
  | text raw | comment raw => simp [markOf?, roleOf, Token.name?, Role.mark?] at marked
  | startTag raw name attributes | selfClosingTag raw name attributes => exact .inl rfl
  | endTag raw name => exact .inr rfl

/-- A composition tag is closed by a tag of its name. -/
theorem markOf?_endTag (marked : markOf? dialect token = some (kind, tag)) :
    markOf? dialect (.endTag ("</" ++ tag ++ ">") tag) = some (kind, tag) := by
  have named : token.name? = some tag := by
    unfold markOf? roleOf at marked
    split at marked
    · cases marked
    · split at marked
      · simp_all [Role.mark?]
      · split at marked <;> simp_all [Role.mark?]
  rw [← marked]
  simp only [markOf?, roleOf, Token.nameAfter?, named]
  rfl

@[simp]
theorem nestAll_nil : nestAll dialect stack [] = some stack := rfl

@[simp]
theorem nestAll_cons {tokens : List Token} :
    nestAll dialect stack (token :: tokens) =
      (nest dialect stack token).bind fun opened => nestAll dialect opened tokens := rfl

@[simp]
theorem nestAll_append {first second : List Token} :
    nestAll dialect stack (first ++ second) =
      (nestAll dialect stack first).bind fun opened => nestAll dialect opened second := by
  unfold nestAll
  rw [List.foldlM_append]
  rfl

theorem openTag_eq_some_iff :
    openTag dialect stack token kind = some opened ↔
      (kind = .inclusion ∨ InsideInclusion dialect stack) ∧ opened = token :: stack := by
  unfold openTag
  split <;> simp_all [eq_comm]

theorem closeTag_eq_some_iff {mark : TagKind × String} :
    closeTag dialect stack mark = some opened ↔
      ∃ opening, stack = opening :: opened ∧ markOf? dialect opening = some mark := by
  cases stack with
  | nil => simp [closeTag]
  | cons first outer =>
      unfold closeTag
      grind

theorem insideInclusion_cons {outer : List Token}
    (marked : markOf? dialect token = some (kind, tag)) :
    InsideInclusion dialect (token :: outer) ↔ kind = .inclusion := by
  simp [InsideInclusion, marked]

theorem inside_fits {outer : List Token} (marked : markOf? dialect token = some (kind, tag)) :
    (Phrase.inside kind).Fits dialect (token :: outer) := by
  cases kind with
  | inclusion => exact fun _ => (insideInclusion_cons marked).mpr rfl
  | assignment => exact nofun

theorem nest_plain (plain : markOf? dialect token = none) :
    nest dialect stack token = some stack := by
  simp [nest, plain]

theorem nest_start (marked : markOf? dialect token = some (kind, tag)) (opens : token.opens = true)
    (closes : token.closes = false) :
    nest dialect stack token = openTag dialect stack token kind := by
  simp [nest, marked, opens, closes]

theorem nest_end (marked : markOf? dialect token = some (kind, tag)) (opens : token.opens = false)
    (closes : token.closes = true) :
    nest dialect stack token = closeTag dialect stack (kind, tag) := by
  simp [nest, marked, opens, closes]

theorem nest_selfClosing (marked : markOf? dialect token = some (kind, tag))
    (opens : token.opens = true) (closes : token.closes = true) :
    nest dialect stack token =
      if kind = .inclusion ∨ InsideInclusion dialect stack then some stack else none := by
  unfold nest openTag
  simp only [marked, opens, closes, if_true]
  split <;> simp [closeTag, marked]

/-- The tokens of a phrase may stand wherever it fits, and leave the tags there open. -/
theorem Derives.nestAll_eq {phrase : Phrase} {tokens : List Token}
    (derives : Derives dialect phrase tokens) (fits : phrase.Fits dialect stack) :
    nestAll dialect stack tokens = some stack := by
  induction derives generalizing stack with
  | nil => rfl
  | plain plain _ ih =>
      rw [nestAll_cons, nest_plain plain]
      exact ih fits
  | inclusion _ _ ihTag ihRest =>
      rw [nestAll_append, ihTag (.inl rfl)]
      exact ihRest fits
  | assignment _ _ ihTag ihRest =>
      rw [nestAll_append, ihTag (.inr (fits rfl))]
      exact ihRest fits
  | selfClosing marked opens closes =>
      rw [nestAll_cons, nest_selfClosing marked opens closes]
      exact congrArg (Option.bind · _) (if_pos fits)
  | @enclosed kind name opening closing inner marked opens stays _ markedLast staysLast closesLast ih =>
      have opened : openTag dialect stack opening kind = some (opening :: stack) :=
        openTag_eq_some_iff.mpr ⟨fits, rfl⟩
      have closed : closeTag dialect (opening :: stack) (kind, name) = some stack :=
        closeTag_eq_some_iff.mpr ⟨opening, rfl, marked⟩
      rw [nestAll_cons, nest_start marked opens stays, opened, Option.bind_some, nestAll_append,
        ih (inside_fits marked), Option.bind_some, nestAll_cons,
        nest_end markedLast staysLast closesLast, closed]
      rfl

/-- The open tags of a sequence of tokens, the innermost first, with complete parts between. -/
inductive Opened (dialect : Dialect) : List Token → List Token → Prop
  | none {tokens : List Token} : Sentence dialect tokens → Opened dialect [] tokens
  | tag {outer before inner : List Token} {opening : Token} {kind : TagKind} {name : String} :
      Opened dialect outer before → markOf? dialect opening = some (kind, name) →
        opening.opens = true → opening.closes = false →
          (kind = .inclusion ∨ InsideInclusion dialect outer) →
            Derives dialect (.inside kind) inner →
              Opened dialect (opening :: outer) (before ++ opening :: inner)

/-- Parts of contents, one after the other. -/
theorem Derives.append {mixed : Bool} {first second : List Token}
    (derives : Derives dialect (.content mixed) first)
    (derivesSecond : Derives dialect (.content mixed) second) :
    Derives dialect (.content mixed) (first ++ second) := by
  generalize same : Phrase.content mixed = phrase at derives
  induction derives with
  | nil => exact same ▸ derivesSecond
  | plain plain _ ih => exact .plain plain (ih same)
  | inclusion tag _ _ ih =>
      rw [List.append_assoc]
      exact .inclusion tag (ih same)
  | assignment tag _ _ ih =>
      rw [List.append_assoc]
      obtain rfl := Phrase.content.inj same
      exact .assignment tag (ih same)
  | selfClosing | enclosed => cases same

/-- What may stand without variables may stand where they are allowed. -/
theorem Derives.allow {mixed : Bool} {tokens : List Token}
    (derives : Derives dialect (.content mixed) tokens) :
    Derives dialect (.content true) tokens := by
  generalize same : Phrase.content mixed = phrase at derives
  induction derives with
  | nil => exact .nil
  | plain plain _ ih => exact .plain plain (ih same)
  | inclusion tag _ _ ih => exact .inclusion tag (ih same)
  | assignment tag rest => exact .assignment tag rest
  | selfClosing | enclosed => cases same

/-- Tokens that are no composition tags are a page. -/
theorem sentence_of_plain {tokens : List Token}
    (plain : ∀ token ∈ tokens, markOf? dialect token = none) : Sentence dialect tokens := by
  induction tokens with
  | nil => exact .nil
  | cons token rest ih =>
      rw [List.forall_mem_cons] at plain
      exact .plain plain.1 (ih plain.2)

/-- An inclusion or variable begins with its opening tag. -/
theorem Derives.opening {opening : Token} {rest : List Token}
    (derives : Derives dialect (.element kind) (opening :: rest)) :
    opening.opens = true ∧ ∃ tag, markOf? dialect opening = some (kind, tag) := by
  generalize same : opening :: rest = tokens at derives
  cases derives with
  | selfClosing marked opens closes =>
      obtain ⟨rfl, _⟩ := List.cons.inj same
      exact ⟨opens, _, marked⟩
  | enclosed marked opens =>
      obtain ⟨rfl, _⟩ := List.cons.inj same
      exact ⟨opens, _, marked⟩

/-- Contents that fit are added to what is complete already. -/
theorem Opened.append {tokens part : List Token} {mixed : Bool}
    (opened : Opened dialect stack tokens)
    (derives : Derives dialect (.content mixed) part)
    (fits : (Phrase.content mixed).Fits dialect stack) :
    Opened dialect stack (tokens ++ part) := by
  cases opened with
  | none sentence =>
      cases mixed with
      | false => exact .none (sentence.append derives)
      | true => cases fits rfl
  | @tag outer before inner opening kind name opened marked opens stays inside complete =>
      have whole : Derives dialect (.inside kind) (inner ++ part) := by
        cases kind with
        | inclusion => exact complete.append derives.allow
        | assignment =>
            cases mixed with
            | false => exact complete.append derives
            | true => cases (insideInclusion_cons marked).mp (fits rfl)
      have joined := Opened.tag opened marked opens stays inside whole
      rwa [List.append_assoc]

/-- One inclusion or variable that fits is added to what is complete already. -/
theorem Opened.appendElement {tokens part : List Token} (opened : Opened dialect stack tokens)
    (derives : Derives dialect (.element kind) part)
    (fits : (Phrase.element kind).Fits dialect stack) :
    Opened dialect stack (tokens ++ part) := by
  rw [← List.append_nil part]
  cases kind with
  | inclusion =>
      have whole : Derives dialect (.content false) (part ++ []) := .inclusion derives .nil
      exact opened.append whole nofun
  | assignment =>
      have inside : InsideInclusion dialect stack := fits.resolve_left nofun
      exact opened.append (.assignment derives .nil) fun _ => inside

/-- A closing tag completes the innermost open tag. -/
theorem Opened.close {tokens outer : List Token} {opening : Token}
    (opened : Opened dialect (opening :: outer) tokens)
    (markedOpening : markOf? dialect opening = some (kind, tag))
    (marked : markOf? dialect token = some (kind, tag)) (opens : token.opens = false)
    (closes : token.closes = true) :
    ∃ before inner, tokens ++ [token] = before ++ opening :: (inner ++ [token]) ∧
      Opened dialect outer before ∧ (kind = .inclusion ∨ InsideInclusion dialect outer) ∧
        Derives dialect (.element kind) (opening :: (inner ++ [token])) := by
  cases opened with
  | @tag _ before inner _ kindOpening name openedBefore markedTag opensTag staysTag fits complete =>
      obtain ⟨rfl, rfl⟩ := Prod.mk.inj (Option.some.inj (markedTag.symm.trans markedOpening))
      have whole := Derives.enclosed markedTag opensTag staysTag complete marked opens closes
      exact ⟨before, inner, by simp, openedBefore, fits, whole⟩

/-- When a token may stand after some tokens, the tags that are open then are those on the stack. -/
theorem Opened.nest {tokens next : List Token} (opened : Opened dialect stack tokens)
    (nested : nest dialect stack token = some next) :
    Opened dialect next (tokens ++ [token]) := by
  cases marked : markOf? dialect token with
  | none =>
      rw [nest_plain marked] at nested
      obtain rfl := Option.some.inj nested
      have plain : Derives dialect (.content false) [token] := .plain marked .nil
      exact opened.append plain nofun
  | some mark =>
      rcases mark with ⟨kind, name⟩
      cases opens : token.opens <;> cases closes : token.closes
      · have either := opens_or_closes marked
        simp [opens, closes] at either
      · rw [nest_end marked opens closes] at nested
        rcases closeTag_eq_some_iff.mp nested with ⟨opening, rfl, markedOpening⟩
        obtain ⟨before, inner, same, openedBefore, fits, derives⟩ :=
          opened.close markedOpening marked opens closes
        rw [same]
        exact openedBefore.appendElement derives fits
      · rw [nest_start marked opens closes] at nested
        rcases openTag_eq_some_iff.mp nested with ⟨fits, rfl⟩
        have empty : Derives dialect (.inside kind) [] := by
          cases kind <;> exact .nil
        exact .tag opened marked opens closes fits empty
      · rw [nest_selfClosing marked opens closes] at nested
        split at nested
        next fits =>
          obtain rfl := Option.some.inj nested
          exact opened.appendElement (.selfClosing marked opens closes) fits
        · cases nested

theorem Opened.nestAll {tokens rest next : List Token} (opened : Opened dialect stack tokens)
    (nested : nestAll dialect stack rest = some next) : Opened dialect next (tokens ++ rest) := by
  induction rest generalizing stack tokens with
  | nil =>
      obtain rfl := Option.some.inj nested
      rwa [List.append_nil]
  | cons token rest ih =>
      rw [nestAll_cons, Option.bind_eq_some_iff] at nested
      rcases nested with ⟨middle, first, nested⟩
      have whole := ih (opened.nest first) nested
      rwa [List.append_assoc] at whole

/-- The open tags of a sequence are those that the stack has after it. -/
theorem nestAll_eq_some_iff {tokens : List Token} :
    nestAll dialect [] tokens = some stack ↔ Opened dialect stack tokens := by
  constructor
  · intro nested
    exact (Opened.none .nil).nestAll nested
  · intro opened
    induction opened with
    | none sentence => exact sentence.nestAll_eq nofun
    | @tag outer before inner opening kind name _ marked opens stays fits complete ih =>
        have start : openTag dialect outer opening kind = some (opening :: outer) :=
          openTag_eq_some_iff.mpr ⟨fits, rfl⟩
        rw [nestAll_append, ih, Option.bind_some, nestAll_cons, nest_start marked opens stays, start]
        exact complete.nestAll_eq (inside_fits marked)

/-- The stack accepts the sentences of the grammar and nothing else. -/
theorem sentence_iff {tokens : List Token} :
    Sentence dialect tokens ↔ nestAll dialect [] tokens = some [] := by
  rw [nestAll_eq_some_iff]
  constructor
  · exact .none
  · intro opened
    cases opened with
    | none sentence => exact sentence

theorem Opened.marked {tokens outer : List Token} {opening : Token}
    (opened : Opened dialect (opening :: outer) tokens) :
    ∃ kind tag, markOf? dialect opening = some (kind, tag) := by
  cases opened with
  | tag _ marked => exact ⟨_, _, marked⟩

/-- Tokens that have led to a stack are completed by closing the tags on it. -/
theorem Opened.extendable {tokens : List Token} (opened : Opened dialect stack tokens) :
    Extendable dialect tokens := by
  induction stack generalizing tokens with
  | nil =>
      cases opened with
      | none sentence => exact ⟨[], by rwa [List.append_nil]⟩
  | cons opening outer ih =>
      obtain ⟨kind, tag, marked⟩ := opened.marked
      have closed : closeTag dialect (opening :: outer) (kind, tag) = some outer :=
        closeTag_eq_some_iff.mpr ⟨opening, rfl, marked⟩
      have nested := (nest_end (markOf?_endTag marked) rfl rfl).trans closed
      obtain ⟨ending, sentence⟩ := ih (opened.nest nested)
      exact ⟨_ :: ending, by rwa [List.append_assoc] at sentence⟩

theorem extendable_iff {tokens : List Token} :
    Extendable dialect tokens ↔ ∃ stack, nestAll dialect [] tokens = some stack := by
  constructor
  · rintro ⟨ending, sentence⟩
    rw [sentence_iff, nestAll_append, Option.bind_eq_some_iff] at sentence
    rcases sentence with ⟨stack, nested, _⟩
    exact ⟨stack, nested⟩
  · rintro ⟨stack, nested⟩
    exact (nestAll_eq_some_iff.mp nested).extendable

/-- The stack refuses the tokens as soon as they cannot become a page. -/
theorem nestAll_eq_none_iff {tokens : List Token} :
    nestAll dialect [] tokens = none ↔ ∃ front, front <+: tokens ∧ ¬ Extendable dialect front := by
  constructor
  · intro refused
    refine ⟨tokens, List.prefix_rfl, fun extendable => ?_⟩
    rcases extendable_iff.mp extendable with ⟨stack, nested⟩
    simp [refused] at nested
  · rintro ⟨front, ⟨rest, rfl⟩, stuck⟩
    rw [nestAll_append]
    cases nested : nestAll dialect [] front with
    | none => rfl
    | some stack => exact absurd (extendable_iff.mpr ⟨stack, nested⟩) stuck

theorem Opened.innermost {tokens outer : List Token} {opening : Token}
    (opened : Opened dialect (opening :: outer) tokens)
    (marked : markOf? dialect opening = some (kind, tag)) : InnermostOpen dialect tokens tag := by
  cases opened with
  | @tag _ before inner _ kindOpening name openedBefore markedTag opens stays fits complete =>
      obtain ⟨rfl, rfl⟩ := Prod.mk.inj (Option.some.inj (markedTag.symm.trans marked))
      exact ⟨before, opening, inner, _, rfl, markedTag, opens, stays, complete⟩

end Stacks

end Stencil.Render
