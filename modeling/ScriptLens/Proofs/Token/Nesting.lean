import Mathlib.Data.List.Count
import ScriptLens.Symbol.Reader.Parameter
import ScriptLens.Token.Brackets

/-! # Nested brackets
Main definitions:
* `Token.Kind.closing?`: the bracket that closes what a bracket opens.
* `nested`: whether the brackets of some tokens, of all sorts together, are properly nested.
Main statements:
* `nested_append`: nested tokens may be put before any others.
* `span_of_nested`: a span runs over nested tokens without ending.
* `splitParameters_of_nested`: a parameter runs over nested tokens without ending. -/

namespace ScriptLens

open Reader (opensBracket closesBracket splitParameters)

/-- The kind of the bracket that closes what a kind opens. -/
def Token.Kind.closing? : Token.Kind → Option Token.Kind
  | .parenthesisOpen => some .parenthesisClose
  | .bracketOpen => some .bracketClose
  | .braceOpen => some .braceClose
  | _ => none

/-- Whether the brackets of some tokens are properly nested, where `stack` holds the kinds that have
to close the brackets open before, the innermost one first. Outside all brackets only tokens of the
kinds in `free` may stand. -/
def nested (free : Token.Kind → Bool) (stack : List Token.Kind) : List Token → Bool
  | [] => stack.isEmpty
  | token :: tokens =>
    match token.kind.closing? with
    | some closing => nested free (closing :: stack) tokens
    | none =>
      match stack with
      | [] => !closesBracket token.kind && free token.kind && nested free [] tokens
      | closing :: outer =>
        if closesBracket token.kind then token.kind = closing && nested free outer tokens
        else nested free (closing :: outer) tokens

/-- Any kind of token. -/
def anyKind : Token.Kind → Bool :=
  fun _ => true

/-! ## Cases -/

/-- A token closes a bracket of its own sort, or opens one, or is no bracket. -/
inductive NestedCase (free : Token.Kind → Bool) (token : Token) (tokens : List Token) :
    List Token.Kind → Prop where
  /-- It opens a bracket, which is closed later. -/
  | opens {stack : List Token.Kind} {closing : Token.Kind}
      (opening : token.kind.closing? = some closing)
      (later : nested free (closing :: stack) tokens) : NestedCase free token tokens stack
  /-- It closes the innermost open bracket. -/
  | closes {stack : List Token.Kind} (closing : closesBracket token.kind)
      (plain : token.kind.closing? = none) (later : nested free stack tokens) :
      NestedCase free token tokens (token.kind :: stack)
  /-- It is no bracket. -/
  | passes {stack : List Token.Kind} (plain : token.kind.closing? = none)
      (stays : closesBracket token.kind = false) (allowed : stack = [] → free token.kind)
      (later : nested free stack tokens) : NestedCase free token tokens stack

/-- The first of some nested tokens. -/
theorem nestedCase_of_nested {free : Token.Kind → Bool} {stack : List Token.Kind} {token : Token}
    {tokens : List Token} (h : nested free stack (token :: tokens)) :
    NestedCase free token tokens stack := by
  unfold nested at h
  split at h
  · next closing opening => exact .opens opening h
  · next plain =>
    split at h
    · simp only [Bool.and_eq_true, Bool.not_eq_true'] at h
      exact .passes plain h.1.1 (fun _ => h.1.2) h.2
    · next closing outer =>
      split at h
      · next closes =>
        simp only [Bool.and_eq_true, decide_eq_true_eq] at h
        obtain ⟨rfl, later⟩ := h
        exact .closes closes plain later
      · next stays =>
        exact .passes plain (Bool.eq_false_iff.mpr stays) (fun none => by cases none) h

/-! ## Appending -/

/-- A token that is no bracket does not matter where it is allowed. -/
theorem nested_cons_plain {free : Token.Kind → Bool} {stack : List Token.Kind} {token : Token}
    {tokens : List Token} (plain : token.kind.closing? = none)
    (stays : closesBracket token.kind = false) (allowed : free token.kind) :
    nested free stack (token :: tokens) = nested free stack tokens := by
  cases stack with
  | nil => simp [nested, plain, stays, allowed]
  | cons closing outer => simp [nested, plain, stays]

/-- Nested tokens do not matter before others. -/
theorem nested_append {free : Token.Kind → Bool} {inner stack : List Token.Kind}
    {tokens later : List Token} (h : nested free inner tokens) :
    nested anyKind (inner ++ stack) (tokens ++ later) = nested anyKind stack later := by
  induction tokens generalizing inner with
  | nil =>
    simp only [nested, List.isEmpty_iff] at h
    rw [h]
    rfl
  | cons token tokens ih =>
    cases nestedCase_of_nested h with
    | opens opening rest =>
      simp only [List.cons_append, nested, opening]
      exact ih rest
    | closes closing plain rest =>
      simp only [List.cons_append, nested, plain, closing]
      simpa using ih rest
    | passes plain stays _ rest =>
      rw [List.cons_append, nested_cons_plain plain stays rfl]
      exact ih rest

/-- Nested tokens one after another are nested. -/
theorem nested_append_of_nested {free : Token.Kind → Bool} {tokens later : List Token}
    (h : nested free [] tokens) (rest : nested anyKind [] later) :
    nested anyKind [] (tokens ++ later) := by
  have step : nested anyKind ([] ++ []) (tokens ++ later) = nested anyKind [] later :=
    nested_append h
  exact step.trans rest

/-- Nested tokens are nested whatever may stand outside all brackets. -/
theorem nested_of_nested {free : Token.Kind → Bool} {tokens : List Token}
    (h : nested free [] tokens) : nested anyKind [] tokens := by
  have step := nested_append_of_nested h (show nested anyKind [] [] from rfl)
  rwa [List.append_nil] at step

/-- Runs of nested tokens one after another are nested. -/
theorem nested_flatMap {α : Type} {parts : List α} {tokens : α → List Token}
    (h : ∀ part, nested anyKind [] (tokens part)) : nested anyKind [] (parts.flatMap tokens) := by
  induction parts with
  | nil => rfl
  | cons part parts ih => exact nested_append_of_nested (h part) ih

/-- Nested tokens between brackets of one sort are nested. -/
theorem nested_enclosed {stack : List Token.Kind} {opening closing : Token}
    {tokens later : List Token} (pair : opening.kind.closing? = some closing.kind)
    (closes : closesBracket closing.kind) (plain : closing.kind.closing? = none)
    (h : nested anyKind [] tokens) :
    nested anyKind stack (opening :: (tokens ++ closing :: later)) =
      nested anyKind stack later := by
  simp only [nested, pair]
  have inner : nested anyKind ([] ++ closing.kind :: stack) (tokens ++ closing :: later) =
      nested anyKind (closing.kind :: stack) (closing :: later) := nested_append h
  rw [List.nil_append] at inner
  rw [inner]
  simp [nested, plain, closes]

/-! ## Spans -/

/-- The three sorts of brackets. -/
theorem closing?_eq_some {kind closing : Token.Kind} (h : kind.closing? = some closing) :
    kind = .parenthesisOpen ∧ closing = .parenthesisClose ∨
      kind = .bracketOpen ∧ closing = .bracketClose ∨
      kind = .braceOpen ∧ closing = .braceClose := by
  unfold Token.Kind.closing? at h
  split at h <;> simp_all

/-- The three kinds that close a bracket. -/
theorem closesBracket_cases {kind : Token.Kind} (h : closesBracket kind) :
    kind = .parenthesisClose ∨ kind = .bracketClose ∨ kind = .braceClose := by
  simp only [closesBracket, Bool.or_eq_true, decide_eq_true_eq, or_assoc] at h
  exact h

/-- A bracket opened in nested tokens counts if it is of the sort counted. -/
theorem depthAfter_opens {bracket : Bracket}
    (pair : bracket.opening.closing? = some bracket.closing) {kind closing : Token.Kind}
    (opening : kind.closing? = some closing) (depth : Nat) (stack : List Token.Kind) :
    bracket.depthAfter kind (depth + stack.count bracket.closing) =
      depth + (closing :: stack).count bracket.closing := by
  obtain ⟨bracketOpening, bracketClosing⟩ := bracket
  rcases closing?_eq_some pair with ⟨rfl, rfl⟩ | ⟨rfl, rfl⟩ | ⟨rfl, rfl⟩ <;>
    rcases closing?_eq_some opening with ⟨rfl, rfl⟩ | ⟨rfl, rfl⟩ | ⟨rfl, rfl⟩ <;>
      simp [Bracket.depthAfter, Nat.add_assoc]

/-- A bracket closed in nested tokens counts if it is of the sort counted. -/
theorem depthAfter_closes {bracket : Bracket}
    (pair : bracket.opening.closing? = some bracket.closing) {kind : Token.Kind}
    (closes : closesBracket kind) (depth : Nat) (stack : List Token.Kind) :
    bracket.depthAfter kind (depth + (kind :: stack).count bracket.closing) =
      depth + stack.count bracket.closing := by
  obtain ⟨bracketOpening, bracketClosing⟩ := bracket
  rcases closing?_eq_some pair with ⟨rfl, rfl⟩ | ⟨rfl, rfl⟩ | ⟨rfl, rfl⟩ <;>
    rcases closesBracket_cases closes with rfl | rfl | rfl <;>
      simp [Bracket.depthAfter, ← Nat.add_assoc]

/-- A token that is no bracket does not count. -/
theorem depthAfter_plain {bracket : Bracket}
    (pair : bracket.opening.closing? = some bracket.closing) {kind : Token.Kind}
    (plain : kind.closing? = none) (stays : closesBracket kind = false) (depth : Nat) :
    bracket.depthAfter kind depth = depth := by
  have notOpening : kind ≠ bracket.opening := by
    rintro rfl
    rw [pair] at plain
    cases plain
  have notClosing : kind ≠ bracket.closing := by
    rintro rfl
    rcases closing?_eq_some pair with ⟨-, eq⟩ | ⟨-, eq⟩ | ⟨-, eq⟩ <;>
      simp [closesBracket, eq] at stays
  simp [Bracket.depthAfter, notOpening, notClosing]

/-- A span takes a token in as long as a bracket is open. -/
theorem span_cons {bracket : Bracket} {depth : Nat} (positive : depth ≠ 0) (token : Token)
    (tokens : List Token) :
    bracket.span depth (token :: tokens) =
      { bracket.span (bracket.depthAfter token.kind depth) tokens with
        inside := token ::
          (bracket.span (bracket.depthAfter token.kind depth) tokens).inside } := by
  simp only [Bracket.span, if_neg positive]

/-- A span runs over nested tokens without ending. -/
theorem span_of_nested {bracket : Bracket}
    (pair : bracket.opening.closing? = some bracket.closing) {free : Token.Kind → Bool}
    {stack : List Token.Kind} {tokens : List Token} (later : List Token) {depth : Nat}
    (positive : depth ≠ 0) (h : nested free stack tokens) :
    bracket.span (depth + stack.count bracket.closing) (tokens ++ later) =
      { bracket.span depth later with inside := tokens ++ (bracket.span depth later).inside } := by
  induction tokens generalizing stack with
  | nil =>
    simp only [nested, List.isEmpty_iff] at h
    rw [h]
    rfl
  | cons token tokens ih =>
    rw [List.cons_append, span_cons (by omega)]
    -- The depth is that of the brackets of this sort on the stack, so it follows the stack.
    cases nestedCase_of_nested h with
    | opens opening rest => rw [depthAfter_opens pair opening, ih rest]; rfl
    | closes closing plain rest => rw [depthAfter_closes pair closing, ih rest]; rfl
    | passes plain stays _ rest => rw [depthAfter_plain pair plain stays, ih rest]; rfl

/-- Nested tokens in brackets are enclosed by them. -/
theorem enclosed?_of_nested {bracket : Bracket}
    (pair : bracket.opening.closing? = some bracket.closing) {free : Token.Kind → Bool}
    {opening closing : Token} {tokens later : List Token} (opens : opening.kind = bracket.opening)
    (closes : closing.kind = bracket.closing) (h : nested free [] tokens) :
    bracket.enclosed? (opening :: (tokens ++ closing :: later)) =
      some { inside := tokens ++ [closing], rest := later, closed := true } := by
  have across := span_of_nested pair (closing :: later) Nat.one_ne_zero h
  have last : bracket.depthAfter closing.kind 1 = 0 := by
    rcases closing?_eq_some pair with ⟨hopen, hclose⟩ | ⟨hopen, hclose⟩ | ⟨hopen, hclose⟩ <;>
      simp [Bracket.depthAfter, closes, hopen, hclose]
  have ended : bracket.span 0 later = { inside := [], rest := later, closed := true } := by
    cases later <;> rfl
  rw [Bracket.enclosed?, if_pos opens]
  simpa [span_cons, last, ended] using across

/-! ## Parameters -/

/-- A parameter runs over nested tokens without ending, if no comma in them lies outside all
brackets. -/
theorem splitParameters_of_nested {stack : List Token.Kind} {reversed tokens later : List Token}
    (h : nested (· ≠ .comma) stack tokens) :
    splitParameters stack.length reversed (tokens ++ later) =
      splitParameters 0 (tokens.reverse ++ reversed) later := by
  induction tokens generalizing stack reversed with
  | nil =>
    simp only [nested, List.isEmpty_iff] at h
    rw [h]
    rfl
  | cons token tokens ih =>
    have onward (stack : List Token.Kind) (rest : nested (· ≠ .comma) stack tokens) :
        splitParameters stack.length (token :: reversed) (tokens ++ later) =
          splitParameters 0 ((token :: tokens).reverse ++ reversed) later := by
      rw [ih rest, List.reverse_cons, List.append_assoc]
      rfl
    cases nestedCase_of_nested h with
    | opens opening rest =>
      have opens : opensBracket token.kind := by
        rcases closing?_eq_some opening with ⟨eq, -⟩ | ⟨eq, -⟩ | ⟨eq, -⟩ <;> rw [eq] <;> rfl
      rw [← onward _ rest, List.cons_append, splitParameters, if_pos opens]
      rfl
    | @closes outer closing plain rest =>
      have closed : opensBracket token.kind = false := by
        rcases closesBracket_cases closing with eq | eq | eq <;> rw [eq] <;> rfl
      rw [← onward _ rest, List.cons_append, splitParameters]
      simp [closed, closing]
    | passes plain stays allowed rest =>
      have closed : opensBracket token.kind = false := by
        unfold Token.Kind.closing? at plain
        split at plain <;> simp_all [opensBracket]
      rw [← onward _ rest, List.cons_append, splitParameters]
      cases stack with
      | nil =>
        -- Outside all brackets the token must not end the parameter.
        have ends : Reader.endsParameter token.kind = false := by
          have comma := allowed rfl
          simp_all [Reader.endsParameter, closesBracket]
        simp [closed, ends]
      | cons closing outer => simp [closed, stays]

end ScriptLens
