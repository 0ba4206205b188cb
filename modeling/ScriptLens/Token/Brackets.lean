import ScriptLens.Token.Basic

/-! # Bracketed spans
Main definitions:
* `Bracket`: a kind that opens and a kind that closes.
* `Bracket.span`: the tokens up to the one that closes the brackets open so far.
* `Bracket.enclosed?`: the span after an opening token.
The lemmas say that a span and what follows it make up the tokens read, and that nothing follows a
span that is not closed. -/

namespace ScriptLens

/-- A pair of token kinds, the first of which opens what the second closes. -/
structure Bracket where
  /-- The kind that opens. -/
  opening : Token.Kind
  /-- The kind that closes. -/
  closing : Token.Kind
  deriving DecidableEq, Repr

namespace Bracket

/-- Round brackets. -/
def parentheses : Bracket :=
  { opening := .parenthesisOpen, closing := .parenthesisClose }

/-- Curly brackets. -/
def braces : Bracket :=
  { opening := .braceOpen, closing := .braceClose }

/-- The tokens from behind an opening bracket to the bracket that closes it. -/
structure Span where
  /-- The tokens of the span, with the closing one. -/
  inside : List Token
  /-- The tokens after the span. -/
  rest : List Token
  /-- Whether the closing bracket was there; otherwise the span has taken all tokens. -/
  closed : Bool
  deriving DecidableEq, Repr

/-- The number of open brackets after one more token. Where a token is of both kinds it opens. -/
def depthAfter (bracket : Bracket) (kind : Token.Kind) (depth : Nat) : Nat :=
  if kind = bracket.opening then depth + 1
  else if kind = bracket.closing then depth - 1
  else depth

/-- The tokens up to the one after which none of the `depth` open brackets is open any more. -/
def span (bracket : Bracket) (depth : Nat) : List Token → Span
  | [] => { inside := [], rest := [], closed := depth = 0 }
  | token :: tokens =>
    if depth = 0 then { inside := [], rest := token :: tokens, closed := true }
    else
      let later := bracket.span (bracket.depthAfter token.kind depth) tokens
      { later with inside := token :: later.inside }

/-- The span behind the first token, if that token opens a bracket. -/
def enclosed? (bracket : Bracket) : List Token → Option Span
  | [] => none
  | token :: tokens => if token.kind = bracket.opening then some (bracket.span 1 tokens) else none

/-- A span and the rest make up the tokens. -/
@[simp] theorem inside_append_rest (bracket : Bracket) (depth : Nat) (tokens : List Token) :
    (bracket.span depth tokens).inside ++ (bracket.span depth tokens).rest = tokens := by
  induction tokens generalizing depth with
  | nil => rfl
  | cons token tokens ih =>
    by_cases h : depth = 0
    · simp [span, h]
    · simp [span, h, ih]

/-- A span that is not closed has taken all tokens. -/
theorem rest_eq_nil {bracket : Bracket} {depth : Nat} {tokens : List Token}
    (h : ¬ (bracket.span depth tokens).closed) :
    (bracket.span depth tokens).rest = [] := by
  induction tokens generalizing depth with
  | nil => rfl
  | cons token tokens ih =>
    unfold span at h ⊢
    by_cases zero : depth = 0
    · rw [if_pos zero] at h
      exact absurd rfl h
    · rw [if_neg zero] at h ⊢
      exact ih h

/-- An enclosed span and the rest make up the tokens behind the opening one. -/
theorem enclosed?_eq_some {bracket : Bracket} {tokens : List Token} {found : Span}
    (h : bracket.enclosed? tokens = some found) :
    ∃ token, token.kind = bracket.opening ∧ tokens = token :: (found.inside ++ found.rest) := by
  cases tokens with
  | nil => simp [enclosed?] at h
  | cons token tokens =>
    simp only [enclosed?, Option.ite_none_right_eq_some, Option.some.injEq] at h
    obtain ⟨opens, rfl⟩ := h
    exact ⟨token, opens, by rw [inside_append_rest]⟩

/-- A closed span holds at least its closing token. -/
theorem inside_ne_nil {bracket : Bracket} {depth : Nat} {tokens : List Token}
    (positive : depth ≠ 0) (closed : (bracket.span depth tokens).closed) :
    (bracket.span depth tokens).inside ≠ [] := by
  cases tokens with
  | nil => simp [span, positive] at closed
  | cons token tokens => simp [span, positive]

/-- An enclosed span that is closed holds at least its closing token. -/
theorem enclosed?_inside_ne_nil {bracket : Bracket} {tokens : List Token} {found : Span}
    (h : bracket.enclosed? tokens = some found) (closed : found.closed) : found.inside ≠ [] := by
  cases tokens with
  | nil => simp [enclosed?] at h
  | cons token tokens =>
    simp only [enclosed?, Option.ite_none_right_eq_some, Option.some.injEq] at h
    obtain ⟨-, rfl⟩ := h
    exact inside_ne_nil Nat.one_ne_zero closed

end Bracket

end ScriptLens
