/-! # Search in a text
Main definitions:
* `afterFirst?`: what follows the first occurrence of a pattern.
* `occurs`: whether a pattern occurs at all; `occurs_iff` says that this is the infix relation. -/

namespace ScriptLens.Text

/-- The part of a text after the first occurrence of `pattern`, or `none` when there is none. The
empty pattern occurs at the start of every text. -/
def afterFirst? (pattern : List Char) : List Char → Option (List Char)
  | [] => if pattern.isEmpty then some [] else none
  | c :: rest =>
    if pattern.isPrefixOf (c :: rest) then some ((c :: rest).drop pattern.length)
    else afterFirst? pattern rest

/-- Whether `pattern` occurs in a text as a run of neighbouring characters. -/
def occurs (pattern text : List Char) : Bool :=
  (afterFirst? pattern text).isSome

/-- A pattern occurs in a text exactly when it is an infix of it. -/
@[simp] theorem occurs_iff {pattern text : List Char} :
    occurs pattern text = true ↔ pattern <:+: text := by
  induction text with
  | nil => cases pattern <;> simp [occurs, afterFirst?]
  | cons c rest ih =>
    rw [List.infix_cons_iff, ← ih, ← List.isPrefixOf_iff_prefix]
    by_cases h : pattern.isPrefixOf (c :: rest) = true <;> simp [occurs, afterFirst?, h]

end ScriptLens.Text
