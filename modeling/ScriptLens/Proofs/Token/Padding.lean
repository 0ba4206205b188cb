import Mathlib.Data.List.TakeWhile
import Mathlib.Order.Monotone.Basic
import ScriptLens.Proofs.Token.SourceLines

/-! # Lines without tokens
Blank lines and comments without a directive have no tokens, and lines are read one by one. So more
such lines between the lines of a source change nothing but the numbers of the lines behind them.
Main definitions:
* `Text.IsPadding`: a line is blank, or a comment without a directive.
* `Text.Padded`: lines with such lines in between.
Main statements:
* `readTokens_of_isPadding`: such lines have no tokens.
* `Text.Padded.exists_tokens`: the tokens of lines with such lines in between. -/

namespace ScriptLens

namespace Text

/-! ## Padding -/

/-- A line is blank, or a comment that holds no directive: its first character that is not blank is
a number sign. -/
def IsPadding (line : List Char) : Prop :=
  (∀ c ∈ line, isBlank c) ∨
    (∃ margin comment, line = margin ++ '#' :: comment ∧ ∀ c ∈ margin, isBlank c) ∧
      ¬ Token.directive <:+: line

/-- Lines, and the same lines with padding inserted before, between and behind them. -/
inductive Padded : List (List Char) → List (List Char) → Prop where
  /-- No lines. -/
  | nil : Padded [] []
  /-- A line of both. -/
  | keep (line : List Char) {lines padded : List (List Char)} (later : Padded lines padded) :
      Padded (line :: lines) (line :: padded)
  /-- An inserted line. -/
  | insert {line : List Char} {lines padded : List (List Char)} (padding : IsPadding line)
      (later : Padded lines padded) : Padded lines (line :: padded)

/-- A blank character at the end does not stay. -/
theorem trimEnd_append_blank (text : List Char) {c : Char} (blank : isBlank c) :
    trimEnd (text ++ [c]) = trimEnd text := by
  simp [trimEnd, blank]

/-- A character at the start that is not blank stays. -/
theorem trimEnd_cons_of_not_blank {c : Char} (solid : ¬ isBlank c) (text : List Char) :
    trimEnd (c :: text) = c :: trimEnd text := by
  simp only [trimEnd, List.reverse_cons, List.dropWhile_append]
  split
  · next empty => simp [List.isEmpty_iff.mp empty, solid]
  · simp

/-- Without the blank characters at its end a text is a first part of itself. -/
theorem trimEnd_isPrefix (text : List Char) : trimEnd text <+: text := by
  have suffix : text.reverse.dropWhile isBlank <:+ text.reverse := List.dropWhile_suffix _
  simpa [trimEnd] using List.reverse_prefix.mpr suffix

/-- The carriage return of a line is blank, so it does not stay either way. -/
@[simp] theorem trim_content (line : List Char) : trim (content line) = trim line := by
  unfold content
  split
  · next ended =>
    obtain ⟨text, rfl⟩ := List.getLast?_eq_some_iff.mp ended
    have blank : isBlank '\r' := by decide
    rw [List.dropLast_concat, trim, trim, trimStart, trimStart, List.dropWhile_append]
    split
    · next empty => simp [List.isEmpty_iff.mp empty, blank]
    · exact (trimEnd_append_blank _ blank).symm
  · rfl

/-- What is left of a comment starts with its number sign. -/
theorem trim_comment {margin : List Char} (blank : ∀ c ∈ margin, isBlank c) (comment : List Char) :
    trim (margin ++ '#' :: comment) = '#' :: trimEnd comment := by
  have solid : ¬ isBlank '#' := by decide
  rw [trim, trimStart, List.dropWhile_append_of_pos blank, List.dropWhile_cons_of_neg solid,
    trimEnd_cons_of_not_blank solid]

end Text

open Text

/-- **Padding has no tokens.** -/
theorem readTokens_of_isPadding {line : List Char} (padding : IsPadding line) (number : Nat) :
    readTokens (lineTokens number (content line)) = [] := by
  unfold lineTokens
  rw [trim_content]
  rcases padding with blank | ⟨⟨margin, comment, rfl, blank⟩, plain⟩
  · have empty : trim line = [] := by
      rw [trim, trimStart, List.dropWhile_eq_nil_iff.mpr blank]
      rfl
    rw [empty]
    rfl
  · -- What is left of the comment is a part of it, so no directive can have come in.
    have silent : ¬ occurs Token.directive ('#' :: trimEnd comment) := by
      intro announced
      refine plain ((occurs_iff.mp announced).trans ?_)
      exact ((List.prefix_cons_inj '#').mpr (trimEnd_isPrefix comment)).isInfix.trans
        (List.suffix_append _ _).isInfix
    rw [trim_comment blank]
    simp only [↓reduceIte, silent, Bool.false_eq_true]
    rfl

/-! ## Padded lines -/

/-- The first index stays, and the ones behind it move as `f` says. -/
def shiftBehind (f : Nat → Nat) : Nat → Nat
  | 0 => 0
  | index + 1 => f index + 1

/-- The first index stays before the others. -/
theorem strictMono_shiftBehind {f : Nat → Nat} (mono : StrictMono f) :
    StrictMono (shiftBehind f) := by
  refine strictMono_nat_of_lt_succ fun index => ?_
  cases index with
  | zero => exact Nat.succ_pos _
  | succ index => exact Nat.succ_lt_succ (mono (Nat.lt_succ_self index))

/-- **The tokens of padded lines** are those of the lines, with the numbers of the padded lines. -/
theorem Text.Padded.exists_tokens {lines padded : List (List Char)} (h : Padded lines padded) :
    ∃ f : Nat → Nat, StrictMono f ∧
      (∀ index line, lines[index]? = some line → padded[f index]? = some line) ∧
      ∀ first other, Yield.tokens.ofLines other padded =
        (Yield.tokens.ofLines first lines).map fun token =>
          token.onLine (f (token.line - first) + other) := by
  induction h with
  | nil => exact ⟨id, strictMono_id, fun _ _ found => found, fun _ _ => rfl⟩
  | @keep line lines padded later ih =>
    obtain ⟨f, mono, places, moved⟩ := ih
    refine ⟨shiftBehind f, strictMono_shiftBehind mono, ?_, fun first other => ?_⟩
    · intro index found listed
      cases index with
      | zero => exact listed
      | succ index => exact places index found listed
    · rw [Yield.ofLines_cons, Yield.ofLines_cons, List.map_append, moved (first + 1) (other + 1)]
      congr 1
      · -- The line itself has the first number before and after.
        rw [Yield.tokens.ofLine_renumbered first other]
        refine List.map_congr_left fun token listed => ?_
        rw [line_of_mem_readTokens token listed, Nat.sub_self, shiftBehind, Nat.zero_add]
        rfl
      · refine List.map_congr_left fun token listed => ?_
        obtain ⟨offset, number⟩ : ∃ offset, token.line = first + 1 + offset :=
          Nat.exists_eq_add_of_le (Yield.tokens.line_bounds_of_mem_ofLines listed).1
        have before : token.line - first = offset + 1 := by omega
        have behind : token.line - (first + 1) = offset := by omega
        rw [before, behind, shiftBehind, Nat.add_assoc, Nat.add_comm 1]
  | @insert line lines padded padding later ih =>
    obtain ⟨f, mono, places, moved⟩ := ih
    refine ⟨fun index => f index + 1, fun _ _ before => Nat.succ_lt_succ (mono before), ?_, ?_⟩
    · exact fun index found listed => places index found listed
    · intro first other
      rw [Yield.ofLines_cons, Yield.ofLine_tokens, readTokens_of_isPadding padding, List.nil_append,
        moved first (other + 1)]
      refine List.map_congr_left fun token _ => ?_
      rw [Nat.add_assoc, Nat.add_comm 1]

end ScriptLens
