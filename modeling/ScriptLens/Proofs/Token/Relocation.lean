import Mathlib.Data.List.Basic
import ScriptLens.Proofs.Token.LineOrder

/-! # Lines with other numbers
A line is read without a look at the lines around it: its number goes into the tokens and into the
error that it gives, and into nothing else.
Main definitions:
* `Token.onLine`, `EscapeError.onLine`: a token and an error with another line number.
* `Yield`: something read off every line on its own; `Yield.tokens` and `Yield.errors`.
* `Yield.ofLines`: what some lines give, the first of which has a given number.
Main statements:
* `lineTokens_renumbered`: a line with another number.
* `Yield.mem_ofLines`, `Yield.pairwise_ofLines`: from what each line gives to what all lines give.
* `Yield.ofLines_renumbered`: some lines with other numbers.
* `Yield.filter_before`, `Yield.filter_line`, `Yield.filter_behind`: what the first lines, one line
  and the last lines give is found by the line numbers. -/

namespace ScriptLens

/-- A token with another line number. -/
def Token.onLine (line : Nat) (token : Token) : Token :=
  { token with line }

/-- An escape error with another line number. -/
def EscapeError.onLine (line : Nat) (error : EscapeError) : EscapeError :=
  { error with line }

/-! ## One line -/

/-- A result with another line number, where `move` renumbers what was read. -/
def renumber {α : Type} (line : Nat) (move : α → α) : Except EscapeError α → Except EscapeError α
  | .ok value => .ok (move value)
  | .error error => .error (error.onLine line)

/-- A map may come before the renumbering that it commutes with. -/
theorem map_renumber {α β : Type} {line : Nat} {moveSource : α → α} {move : β → β} {f g : α → β}
    {result : Except EscapeError α} (commutes : ∀ source, g (moveSource source) = move (f source)) :
    (renumber line moveSource result).map g = renumber line move (result.map f) := by
  cases result with
  | error problem => rfl
  | ok source => exact congrArg Except.ok (commutes source)

/-- Resolving escapes looks at the number of the line only to report it. -/
theorem unescape_renumbered (line other column : Nat) (text : List Char) :
    unescape other column text = renumber other id (unescape line column text) := by
  fun_induction unescape line column text with
  | case1 => rfl
  | case2 => rfl
  | case3 column letter rest meaning known ih =>
    simp only [unescape, known, ↓reduceIte, ih]
    exact map_renumber fun _ => rfl
  | case4 column letter rest unknown =>
    simp only [unescape, unknown, ↓reduceIte]
    rfl
  | case5 column c next rest differs ih =>
    simp only [unescape, differs, ↓reduceIte, ih]
    exact map_renumber fun _ => rfl

/-- The token of a run does not depend on the number of the line otherwise. -/
theorem classify_renumbered (line other column : Nat) (text : List Char) :
    classify other column text = renumber other (·.onLine other) (classify line column text) := by
  unfold classify
  dsimp only
  split
  · rfl
  · split
    · rfl
    · split
      · rfl
      · rw [unescape_renumbered line other]
        exact map_renumber fun _ => rfl

/-- Whether a mark joins the token before it does not depend on line numbers. -/
@[simp] theorem joined?_onLine (line : Nat) (previous : Token) (second : Char) (column : Nat) :
    joined? (previous.onLine line) second column =
      (joined? previous second column).map (·.onLine line) := by
  unfold joined? Token.onLine
  dsimp only
  split
  · split
    · rw [Option.map_map]
      rfl
    · rfl
  · rfl

/-- A mark is added in the same way on every line. -/
theorem addMark_renumbered (line other column : Nat) (sign : Char) (kind : Token.Kind)
    (reversed : List Token) :
    addMark other column sign kind (reversed.map (·.onLine other)) =
      (addMark line column sign kind reversed).map (·.onLine other) := by
  cases reversed with
  | nil => rfl
  | cons previous earlier =>
    rw [List.map_cons]
    unfold addMark
    dsimp only
    rw [joined?_onLine]
    cases joined? previous sign column with
    | none => rfl
    | some operator => rfl

/-- A piece is added in the same way on every line. -/
theorem addPiece_renumbered (line other : Nat) (reversed : List Token) (piece : Piece) :
    addPiece other (reversed.map (·.onLine other)) piece =
      renumber other (List.map (·.onLine other)) (addPiece line reversed piece) := by
  cases piece with
  | run column text =>
    simp only [addPiece]
    rw [classify_renumbered line other]
    exact map_renumber fun _ => rfl
  | mark column sign kind => exact congrArg Except.ok (addMark_renumbered line other ..)

/-- All pieces of a line are added in the same way on every line. -/
theorem foldlM_addPiece_renumbered (line other : Nat) (pieces : List Piece) (reversed : List Token) :
    pieces.foldlM (addPiece other) (reversed.map (·.onLine other)) =
      renumber other (List.map (·.onLine other)) (pieces.foldlM (addPiece line) reversed) := by
  induction pieces generalizing reversed with
  | nil => rfl
  | cons piece pieces ih =>
    rw [List.foldlM_cons, List.foldlM_cons, addPiece_renumbered line]
    cases addPiece line reversed piece with
    | error problem => rfl
    | ok added => exact ih added

/-- **A line with another number** gives the same tokens or the same error, up to that number. -/
theorem lineTokens_renumbered (line other : Nat) (text : List Char) :
    lineTokens other text =
      renumber other (List.map (·.onLine other)) (lineTokens line text) := by
  unfold lineTokens
  split
  · rfl
  · split
    · split <;> rfl
    · unfold codeTokens
      have folded := foldlM_addPiece_renumbered line other (pieces text) []
      rw [List.map_nil] at folded
      rw [folded]
      exact map_renumber fun _ => List.map_reverse.symm

/-! ## Some lines -/

/-- Something read off every line on its own: items that tell the number of their line, and depend
on it in nothing else. -/
structure Yield (α : Type) where
  /-- What a line with a given number gives. -/
  ofLine : Nat → List Char → List α
  /-- The line number that an item tells. -/
  line : α → Nat
  /-- An item with another line number. -/
  onLine : Nat → α → α
  /-- Every item tells the number of the line it was read off. -/
  line_of_mem : ∀ {number text item}, item ∈ ofLine number text → line item = number
  /-- A line with another number gives the same items with that number. -/
  ofLine_renumbered : ∀ number other text,
    ofLine other text = (ofLine number text).map (onLine other)

namespace Yield

variable {α : Type} (yield : Yield α)

/-- The tokens of each line. -/
def tokens : Yield Token where
  ofLine number text := readTokens (lineTokens number text)
  line := Token.line
  onLine := Token.onLine
  line_of_mem listed := line_of_mem_readTokens _ listed
  ofLine_renumbered number other text := by
    rw [lineTokens_renumbered number other]
    cases lineTokens number text with
    | error problem => rfl
    | ok tokens => rfl

/-- The escape error of each line that has one. -/
def errors : Yield EscapeError where
  ofLine number text := (readError? (lineTokens number text)).toList
  line := EscapeError.line
  onLine := EscapeError.onLine
  line_of_mem {number text item} listed := by
    cases read : lineTokens number text with
    | ok tokens => simp [read, readError?] at listed
    | error problem =>
      simp only [read, readError?, Option.mem_toList, Option.some.injEq] at listed
      exact listed ▸ line_of_lineTokens_error read
  ofLine_renumbered number other text := by
    rw [lineTokens_renumbered number other]
    cases lineTokens number text with
    | error problem => rfl
    | ok tokens => rfl

/-- What some lines give, where the first line has the number `first`. -/
def ofLines (first : Nat) (lines : List (List Char)) : List α :=
  (lines.zipIdx first).flatMap fun (line, number) => yield.ofLine number (Text.content line)

/-- The tokens of one line. -/
@[simp] theorem ofLine_tokens (number : Nat) (text : List Char) :
    tokens.ofLine number text = readTokens (lineTokens number text) :=
  rfl

/-- The error of one line. -/
@[simp] theorem ofLine_errors (number : Nat) (text : List Char) :
    errors.ofLine number text = (readError? (lineTokens number text)).toList :=
  rfl

/-- No lines give nothing. -/
@[simp] theorem ofLines_nil (first : Nat) : yield.ofLines first [] = [] :=
  rfl

/-- A line comes before the lines behind it. -/
@[simp] theorem ofLines_cons (first : Nat) (line : List Char) (lines : List (List Char)) :
    yield.ofLines first (line :: lines) =
      yield.ofLine first (Text.content line) ++ yield.ofLines (first + 1) lines := by
  simp only [ofLines, List.zipIdx_cons, List.flatMap_cons]

/-- Lines come before the lines behind them. -/
@[simp] theorem ofLines_append (first : Nat) (lines later : List (List Char)) :
    yield.ofLines first (lines ++ later) =
      yield.ofLines first lines ++ yield.ofLines (first + lines.length) later := by
  simp only [ofLines, List.zipIdx_append, List.flatMap_append]

/-- What some lines give is what each of them gives. -/
theorem mem_ofLines {first : Nat} {lines : List (List Char)} {item : α} :
    item ∈ yield.ofLines first lines ↔ ∃ index line, lines[index]? = some line ∧
      item ∈ yield.ofLine (first + index) (Text.content line) := by
  constructor
  · intro listed
    obtain ⟨⟨line, number⟩, numbered, here⟩ := List.mem_flatMap.mp listed
    obtain ⟨atLeast, found⟩ := List.mk_mem_zipIdx_iff_le_and_getElem?_sub.mp numbered
    exact ⟨number - first, line, found, by rwa [Nat.add_sub_cancel' atLeast]⟩
  · rintro ⟨index, line, found, here⟩
    refine List.mem_flatMap.mpr ⟨(line, first + index), ?_, here⟩
    rw [List.mk_mem_zipIdx_iff_le_and_getElem?_sub, Nat.add_sub_cancel_left]
    exact ⟨Nat.le_add_right first index, found⟩

/-- The numbers of some lines are those from the first one on. -/
theorem line_bounds_of_mem_ofLines {first : Nat} {lines : List (List Char)} {item : α}
    (h : item ∈ yield.ofLines first lines) :
    first ≤ yield.line item ∧ yield.line item < first + lines.length := by
  obtain ⟨index, line, found, here⟩ := yield.mem_ofLines.mp h
  obtain ⟨within, -⟩ := List.getElem?_eq_some_iff.mp found
  rw [yield.line_of_mem here]
  omega

/-- A relation between the items of each line that also holds from line to line holds between all
items of some lines. -/
theorem pairwise_ofLines {R : α → α → Prop}
    (within : ∀ number text, (yield.ofLine number text).Pairwise R)
    (across : ∀ left right, yield.line left < yield.line right → R left right) (first : Nat)
    (lines : List (List Char)) : (yield.ofLines first lines).Pairwise R := by
  induction lines generalizing first with
  | nil => exact List.Pairwise.nil
  | cons line lines ih =>
    rw [ofLines_cons, List.pairwise_append]
    refine ⟨within _ _, ih (first + 1), fun left hleft right hright => across left right ?_⟩
    rw [yield.line_of_mem hleft]
    exact (yield.line_bounds_of_mem_ofLines hright).1

/-- **Some lines with other numbers** give the same items, each moved as far as the first line. -/
theorem ofLines_renumbered (first other : Nat) (lines : List (List Char)) :
    yield.ofLines other lines = (yield.ofLines first lines).map fun item =>
      yield.onLine (yield.line item - first + other) item := by
  induction lines generalizing first other with
  | nil => rfl
  | cons line later ih =>
    rw [ofLines_cons, ofLines_cons, List.map_append]
    congr 1
    · rw [yield.ofLine_renumbered first other]
      refine List.map_congr_left fun item listed => ?_
      rw [yield.line_of_mem listed, Nat.sub_self, Nat.zero_add]
    · rw [ih (first + 1) (other + 1)]
      refine List.map_congr_left fun item listed => ?_
      have bounds := yield.line_bounds_of_mem_ofLines listed
      congr 1
      omega

/-- The first lines of a source have the numbers up to their number. -/
theorem line_le_of_mem_ofLines {lines : List (List Char)} {item : α} (h : item ∈ yield.ofLines 1 lines) :
    yield.line item ≤ lines.length := by
  have bounds := yield.line_bounds_of_mem_ofLines h
  omega

/-- The lines behind the first ones have greater numbers. -/
theorem lt_line_of_mem_ofLines {count : Nat} {lines : List (List Char)} {item : α}
    (h : item ∈ yield.ofLines (1 + count) lines) : count < yield.line item := by
  have bounds := yield.line_bounds_of_mem_ofLines h
  omega

/-- The items of the first lines are those with their numbers. -/
theorem filter_before (lines later : List (List Char)) :
    (yield.ofLines 1 (lines ++ later)).filter (yield.line · ≤ lines.length) = yield.ofLines 1 lines := by
  rw [ofLines_append, List.filter_append, List.filter_eq_self.mpr, List.filter_eq_nil_iff.mpr,
    List.append_nil]
  · intro item listed
    simpa using yield.lt_line_of_mem_ofLines listed
  · intro item listed
    simpa using yield.line_le_of_mem_ofLines listed

/-- The items of the last lines are those with their numbers. -/
theorem filter_behind (lines later : List (List Char)) :
    (yield.ofLines 1 (lines ++ later)).filter (lines.length < yield.line ·) =
      yield.ofLines (lines.length + 1) later := by
  rw [ofLines_append, List.filter_append, List.filter_eq_nil_iff.mpr, List.filter_eq_self.mpr,
    List.nil_append, Nat.add_comm]
  · intro item listed
    simpa using yield.lt_line_of_mem_ofLines listed
  · intro item listed
    simpa using yield.line_le_of_mem_ofLines listed

/-- The items of one line are those with its number. -/
theorem filter_line {lines : List (List Char)} {number : Nat} {line : List Char}
    (h : lines[number]? = some line) :
    (yield.ofLines 1 lines).filter (yield.line · = number + 1) =
      yield.ofLine (number + 1) (Text.content line) := by
  obtain ⟨within, found⟩ := List.getElem?_eq_some_iff.mp h
  have around : lines = lines.take number ++ line :: lines.drop (number + 1) := by
    rw [← found, List.getElem_cons_drop, List.take_append_drop]
  have count : (lines.take number).length = number := List.length_take_of_le (Nat.le_of_lt within)
  rw [around, ofLines_append, ofLines_cons, count, Nat.add_comm 1, List.filter_append,
    List.filter_append, List.filter_eq_nil_iff.mpr, List.filter_eq_self.mpr,
    List.filter_eq_nil_iff.mpr, List.nil_append, List.append_nil]
  -- The lines before it have smaller numbers, and the lines behind it have greater ones.
  · intro item listed
    have bounds := yield.line_bounds_of_mem_ofLines listed
    simp only [decide_eq_true_eq]
    omega
  · intro item listed
    simpa using yield.line_of_mem listed
  · intro item listed
    have bounds := yield.line_bounds_of_mem_ofLines listed
    simp only [decide_eq_true_eq]
    omega

end Yield

end ScriptLens
