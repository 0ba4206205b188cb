import Mathlib.Data.Prod.Lex
import ScriptLens.Proofs.Text.Bytes

/-! # Clamped positions
A position past the end of its line means the end of the line's content, and one on a line that does
not exist means the end of the text. Here this is said by counting characters, without bytes, and
splicing is compared with it: nothing is ever cut inside a character or behind the text, and what is
kept is kept character by character.
Main definitions:
* `Position` as an ordered type: by line, and on one line by character.
* `IsBoundary`: an offset lies between two characters of a text, or at one of its ends.
* `clamped`: the number of characters before a position.
* `between`: the text in a range.
Main statements:
* `isBoundary_iff`: the boundaries are the sizes of the beginnings of a text.
* `before_isPrefix_before`: a later position has at least as much before it.
* `exists_around_between`: splicing keeps what stands around the text in a range.
* `splice_characters`: splicing, character by character. -/

namespace ScriptLens.Text

/-! ## The order of positions -/

/-- Positions are ordered by line, and on one line by character. -/
instance : Preorder Position :=
  Preorder.lift fun position => toLex (position.line, position.character)

/-- A position comes before another one on an earlier line, or earlier on the same line. -/
@[grind =] theorem Position.le_iff {left right : Position} :
    left ≤ right ↔ left.line < right.line ∨
      left.line = right.line ∧ left.character ≤ right.character :=
  Prod.Lex.toLex_le_toLex

/-! ## Boundaries -/

/-- Whether an offset lies between two characters of a text, or at one of its ends. -/
def IsBoundary (text : List Char) (offset : Nat) : Prop :=
  (String.Pos.Raw.mk offset).IsValid (String.ofList text)

/-- The bytes of a text are those of the string that it spells. -/
@[simp] theorem utf8ByteSize_ofList (text : List Char) :
    (String.ofList text).utf8ByteSize = byteSize text := by
  simp [← String.size_toByteArray]

/-- The boundaries of a text are the sizes of its beginnings. -/
theorem isBoundary_iff {text : List Char} {offset : Nat} :
    IsBoundary text offset ↔ ∃ start, start <+: text ∧ byteSize start = offset := by
  unfold IsBoundary
  rw [String.Pos.Raw.isValid_iff_exists_take_toList, String.toList_ofList]
  simp only [utf8ByteSize_ofList]
  constructor
  · rintro ⟨count, size⟩
    exact ⟨text.take count, List.take_prefix _ _, size.symm⟩
  · rintro ⟨start, isPrefix, size⟩
    refine ⟨start.length, ?_⟩
    rw [← List.prefix_iff_eq_take.mp isPrefix]
    exact size.symm

/-- An offset is a boundary exactly if the characters up to it fill it. -/
theorem isBoundary_iff_takeBytes {text : List Char} {offset : Nat} :
    IsBoundary text offset ↔ byteSize (takeBytes offset text) = offset := by
  rw [isBoundary_iff]
  constructor
  · rintro ⟨start, isPrefix, rfl⟩
    rw [takeBytes_byteSize isPrefix]
  · intro filled
    exact ⟨takeBytes offset text, ⟨_, takeBytes_append_dropBytes offset text⟩, filled⟩

/-- Whether an offset is a boundary can be computed from the cut. -/
instance (text : List Char) (offset : Nat) : Decidable (IsBoundary text offset) :=
  decidable_of_iff _ isBoundary_iff_takeBytes.symm

/-- A boundary does not lie behind the text. -/
theorem IsBoundary.le {text : List Char} {offset : Nat} (h : IsBoundary text offset) :
    offset ≤ byteSize text := by
  obtain ⟨start, isPrefix, rfl⟩ := isBoundary_iff.mp h
  exact byteSize_le_of_isPrefix isPrefix

/-- The offset of a position is a boundary. -/
theorem isBoundary_offsetAt (text : List Char) (position : Position) :
    IsBoundary text (offsetAt text position) := by
  rw [isBoundary_iff, offsetAt_eq]
  exact ⟨before text position, before_isPrefix text position, rfl⟩

/-! ## Characters before a position -/

/-- The number of characters before a position: those of the lines before its own one, a line feed for
each of these, and on its own line as many as are asked for, but not more than the content has. On a
line that does not exist it is the number of all characters. -/
def clamped (text : List Char) (position : Position) : Nat :=
  match (lines text)[position.line]? with
  | none => text.length
  | some line =>
    ((lines text).take position.line).flatten.length + position.line +
      min position.character (content line).length

/-- Lines with a line feed behind each have their own characters and one more for each of them. -/
@[simp] theorem length_flatMap_feed (lines : List (List Char)) :
    (lines.flatMap (· ++ ['\n'])).length = lines.flatten.length + lines.length := by
  induction lines with
  | nil => rfl
  | cons line lines ih =>
    simp only [List.flatMap_cons, List.flatten_cons, List.length_append, List.length_cons,
      List.length_nil, ih]
    omega

/-- Before a position lie as many characters as are counted. -/
@[simp] theorem length_before (text : List Char) (position : Position) :
    (before text position).length = clamped text position := by
  unfold before clamped
  cases found : (lines text)[position.line]? with
  | none => rfl
  | some line =>
    have within : position.line ≤ (lines text).length :=
      (List.getElem?_eq_some_iff.mp found).1.le
    rw [List.length_append, length_flatMap_feed, List.length_take, List.length_take,
      Nat.min_eq_left within]

/-- The characters before a position are the first ones of the text. -/
@[simp] theorem take_clamped (text : List Char) (position : Position) :
    text.take (clamped text position) = before text position := by
  rw [← length_before]
  exact (List.prefix_iff_eq_take.mp (before_isPrefix text position)).symm

/-- No more characters than there are lie before a position. -/
theorem clamped_le_length (text : List Char) (position : Position) :
    clamped text position ≤ text.length := by
  rw [← length_before]
  exact (before_isPrefix text position).length_le

/-- A later position has at least as much before it. -/
theorem before_isPrefix_before {left right : Position} (text : List Char) (h : left ≤ right) :
    before text left <+: before text right := by
  rw [Position.le_iff] at h
  induction text using line_induction generalizing left right with
  | last line fresh =>
    rw [before_of_notMem left fresh, before_of_notMem right fresh]
    by_cases onFirst : left.line = 0
    · rw [if_pos onFirst]
      by_cases onFirstToo : right.line = 0
      · rw [if_pos onFirstToo]
        exact List.take_prefix_take_left (by omega)
      · rw [if_neg onFirstToo]
        exact take_content_isPrefix line _
    · have behindToo : right.line ≠ 0 := by omega
      simp only [if_neg onFirst, if_neg behindToo, List.prefix_refl]
  | more line later fresh ih =>
    obtain ⟨leftLine, leftCharacter⟩ := left
    obtain ⟨rightLine, rightCharacter⟩ := right
    dsimp only at h
    cases leftLine with
    | zero =>
      rw [before_zero line later leftCharacter fresh]
      cases rightLine with
      | zero =>
        rw [before_zero line later rightCharacter fresh]
        exact List.take_prefix_take_left (by omega)
      | succ rightLine =>
        -- The whole first line lies before the right position, and the left one lies on it.
        rw [before_succ line later rightLine rightCharacter fresh]
        exact (take_content_isPrefix line _).trans (List.prefix_append _ _)
    | succ leftLine =>
      cases rightLine with
      | zero => omega
      | succ rightLine =>
        rw [before_succ line later leftLine leftCharacter fresh,
          before_succ line later rightLine rightCharacter fresh]
        refine (List.prefix_append_right_inj line).mpr ((List.prefix_cons_inj _).mpr (ih ?_))
        dsimp only
        omega

/-- A later position does not have a smaller offset. -/
theorem offsetAt_mono {left right : Position} (text : List Char) (h : left ≤ right) :
    offsetAt text left ≤ offsetAt text right := by
  rw [offsetAt_eq, offsetAt_eq]
  exact byteSize_le_of_isPrefix (before_isPrefix_before text h)

/-- A later position does not have fewer characters before it. -/
theorem clamped_mono {left right : Position} (text : List Char) (h : left ≤ right) :
    clamped text left ≤ clamped text right := by
  rw [← length_before, ← length_before]
  exact (before_isPrefix_before text h).length_le

/-! ## Splicing -/

/-- Of two boundaries the later one is a boundary. -/
theorem IsBoundary.max {text : List Char} {left right : Nat} (hleft : IsBoundary text left)
    (hright : IsBoundary text right) : IsBoundary text (max left right) := by
  rcases Nat.le_total left right with ordered | ordered
  · rwa [Nat.max_eq_right ordered]
  · rwa [Nat.max_eq_left ordered]

/-- Splicing keeps the characters before the start, and those from the end or the start on, whichever
comes later. -/
theorem splice_eq_take_drop (text : List Char) (range : TextRange) (replacement : List Char) :
    splice text range replacement = text.take (clamped text range.start) ++ replacement ++
      text.drop (max (clamped text range.start) (clamped text range.stop)) := by
  simp [splice_eq]

/-- The text in a range: what lies between the offsets of its two ends. -/
def between (text : List Char) (range : TextRange) : List Char :=
  dropBytes (offsetAt text range.start) (takeBytes (offsetAt text range.stop) text)

/-- In a range lies what its end has before it in addition to what its start has. -/
theorem between_eq {text middle : List Char} {range : TextRange}
    (h : before text range.stop = before text range.start ++ middle) : between text range = middle := by
  unfold between
  rw [offsetAt_eq, offsetAt_eq, takeBytes_byteSize (before_isPrefix text range.stop), h,
    dropBytes_byteSize (List.prefix_append _ _), List.drop_left]

/-- Nothing lies in a range that ends where it starts. -/
@[simp] theorem between_self (text : List Char) (position : Position) :
    between text ⟨position, position⟩ = [] :=
  between_eq (List.append_nil _).symm

/-- Splicing keeps everything that stands around the text in a range. -/
theorem exists_around_between {range : TextRange} (text : List Char)
    (ordered : range.start ≤ range.stop) :
    ∃ left right, text = left ++ (between text range ++ right) ∧
      ∀ replacement, splice text range replacement = left ++ (replacement ++ right) := by
  obtain ⟨middle, upToEnd⟩ := before_isPrefix_before text ordered
  have whole := List.prefix_iff_eq_append.mp (before_isPrefix text range.stop)
  have longer := (before_isPrefix_before text ordered).length_le
  refine ⟨before text range.start, text.drop (before text range.stop).length, ?_,
    fun replacement => ?_⟩
  · rw [between_eq upToEnd.symm, ← List.append_assoc, upToEnd, whole]
  · rw [splice_eq, Nat.max_eq_right longer, List.append_assoc]

/-- **Splicing is total and exact, character by character.** The offset of a position is a boundary of
the text and not behind it, with the characters before the clamped position before it, and it does
not fall as the position moves on. So both cuts of a splice are boundaries. A stretch from its start
to its end is replaced and all other characters stay, and if the end comes before the start, then the
new characters are inserted at the start. -/
theorem splice_characters (text replacement : List Char) (range : TextRange) :
    (∀ position, IsBoundary text (offsetAt text position) ∧
      offsetAt text position ≤ byteSize text ∧
      clamped text position ≤ text.length ∧
      offsetAt text position = byteSize (text.take (clamped text position))) ∧
    (∀ left right : Position, left ≤ right → offsetAt text left ≤ offsetAt text right) ∧
    IsBoundary text (max (offsetAt text range.start) (offsetAt text range.stop)) ∧
    (range.start ≤ range.stop →
      clamped text range.start ≤ clamped text range.stop ∧
      splice text range replacement = text.take (clamped text range.start) ++ replacement ++
        text.drop (clamped text range.stop)) ∧
    (range.stop < range.start →
      splice text range replacement = text.take (clamped text range.start) ++ replacement ++
        text.drop (clamped text range.start)) := by
  have boundary := isBoundary_offsetAt text
  refine ⟨fun position => ?_, fun left right => offsetAt_mono text,
    (boundary range.start).max (boundary range.stop), fun forward => ?_, fun backward => ?_⟩
  · refine ⟨boundary position, (boundary position).le, clamped_le_length text position, ?_⟩
    simp [offsetAt_eq]
  · have ordered := clamped_mono text forward
    exact ⟨ordered, by rw [splice_eq_take_drop, Nat.max_eq_right ordered]⟩
  · have ordered := clamped_mono text backward.le
    rw [splice_eq_take_drop, Nat.max_eq_left ordered]

/-- A stretch from past the end of a line to behind a character of four bytes is replaced, and the same
stretch the other way round is an insertion. -/
theorem splice_characters_wideText :
    let text := "aé\r\n😀b".toList
    let start : Position := ⟨0, 9⟩
    let stop : Position := ⟨1, 1⟩
    start ≤ stop ∧ start < stop ∧
      splice text ⟨start, stop⟩ "xy".toList = "aéxyb".toList ∧
      splice text ⟨stop, start⟩ "xy".toList = "aé\r\n😀xyb".toList := by
  intro text start stop
  have forward : start ≤ stop := Position.le_iff.mpr (by decide)
  have strictly : start < stop := lt_of_le_not_ge forward fun backward =>
    absurd (Position.le_iff.mp backward) (by decide)
  obtain ⟨-, -, -, replaced, -⟩ := splice_characters text "xy".toList ⟨start, stop⟩
  obtain ⟨-, -, -, -, inserted⟩ := splice_characters text "xy".toList ⟨stop, start⟩
  refine ⟨forward, strictly, ?_, ?_⟩
  · rw [(replaced forward).2]
    decide +kernel
  · rw [inserted strictly]
    decide +kernel

end ScriptLens.Text
