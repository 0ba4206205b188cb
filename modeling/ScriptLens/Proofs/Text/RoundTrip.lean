import Mathlib.Data.List.TakeWhile
import ScriptLens.Proofs.Text.Clamping

/-! # From positions to offsets and back
A position has an offset and an offset has a position. The two ways undo each other, except where
there is nothing to come back to: positions behind the end of a line or of the text, offsets inside a
character or behind the text, and offsets between the two characters that end a line.
Main definition:
* `InsideEnding`: an offset lies behind a carriage return that does not belong to its line.
Main statements:
* `endPosition_before`: what lies before a position ends at that position.
* `before_endPosition`: before the end of a beginning lies that beginning.
* `positions_offsets_inverse`: where the two ways undo each other, and what happens elsewhere. -/

namespace ScriptLens.Text

/-! ## The end of a text -/

/-- A text of one line ends on this line, behind all its characters. -/
theorem endPosition_of_notMem {line : List Char} (fresh : '\n' ∉ line) :
    endPosition line = ⟨0, line.length⟩ := by
  have all : line.reverse.takeWhile (· ≠ '\n') = line.reverse := by
    rw [List.takeWhile_eq_self_iff]
    intro c listed
    simpa using fun feed : c = '\n' => fresh (feed ▸ List.mem_reverse.mp listed)
  unfold endPosition
  rw [List.count_eq_zero_of_not_mem fresh, all, List.length_reverse]

/-- Behind a line with its line feed a text ends one line further down. -/
@[simp] theorem endPosition_line_append {line : List Char} (later : List Char)
    (fresh : '\n' ∉ line) :
    endPosition (line ++ '\n' :: later) =
      ⟨(endPosition later).line + 1, (endPosition later).character⟩ := by
  -- Counted from the end, the characters of the last line stop at the line feed at the latest.
  have stopped : (line ++ '\n' :: later).reverse.takeWhile (· ≠ '\n') =
      later.reverse.takeWhile (· ≠ '\n') := by
    rw [List.reverse_append, List.reverse_cons, List.append_assoc, List.takeWhile_append]
    split
    · next whole =>
      rw [(List.takeWhile_prefix _).eq_of_length whole]
      simp
    · rfl
  unfold endPosition
  rw [stopped, List.count_append, List.count_cons_self, List.count_eq_zero_of_not_mem fresh,
    Nat.zero_add]

/-! ## From a position to its offset and back -/

/-- A part of the content of a line has no line feed. -/
theorem feed_notMem_take_content {line : List Char} (fresh : '\n' ∉ line) (character : Nat) :
    '\n' ∉ (content line).take character := by
  intro feed
  exact fresh ((take_content_isPrefix line character).subset feed)

/-- What lies before a position on a line that exists ends at that position, or at the end of the
line's content if the position lies behind it. -/
theorem endPosition_before {text line : List Char} {position : Position}
    (found : (lines text)[position.line]? = some line) :
    endPosition (before text position) =
      ⟨position.line, min position.character (content line).length⟩ := by
  induction text using line_induction generalizing position with
  | last only fresh =>
    -- There is no other line for the position to be on.
    rw [lines_of_notMem fresh] at found
    have onFirst : position.line = 0 := by
      have bound := (List.getElem?_eq_some_iff.mp found).1
      rw [List.length_singleton] at bound
      omega
    obtain rfl : only = line := by simpa [onFirst] using found
    rw [before_of_notMem position fresh, if_pos onFirst,
      endPosition_of_notMem (feed_notMem_take_content fresh _), List.length_take, onFirst]
  | more first later fresh ih =>
    obtain ⟨number, character⟩ := position
    rw [lines_line_append later fresh] at found
    cases number with
    | zero =>
      obtain rfl : first = line := by simpa using found
      simp [fresh, endPosition_of_notMem (feed_notMem_take_content fresh _)]
    | succ number =>
      have behind : endPosition (before later ⟨number, character⟩) =
          ⟨number, min character (content line).length⟩ := ih (by simpa using found)
      simp [fresh, behind]

/-- The position of the offset of a position is where the text before the position ends. -/
theorem positionAt_offsetAt (text : List Char) (position : Position) :
    positionAt text (offsetAt text position) = endPosition (before text position) := by
  rw [positionAt, offsetAt_eq, takeBytes_byteSize (before_isPrefix text position)]

/-! ## From an offset to its position and back -/

/-- Whether an offset lies inside the end of a line: right behind a carriage return that a line feed
or the end of the text follows. -/
def InsideEnding (text : List Char) (offset : Nat) : Prop :=
  ∃ start rest, text = start ++ '\r' :: rest ∧ byteSize (start ++ ['\r']) = offset ∧
    (rest = [] ∨ rest.head? = some '\n')

/-- The cut at an offset shows whether it lies inside the end of a line. -/
theorem insideEnding_iff {text : List Char} {offset : Nat} :
    InsideEnding text offset ↔ IsBoundary text offset ∧
      (takeBytes offset text).getLast? = some '\r' ∧
      (dropBytes offset text = [] ∨ (dropBytes offset text).head? = some '\n') := by
  constructor
  · rintro ⟨start, rest, parts, rfl, ending⟩
    have whole : text = (start ++ ['\r']) ++ rest := by simp [parts]
    have isPrefix : start ++ ['\r'] <+: text := ⟨rest, whole.symm⟩
    refine ⟨isBoundary_iff.mpr ⟨_, isPrefix, rfl⟩, ?_, ?_⟩
    · rw [takeBytes_byteSize isPrefix, List.getLast?_concat]
    · rw [dropBytes_byteSize isPrefix, whole, List.drop_left]
      exact ending
  · rintro ⟨boundary, last, ending⟩
    obtain ⟨start, upTo⟩ := List.getLast?_eq_some_iff.mp last
    refine ⟨start, dropBytes offset text, ?_, ?_, ending⟩
    · rw [← List.singleton_append, ← List.append_assoc, ← upTo, takeBytes_append_dropBytes]
    · rw [← upTo]
      exact isBoundary_iff_takeBytes.mp boundary

/-- Whether an offset lies inside the end of a line can be computed from the cut. -/
instance (text : List Char) (offset : Nat) : Decidable (InsideEnding text offset) :=
  decidable_of_iff _ insideEnding_iff.symm

/-- A part of a line is a part of its content, unless it ends with the carriage return that the line
ends with. -/
theorem take_content_append {start tail : List Char}
    (outside : start.getLast? = some '\r' → tail ≠ []) :
    (content (start ++ tail)).take start.length = start := by
  unfold content
  -- A carriage return that is dropped belongs to the tail, if there is one.
  by_cases empty : tail = []
  · have plain : start.getLast? ≠ some '\r' := fun last => outside last empty
    rw [empty, List.append_nil, if_neg plain, List.take_length]
  · split
    · rw [List.dropLast_append_of_ne_nil empty, List.take_left]
    · rw [List.take_left]

/-- Before the position at the end of a beginning lies that beginning, unless it ends inside the end of
a line. -/
theorem before_endPosition {start rest : List Char}
    (outside : start.getLast? = some '\r' → rest ≠ [] ∧ rest.head? ≠ some '\n') :
    before (start ++ rest) (endPosition start) = start := by
  induction start using line_induction with
  | last line fresh =>
    rw [endPosition_of_notMem fresh]
    -- The line goes on up to the next line feed, if there is one.
    by_cases feed : '\n' ∈ rest
    · obtain ⟨tail, later, rfl, freshTail⟩ := List.eq_append_cons_of_mem feed
      have freshLine : '\n' ∉ line ++ tail := by simp [fresh, freshTail]
      rw [← List.append_assoc, before_zero _ later _ freshLine]
      refine take_content_append fun last empty => (outside last).2 ?_
      rw [empty]
      rfl
    · have freshLine : '\n' ∉ line ++ rest := by simp [fresh, feed]
      rw [before_of_notMem _ freshLine, if_pos rfl]
      exact take_content_append fun last => (outside last).1
  | more line later fresh ih =>
    have inner : later.getLast? = some '\r' → rest ≠ [] ∧ rest.head? ≠ some '\n' := by
      intro last
      refine outside ?_
      rw [List.getLast?_append, List.getLast?_cons, last]
      rfl
    simp [fresh, ih inner]

/-- The offset of the position of a boundary is that boundary, unless it lies inside the end of a
line. -/
theorem offsetAt_positionAt {text : List Char} {offset : Nat} (boundary : IsBoundary text offset)
    (outside : ¬ InsideEnding text offset) : offsetAt text (positionAt text offset) = offset := by
  have behind : (takeBytes offset text).getLast? = some '\r' →
      dropBytes offset text ≠ [] ∧ (dropBytes offset text).head? ≠ some '\n' := by
    intro last
    rw [← not_or]
    exact fun ending => outside (insideEnding_iff.mpr ⟨boundary, last, ending⟩)
  have cut := before_endPosition behind
  rw [takeBytes_append_dropBytes] at cut
  rw [positionAt, offsetAt_eq, cut]
  exact isBoundary_iff_takeBytes.mp boundary

/-! ## Offsets that are no boundaries -/

/-- The characters up to an offset have at most that many bytes. -/
theorem byteSize_takeBytes_le (bytes : Nat) (text : List Char) :
    byteSize (takeBytes bytes text) ≤ bytes := by
  induction text generalizing bytes with
  | nil => exact Nat.zero_le bytes
  | cons c rest ih =>
    by_cases fits : c.utf8Size ≤ bytes
    · have inner := ih (bytes - c.utf8Size)
      rw [takeBytes, if_pos fits, byteSize]
      omega
    · rw [takeBytes, if_neg fits]
      exact Nat.zero_le bytes

/-- A beginning that has at most so many bytes is a beginning of the characters up to there. -/
theorem isPrefix_takeBytes {start text : List Char} {bytes : Nat} (h : start <+: text)
    (fits : byteSize start ≤ bytes) : start <+: takeBytes bytes text := by
  induction start generalizing text bytes with
  | nil => exact List.nil_prefix
  | cons c start ih =>
    obtain ⟨rest, rfl⟩ := h
    rw [byteSize] at fits
    have here : c.utf8Size ≤ bytes := by omega
    rw [List.cons_append, takeBytes, if_pos here]
    exact (List.prefix_cons_inj c).mpr (ih (List.prefix_append start rest) (by omega))

/-- An offset that is no boundary has the position of the nearest boundary before it. -/
theorem exists_boundary_before {text : List Char} {offset : Nat} (h : ¬ IsBoundary text offset) :
    ∃ boundary, IsBoundary text boundary ∧ boundary < offset ∧
      (∀ other, IsBoundary text other → other < offset → other ≤ boundary) ∧
      positionAt text offset = positionAt text boundary := by
  -- The boundary is the end of the last character that fits before the offset.
  have whole : takeBytes offset text <+: text := ⟨_, takeBytes_append_dropBytes offset text⟩
  have boundary : IsBoundary text (byteSize (takeBytes offset text)) :=
    isBoundary_iff.mpr ⟨_, whole, rfl⟩
  refine ⟨_, boundary, ?_, ?_, ?_⟩
  · have differs : byteSize (takeBytes offset text) ≠ offset := isBoundary_iff_takeBytes.not.mp h
    exact Nat.lt_of_le_of_ne (byteSize_takeBytes_le offset text) differs
  · intro other otherBoundary smaller
    obtain ⟨start, isPrefix, rfl⟩ := isBoundary_iff.mp otherBoundary
    exact byteSize_le_of_isPrefix (isPrefix_takeBytes isPrefix smaller.le)
  · rw [positionAt, positionAt, takeBytes_byteSize whole]

/-! ## Both ways -/

/-- **Offsets and positions undo each other.** The position of the offset of a position is that
position, if its line exists and the line's content reaches so far; otherwise it is the end of the
line's content, or the end of the text. The offset of the position of a boundary is that boundary,
unless it lies inside the end of a line; and any other offset has the position of the nearest boundary
before it. -/
theorem positions_offsets_inverse (text : List Char) :
    (∀ position line, (lines text)[position.line]? = some line →
      (position.character ≤ (content line).length →
        positionAt text (offsetAt text position) = position) ∧
      ((content line).length < position.character →
        positionAt text (offsetAt text position) = ⟨position.line, (content line).length⟩)) ∧
    (∀ position, (lines text)[position.line]? = none →
      positionAt text (offsetAt text position) = positionAt text (byteSize text)) ∧
    (∀ offset, IsBoundary text offset → ¬ InsideEnding text offset →
      offsetAt text (positionAt text offset) = offset) ∧
    (∀ offset, ¬ IsBoundary text offset →
      ∃ boundary, IsBoundary text boundary ∧ boundary < offset ∧
        (∀ other, IsBoundary text other → other < offset → other ≤ boundary) ∧
        positionAt text offset = positionAt text boundary) := by
  refine ⟨fun position line found => ⟨fun within => ?_, fun behind => ?_⟩, fun position missing => ?_,
    fun offset => offsetAt_positionAt, fun offset => exists_boundary_before⟩
  · rw [positionAt_offsetAt, endPosition_before found, Nat.min_eq_left within]
  · rw [positionAt_offsetAt, endPosition_before found, Nat.min_eq_right behind.le]
  · rw [offsetAt, missing]

/-- A character of two bytes, a line that ends in a carriage return and a line feed, and a line that
starts with a carriage return. -/
def returnsText : List Char :=
  "é\r\n\ra".toList

/-- The end of the first line and the place behind the second carriage return come back, a position
behind the first line goes to its end, one behind the text to the end of the text, and an offset inside
the first character to the start. -/
theorem positions_offsets_inverse_returnsText :
    positionAt returnsText (offsetAt returnsText ⟨0, 1⟩) = ⟨0, 1⟩ ∧
      positionAt returnsText (offsetAt returnsText ⟨0, 7⟩) = ⟨0, 1⟩ ∧
      positionAt returnsText (offsetAt returnsText ⟨9, 0⟩) = positionAt returnsText 6 ∧
      offsetAt returnsText (positionAt returnsText 5) = 5 ∧
      ∃ boundary, IsBoundary returnsText boundary ∧ boundary < 1 ∧
        positionAt returnsText 1 = positionAt returnsText boundary := by
  obtain ⟨onLine, behindText, back, inside⟩ := positions_offsets_inverse returnsText
  have first : (lines returnsText)[0]? = some ['é', '\r'] := by decide +kernel
  refine ⟨(onLine ⟨0, 1⟩ _ first).1 (by decide), (onLine ⟨0, 7⟩ _ first).2 (by decide),
    behindText ⟨9, 0⟩ (by decide +kernel), back 5 (by decide +kernel) (by decide +kernel), ?_⟩
  obtain ⟨boundary, isBoundary, smaller, -, same⟩ := inside 1 (by decide +kernel)
  exact ⟨boundary, isBoundary, smaller, same⟩

end ScriptLens.Text
