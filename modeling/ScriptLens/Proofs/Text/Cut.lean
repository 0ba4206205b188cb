import ScriptLens.Text.Position

/-! # Cuts at positions
A position cuts a text between two characters. The bytes before it are those of the characters
before it, so that splicing can be said without counting bytes.
Main definitions:
* `before`: the characters of a text before a position.
Main statements:
* `line_induction`: induction over the lines of a text.
* `offsetAt_eq`, `before_isPrefix`: an offset is the size of a beginning of the text.
* `splice_eq`: splicing keeps what lies before the start and behind the end. -/

namespace ScriptLens.Text

/-! ## Lines -/

/-- Induction over the lines of a text: a text is a line, or a line and a line feed before a
text. -/
theorem line_induction {motive : List Char → Prop}
    (last : ∀ line, '\n' ∉ line → motive line)
    (more : ∀ line later, '\n' ∉ line → motive later → motive (line ++ '\n' :: later))
    (text : List Char) : motive text := by
  by_cases h : '\n' ∈ text
  · obtain ⟨line, later, eq, fresh⟩ := List.eq_append_cons_of_mem h
    have shorter : later.length < text.length := by
      rw [eq, List.length_append, List.length_cons]
      omega
    rw [eq]
    exact more line later fresh (line_induction last more later)
  · exact last text h
termination_by text.length

/-- The first line of a text comes before the lines behind it. -/
@[simp] theorem lines_line_append {line : List Char} (later : List Char) (h : '\n' ∉ line) :
    lines (line ++ '\n' :: later) = line :: lines later := by
  rw [lines_append_cons, lines_of_notMem h]
  rfl

/-- The content of a line is a beginning of it. -/
theorem content_isPrefix (line : List Char) : content line <+: line := by
  unfold content
  split
  · exact List.dropLast_prefix line
  · exact List.prefix_refl line

/-- A part of the content of a line is a beginning of the line. -/
theorem take_content_isPrefix (line : List Char) (character : Nat) :
    (content line).take character <+: line :=
  (List.take_prefix _ _).trans (content_isPrefix line)

/-! ## Beginnings -/

/-- The characters of a text before a position. -/
def before (text : List Char) (position : Position) : List Char :=
  match (lines text)[position.line]? with
  | none => text
  | some line =>
    ((lines text).take position.line).flatMap (· ++ ['\n']) ++
      (content line).take position.character

/-- Before a position on the first line lies a part of the content of that line. -/
@[simp] theorem before_zero (line later : List Char) (character : Nat) (h : '\n' ∉ line) :
    before (line ++ '\n' :: later) ⟨0, character⟩ = (content line).take character := by
  simp only [before, lines_line_append later h]
  rfl

/-- Before a position behind the first line lies that line. -/
@[simp] theorem before_succ (line later : List Char) (number character : Nat) (h : '\n' ∉ line) :
    before (line ++ '\n' :: later) ⟨number + 1, character⟩ =
      line ++ '\n' :: before later ⟨number, character⟩ := by
  simp only [before, lines_line_append later h, List.getElem?_cons_succ]
  cases (lines later)[number]? with
  | none => rfl
  | some found => simp

/-- Before a position in a text of one line lies a part of its content, or all of it. -/
theorem before_of_notMem {line : List Char} (position : Position) (h : '\n' ∉ line) :
    before line position =
      if position.line = 0 then (content line).take position.character else line := by
  obtain ⟨number, character⟩ := position
  simp only [before, lines_of_notMem h]
  cases number with
  | zero => rfl
  | succ number => rfl

/-- What lies before a position is a beginning of the text. -/
theorem before_isPrefix (text : List Char) (position : Position) :
    before text position <+: text := by
  induction text using line_induction generalizing position with
  | last line h =>
    rw [before_of_notMem position h]
    split
    · exact take_content_isPrefix line _
    · exact List.prefix_refl line
  | more line later h ih =>
    obtain ⟨number, character⟩ := position
    cases number with
    | zero =>
      rw [before_zero line later character h]
      exact (take_content_isPrefix line _).trans (List.prefix_append _ _)
    | succ number =>
      rw [before_succ line later number character h]
      exact (List.prefix_append_right_inj line).mpr
        ((List.prefix_cons_inj _).mpr (ih ⟨number, character⟩))

/-! ## Bytes -/

/-- The bytes of two texts add up. -/
@[simp] theorem byteSize_append (left right : List Char) :
    byteSize (left ++ right) = byteSize left + byteSize right := by
  induction left with
  | nil => simp [byteSize]
  | cons c left ih => simp [byteSize, ih, Nat.add_assoc]

/-- Lines with a line feed after each take up their extent. -/
@[simp] theorem byteSize_flatMap (lines : List (List Char)) :
    byteSize (lines.flatMap (· ++ ['\n'])) = extent lines := by
  induction lines with
  | nil => rfl
  | cons line lines ih =>
    rw [List.flatMap_cons, byteSize_append, byteSize_append, ih]
    rfl

/-- The offset of a position is the size of what lies before it. -/
theorem offsetAt_eq (text : List Char) (position : Position) :
    offsetAt text position = byteSize (before text position) := by
  unfold offsetAt before
  cases (lines text)[position.line]? with
  | none => rfl
  | some line => rw [byteSize_append, byteSize_flatMap]

/-- Cutting at the size of a beginning gives that beginning. -/
theorem takeBytes_byteSize {start text : List Char} (h : start <+: text) :
    takeBytes (byteSize start) text = start := by
  obtain ⟨later, rfl⟩ := h
  induction start with
  | nil =>
    cases later with
    | nil => rfl
    | cons c later => simp [takeBytes, byteSize, Nat.ne_of_gt c.utf8Size_pos]
  | cons c start ih => simp [takeBytes, byteSize, ih]

/-- Behind the size of a beginning lies what follows it. -/
theorem dropBytes_byteSize {start text : List Char} (h : start <+: text) :
    dropBytes (byteSize start) text = text.drop start.length := by
  have whole := takeBytes_append_dropBytes (byteSize start) text
  rw [takeBytes_byteSize h] at whole
  rw [← whole, List.drop_left, whole]

/-- A longer beginning has at least as many bytes. -/
theorem byteSize_le_of_isPrefix {left right : List Char} (h : left <+: right) :
    byteSize left ≤ byteSize right := by
  obtain ⟨later, rfl⟩ := h
  rw [byteSize_append]
  omega

/-- Splicing keeps what lies before the start of the stretch, and what lies behind its end or, if
the end comes first, behind its start. -/
theorem splice_eq (text : List Char) (range : TextRange) (replacement : List Char) :
    splice text range replacement = before text range.start ++ replacement ++
      text.drop (max (before text range.start).length (before text range.stop).length) := by
  have start := before_isPrefix text range.start
  have stop := before_isPrefix text range.stop
  unfold splice
  simp only [offsetAt_eq, takeBytes_byteSize start]
  -- Both cuts are beginnings of one text, so one of them is a beginning of the other.
  rcases List.prefix_or_prefix_of_prefix start stop with shorter | longer
  · rw [Nat.max_eq_right (byteSize_le_of_isPrefix shorter), Nat.max_eq_right shorter.length_le,
      dropBytes_byteSize stop]
  · rw [Nat.max_eq_left (byteSize_le_of_isPrefix longer), Nat.max_eq_left longer.length_le,
      dropBytes_byteSize start]

end ScriptLens.Text
