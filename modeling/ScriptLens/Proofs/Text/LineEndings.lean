import ScriptLens.Proofs.Text.Cut

/-! # Line endings
A text can end its lines with a line feed alone, or with a carriage return before it. For a text
without carriage returns both forms have the same lines, and every position cuts them at the same
place.
Main definition:
* `withReturns`: a text with a carriage return before every line feed.
Main statements:
* `map_content_lines_withReturns`: both forms have the same lines.
* `splice_withReturns`: splicing keeps to the form of the text. -/

namespace ScriptLens.Text

/-- A text with a carriage return before every line feed. -/
def withReturns (text : List Char) : List Char :=
  text.flatMap fun c => if c = '\n' then ['\r', '\n'] else [c]

/-- Two texts are converted one after the other. -/
@[simp] theorem withReturns_append (left right : List Char) :
    withReturns (left ++ right) = withReturns left ++ withReturns right := by
  simp [withReturns]

/-- A line feed gets its carriage return. -/
@[simp] theorem withReturns_cons_feed (later : List Char) :
    withReturns ('\n' :: later) = '\r' :: '\n' :: withReturns later := by
  simp [withReturns]

/-- A text without line feeds stays as it is. -/
theorem withReturns_of_notMem {text : List Char} (h : '\n' ∉ text) : withReturns text = text := by
  induction text with
  | nil => rfl
  | cons c text ih =>
    have differs : c ≠ '\n' := Ne.symm (List.ne_of_not_mem_cons h)
    have rest := ih (List.not_mem_of_not_mem_cons h)
    unfold withReturns at rest ⊢
    rw [List.flatMap_cons, if_neg differs, rest]
    rfl

/-- The first line of a converted text ends with the carriage return. -/
@[simp] theorem withReturns_line_append {line : List Char} (later : List Char) (h : '\n' ∉ line) :
    withReturns (line ++ '\n' :: later) = (line ++ ['\r']) ++ '\n' :: withReturns later := by
  rw [withReturns_append, withReturns_of_notMem h, withReturns_cons_feed]
  simp

/-! ## Lines -/

/-- A line without carriage returns is its own content. -/
@[simp] theorem content_of_notMem {line : List Char} (h : '\r' ∉ line) : content line = line := by
  unfold content
  split
  · next last => exact absurd (List.mem_of_getLast? last) h
  · rfl

/-- The carriage return at the end of a line does not belong to its content. -/
@[simp] theorem content_append_return (line : List Char) : content (line ++ ['\r']) = line := by
  simp [content]

/-- A line does not get a line feed from a carriage return. -/
theorem feed_notMem_append_return {line : List Char} (h : '\n' ∉ line) : '\n' ∉ line ++ ['\r'] := by
  simpa using h

/-- If a text has no carriage returns, then neither its first line nor what follows has any. -/
theorem return_notMem {line later : List Char} (plain : '\r' ∉ line ++ '\n' :: later) :
    '\r' ∉ line ∧ '\r' ∉ later := by
  rw [List.mem_append, not_or] at plain
  exact ⟨plain.1, List.not_mem_of_not_mem_cons plain.2⟩

/-- Both forms of a text have the same lines. -/
@[simp] theorem map_content_lines_withReturns {text : List Char} (plain : '\r' ∉ text) :
    (lines (withReturns text)).map content = (lines text).map content := by
  induction text using line_induction with
  | last line h => rw [withReturns_of_notMem h]
  | more line later h ih =>
    obtain ⟨plainLine, plainLater⟩ := return_notMem plain
    rw [withReturns_line_append later h, lines_line_append _ (feed_notMem_append_return h),
      lines_line_append later h, List.map_cons, List.map_cons, content_append_return,
      content_of_notMem plainLine, ih plainLater]

/-! ## Cuts -/

/-- A position cuts both forms of a text at the same place. -/
@[simp] theorem before_withReturns {text : List Char} (plain : '\r' ∉ text) (position : Position) :
    before (withReturns text) position = withReturns (before text position) := by
  induction text using line_induction generalizing position with
  | last line h =>
    have start : '\n' ∉ before line position :=
      fun found => h ((before_isPrefix line position).subset found)
    rw [withReturns_of_notMem h, withReturns_of_notMem start]
  | more line later h ih =>
    obtain ⟨plainLine, plainLater⟩ := return_notMem plain
    have h' := feed_notMem_append_return h
    rw [withReturns_line_append later h]
    obtain ⟨number, character⟩ := position
    cases number with
    | zero =>
      -- The carriage return is not part of the content, so no character count reaches it.
      have start : '\n' ∉ line.take character := fun found => h (List.mem_of_mem_take found)
      rw [before_zero _ _ character h', before_zero line later character h, content_append_return,
        content_of_notMem plainLine, withReturns_of_notMem start]
    | succ number =>
      rw [before_succ _ _ number character h', before_succ line later number character h,
        ih plainLater, withReturns_line_append _ h]

/-- Behind a converted beginning lies what follows it, converted. -/
theorem drop_withReturns {start text : List Char} (h : start <+: text) :
    (withReturns text).drop (withReturns start).length = withReturns (text.drop start.length) := by
  obtain ⟨later, rfl⟩ := h
  simp

/-- A longer beginning stays longer. -/
theorem length_withReturns_le {left right : List Char} (h : left <+: right) :
    (withReturns left).length ≤ (withReturns right).length := by
  obtain ⟨later, rfl⟩ := h
  rw [withReturns_append, List.length_append]
  omega

/-- Splicing converted characters into a converted text gives the converted result. -/
@[simp] theorem splice_withReturns {text : List Char} (plain : '\r' ∉ text) (range : TextRange)
    (replacement : List Char) :
    splice (withReturns text) range (withReturns replacement) =
      withReturns (splice text range replacement) := by
  have start := before_isPrefix text range.start
  have stop := before_isPrefix text range.stop
  rw [splice_eq, splice_eq, before_withReturns plain, before_withReturns plain, withReturns_append,
    withReturns_append]
  rcases List.prefix_or_prefix_of_prefix start stop with shorter | longer
  · rw [Nat.max_eq_right shorter.length_le, Nat.max_eq_right (length_withReturns_le shorter),
      drop_withReturns stop]
  · rw [Nat.max_eq_left longer.length_le, Nat.max_eq_left (length_withReturns_le longer),
      drop_withReturns start]

/-- Splicing brings in no characters but those of the text and of the replacement. -/
theorem mem_of_mem_splice {text replacement : List Char} {range : TextRange} {c : Char}
    (h : c ∈ splice text range replacement) : c ∈ text ∨ c ∈ replacement := by
  rw [splice_eq] at h
  rcases List.mem_append.mp h with early | late
  · rcases List.mem_append.mp early with start | inserted
    · exact Or.inl ((before_isPrefix text range.start).subset start)
    · exact Or.inr inserted
  · exact Or.inl (List.mem_of_mem_drop late)

end ScriptLens.Text
