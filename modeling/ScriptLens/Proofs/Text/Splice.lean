import ScriptLens.Proofs.Text.Clamping

/-! # Lines of a spliced text
Splicing leaves the lines before the stretch and behind it alone. Between them stand as many lines as
the new characters have, the first and the last of which are completed by what is left of the lines
in which the stretch starts and ends.
Main definition:
* `TextRange.LiesIn`: the lines of a stretch exist, and it does not end before it starts.
Main statements:
* `eq_append_line_append`: a text around one of its lines.
* `lines_splice`: the lines of a spliced text. -/

namespace ScriptLens.Text

/-! ## Joining lines -/

/-- There is one line more than there are line feeds. -/
@[simp] theorem length_lines (text : List Char) : (lines text).length = text.count '\n' + 1 := by
  induction text using line_induction with
  | last line h => rw [lines_of_notMem h, List.count_eq_zero_of_not_mem h, List.length_singleton]
  | more line later h ih =>
    rw [lines_line_append later h, List.length_cons, ih, List.count_append, List.count_cons_self,
      List.count_eq_zero_of_not_mem h]
    omega

/-- A line has no line feed. -/
theorem feed_notMem_of_mem_lines {text line : List Char} (listed : line ∈ lines text) :
    '\n' ∉ line := by
  induction text using line_induction with
  | last only h =>
    rw [lines_of_notMem h, List.mem_singleton] at listed
    rwa [listed]
  | more first later h ih =>
    rw [lines_line_append later h] at listed
    rcases List.mem_cons.mp listed with rfl | behind
    · exact h
    · exact ih behind

/-- Lines with a line feed behind each come before the lines of what follows. -/
theorem lines_flatMap_append {earlier : List (List Char)} (h : ∀ line ∈ earlier, '\n' ∉ line)
    (text : List Char) :
    lines (earlier.flatMap (· ++ ['\n']) ++ text) = earlier ++ lines text := by
  induction earlier with
  | nil => rfl
  | cons line earlier ih =>
    obtain ⟨here, others⟩ := List.forall_mem_cons.mp h
    rw [List.flatMap_cons, List.append_assoc, List.append_assoc, List.singleton_append,
      lines_line_append _ here, ih others]
    rfl

/-- Lines with a line feed before each come behind the lines of what stands before them. -/
theorem lines_append_flatMap {later : List (List Char)} (h : ∀ line ∈ later, '\n' ∉ line)
    (text : List Char) :
    lines (text ++ later.flatMap ('\n' :: ·)) = lines text ++ later := by
  induction later generalizing text with
  | nil => rw [List.flatMap_nil, List.append_nil, List.append_nil]
  | cons line later ih =>
    obtain ⟨here, others⟩ := List.forall_mem_cons.mp h
    rw [List.flatMap_cons, List.cons_append, lines_append_cons, ih others, lines_of_notMem here]
    rfl

/-- The lines of a text with a line feed before each are the text behind one line feed. -/
@[simp] theorem flatMap_cons_lines (text : List Char) :
    (lines text).flatMap ('\n' :: ·) = '\n' :: text := by
  induction text using line_induction with
  | last line h => rw [lines_of_notMem h, List.flatMap_singleton]
  | more line later h ih =>
    rw [lines_line_append later h, List.flatMap_cons, ih]
    rfl

/-- A text is made up of the lines before a line, that line, and the lines behind it. -/
theorem eq_append_line_append {text line : List Char} {number : Nat}
    (h : (lines text)[number]? = some line) :
    text = ((lines text).take number).flatMap (· ++ ['\n']) ++
      (line ++ ((lines text).drop (number + 1)).flatMap ('\n' :: ·)) := by
  induction text using line_induction generalizing number with
  | last only fresh =>
    rw [lines_of_notMem fresh] at h ⊢
    cases number with
    | zero =>
      cases h
      simp
    | succ number => cases h
  | more first later fresh ih =>
    rw [lines_line_append later fresh] at h ⊢
    cases number with
    | zero =>
      cases h
      simp
    | succ number =>
      have behind := ih h
      rw [List.take_succ_cons, List.drop_succ_cons, List.flatMap_cons, List.append_assoc, ← behind]
      simp

/-! ## Stretches -/

/-- A position on a line that exists cuts this line in two, and with it the text. -/
theorem exists_cut {text : List Char} {position : Position}
    (h : position.line < (lines text).length) :
    ∃ head tail, '\n' ∉ head ∧ '\n' ∉ tail ∧
      before text position =
        ((lines text).take position.line).flatMap (· ++ ['\n']) ++ head ∧
      text.drop (before text position).length =
        tail ++ ((lines text).drop (position.line + 1)).flatMap ('\n' :: ·) := by
  have found := List.getElem?_eq_getElem h
  generalize hline : (lines text)[position.line] = line at found
  have fresh : '\n' ∉ line := feed_notMem_of_mem_lines (List.mem_of_getElem? found)
  have upTo := before_of_line position.character found
  -- Behind the characters before the position comes the rest of the line.
  obtain ⟨tail, parts⟩ := take_content_isPrefix line position.character
  generalize (content line).take position.character = head at upTo parts
  subst parts
  rw [List.mem_append, not_or] at fresh
  refine ⟨head, tail, fresh.1, fresh.2, upTo, ?_⟩
  have whole := eq_append_line_append found
  rw [List.append_assoc, ← List.append_assoc, ← upTo] at whole
  calc text.drop (before text position).length
      = (before text position ++ (tail ++
          ((lines text).drop (position.line + 1)).flatMap ('\n' :: ·))).drop
            (before text position).length := congrArg _ whole
    _ = _ := List.drop_left

/-- The lines of a stretch exist in a text, and the stretch does not end before it starts. -/
structure TextRange.LiesIn (range : TextRange) (text : List Char) : Prop where
  /-- The line in which it starts exists. -/
  start_lt : range.start.line < (lines text).length
  /-- The line in which it ends exists. -/
  stop_lt : range.stop.line < (lines text).length
  /-- The start comes before the end, or is the end. -/
  forward : range.start.line < range.stop.line ∨
    range.start.line = range.stop.line ∧ range.start.character ≤ range.stop.character

/-- The start of a stretch does not lie behind its end. -/
theorem TextRange.LiesIn.length_before_le {range : TextRange} {text : List Char}
    (h : range.LiesIn text) :
    (before text range.start).length ≤ (before text range.stop).length :=
  (before_isPrefix_before text (Position.le_iff.mpr h.forward)).length_le

/-- **The lines of a spliced text**: those before the start of the stretch and those behind its end
stay, and the new characters put one line more than they have line feeds in between. -/
theorem lines_splice {text : List Char} {range : TextRange} (h : range.LiesIn text)
    (replacement : List Char) :
    ∃ middle, lines (splice text range replacement) =
        (lines text).take range.start.line ++
          (middle ++ (lines text).drop (range.stop.line + 1)) ∧
      middle.length = replacement.count '\n' + 1 := by
  obtain ⟨head, -, headFree, -, upToStart, -⟩ := exists_cut h.start_lt
  obtain ⟨-, tail, -, tailFree, -, behind⟩ := exists_cut h.stop_lt
  have feedless {part : List (List Char)} (inside : part ⊆ lines text) :
      ∀ line ∈ part, '\n' ∉ line := fun line listed => feed_notMem_of_mem_lines (inside listed)
  refine ⟨lines (head ++ (replacement ++ tail)), ?_, ?_⟩
  · have parts : splice text range replacement =
        ((lines text).take range.start.line).flatMap (· ++ ['\n']) ++
          ((head ++ (replacement ++ tail)) ++
            ((lines text).drop (range.stop.line + 1)).flatMap ('\n' :: ·)) := by
      rw [splice_eq, Nat.max_eq_right h.length_before_le, behind, upToStart]
      simp only [List.append_assoc]
    rw [parts, lines_flatMap_append (feedless (List.take_subset _ _)),
      lines_append_flatMap (feedless (List.drop_subset _ _))]
  · rw [length_lines, List.count_append, List.count_append, List.count_eq_zero_of_not_mem headFree,
      List.count_eq_zero_of_not_mem tailFree]
    omega

end ScriptLens.Text
