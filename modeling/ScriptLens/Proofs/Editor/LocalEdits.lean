import ScriptLens.Proofs.Text.Splice
import ScriptLens.Proofs.Token.SourceLines

/-! # Edits are local
Replacing a stretch of a text changes what is read off the lines that the stretch touches. The lines
before it give what they gave, and so do the lines behind it, with other numbers.
Main statements:
* `Yield.filter_before_splice`, `Yield.filter_behind_splice`: the lines around a replaced stretch,
  for anything that is read line by line.
* `tokenize_splice`: the tokens and the errors around a replaced stretch. -/

namespace ScriptLens

open Text (TextRange)

namespace Yield

variable {α : Type} (yield : Yield α) {text : List Char} {range : TextRange}

/-- The lines before a replaced stretch give what they gave. -/
theorem filter_before_splice (h : range.LiesIn text) (replacement : List Char) :
    (yield.ofLines 1 (Text.lines (Text.splice text range replacement))).filter
        (yield.line · ≤ range.start.line) =
      (yield.ofLines 1 (Text.lines text)).filter (yield.line · ≤ range.start.line) := by
  obtain ⟨middle, spliced, -⟩ := Text.lines_splice h replacement
  have count : ((Text.lines text).take range.start.line).length = range.start.line :=
    List.length_take_of_le (Nat.le_of_lt h.start_lt)
  -- Both texts start with the same lines, as many as come before the stretch.
  have edited := yield.filter_before ((Text.lines text).take range.start.line)
    (middle ++ (Text.lines text).drop (range.stop.line + 1))
  have whole := yield.filter_before ((Text.lines text).take range.start.line)
    ((Text.lines text).drop range.start.line)
  rw [count] at edited whole
  rw [List.take_append_drop] at whole
  rw [spliced, edited, whole]

/-- The lines behind a replaced stretch give what they gave, moved by as many lines as the
replacement has more than the stretch. -/
theorem filter_behind_splice (h : range.LiesIn text) (replacement : List Char) :
    (yield.ofLines 1 (Text.lines (Text.splice text range replacement))).filter
        (range.start.line + replacement.count '\n' + 1 < yield.line ·) =
      ((yield.ofLines 1 (Text.lines text)).filter (range.stop.line + 1 < yield.line ·)).map
        fun item => yield.onLine
          (yield.line item + replacement.count '\n' - (range.stop.line - range.start.line)) item := by
  obtain ⟨middle, spliced, length⟩ := Text.lines_splice h replacement
  have start_lt := h.start_lt
  have stop_lt := h.stop_lt
  have forward : range.start.line ≤ range.stop.line :=
    h.forward.elim Nat.le_of_lt fun same => Nat.le_of_eq same.1
  have countBefore : ((Text.lines text).take range.start.line ++ middle).length =
      range.start.line + replacement.count '\n' + 1 := by
    rw [List.length_append, List.length_take_of_le (Nat.le_of_lt start_lt), length, Nat.add_assoc]
  have countThrough : ((Text.lines text).take (range.stop.line + 1)).length = range.stop.line + 1 :=
    List.length_take_of_le stop_lt
  -- Both texts end with the same lines, but these start at different numbers.
  have edited := yield.filter_behind ((Text.lines text).take range.start.line ++ middle)
    ((Text.lines text).drop (range.stop.line + 1))
  have whole := yield.filter_behind ((Text.lines text).take (range.stop.line + 1))
    ((Text.lines text).drop (range.stop.line + 1))
  rw [countBefore, List.append_assoc, ← spliced] at edited
  rw [countThrough, List.take_append_drop] at whole
  rw [edited, whole, yield.ofLines_renumbered (range.stop.line + 1 + 1)]
  refine List.map_congr_left fun item listed => ?_
  have bounds := yield.line_bounds_of_mem_ofLines listed
  congr 1
  omega

end Yield

/-- **Edits are local.** Where a stretch of a text is replaced, the tokens and the errors of the lines
before the stretch stay as they are, and those behind its last new line are those that were behind
its end, moved by the line feeds that came in less those that went out. -/
theorem tokenize_splice {text : String} {range : TextRange} (h : range.LiesIn text.toList)
    (replacement : String) :
    let edited := String.ofList (Text.splice text.toList range replacement.toList)
    let feeds := replacement.toList.count '\n'
    let moved (line : Nat) := line + feeds - (range.stop.line - range.start.line)
    (tokenize edited).filter (·.line ≤ range.start.line) =
        (tokenize text).filter (·.line ≤ range.start.line) ∧
      (escapeErrors edited).filter (·.line ≤ range.start.line) =
        (escapeErrors text).filter (·.line ≤ range.start.line) ∧
      (tokenize edited).filter (range.start.line + feeds + 1 < ·.line) =
        ((tokenize text).filter (range.stop.line + 1 < ·.line)).map
          (fun token => { token with line := moved token.line }) ∧
      (escapeErrors edited).filter (range.start.line + feeds + 1 < ·.line) =
        ((escapeErrors text).filter (range.stop.line + 1 < ·.line)).map
          (fun error => { error with line := moved error.line }) := by
  intro edited feeds moved
  have characters : edited.toList = Text.splice text.toList range replacement.toList :=
    String.toList_ofList
  simp only [tokenize_eq_ofLines, escapeErrors_eq_ofLines, characters]
  exact ⟨Yield.tokens.filter_before_splice h _, Yield.errors.filter_before_splice h _,
    Yield.tokens.filter_behind_splice h _, Yield.errors.filter_behind_splice h _⟩

/-- A text whose lines end with carriage returns, and whose third line has an unknown escape. -/
def carriageText : String :=
  "x\r\ny z\r\n\"\\q\"\r\nw"

/-- The stretch of `carriageText` from behind the `y` to the end of its line. -/
def carriageRange : TextRange :=
  { start := { line := 1, character := 1 }, stop := { line := 1, character := 3 } }

/-- A line feed in place of the stretch moves the error and the last token by one line. -/
theorem tokenize_splice_carriageText :
    carriageRange.LiesIn carriageText.toList ∧
      let edited := String.ofList (Text.splice carriageText.toList carriageRange "\n".toList)
      (tokenize edited).filter (·.line ≤ 1) = (tokenize carriageText).filter (·.line ≤ 1) ∧
        (tokenize edited).filter (3 < ·.line) = [⟨.text, "w", 5, 0⟩] ∧
        (escapeErrors edited).filter (3 < ·.line) = [⟨4, 1, 'q'⟩] := by
  have inside : carriageRange.LiesIn carriageText.toList :=
    ⟨by decide +kernel, by decide +kernel, .inr (by decide)⟩
  have lastToken : ((tokenize carriageText).filter (2 < ·.line)).map
      (fun token => { token with line := token.line + 1 - 0 }) = [⟨.text, "w", 5, 0⟩] := by
    decide +kernel
  have lastError : ((escapeErrors carriageText).filter (2 < ·.line)).map
      (fun error => { error with line := error.line + 1 - 0 }) = [⟨4, 1, 'q'⟩] := by
    decide +kernel
  obtain ⟨before, -, behind, errors⟩ := tokenize_splice inside "\n"
  exact ⟨inside, before, behind.trans lastToken, errors.trans lastError⟩

end ScriptLens
