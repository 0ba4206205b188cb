import Mathlib.Data.List.Nodup
import ScriptLens.Proofs.Text.Splice
import ScriptLens.Proofs.Token.SourceLines

/-! # Texts joined by a line feed
A text below another one is read as if it stood alone: the line feed between them ends whatever the
text above has begun, be it a string, an escape or a comment, and only the line numbers below
change.
Main definitions:
* `Token.lowered`, `EscapeError.lowered`: a token and an error some lines further down.
* `Yield.lowered`: an item of any such reading some lines further down.
Main statements:
* `Yield.ofLines_lowered`: some lines further down.
* `Yield.ofLines_lines_joined`: what two joined texts give.
* `pairwise_line_escapeErrors`: the lines of the errors rise.
* `tokenize_joined`: the tokens and the errors of two joined texts. -/

namespace ScriptLens

/-- A token `count` lines further down. -/
def Token.lowered (count : Nat) (token : Token) : Token :=
  { token with line := token.line + count }

/-- An escape error `count` lines further down. -/
def EscapeError.lowered (count : Nat) (error : EscapeError) : EscapeError :=
  { error with line := error.line + count }

/-! ## What lines give further down -/

namespace Yield

variable {α : Type} (yield : Yield α)

/-- An item `count` lines further down. -/
def lowered (count : Nat) (item : α) : α :=
  yield.onLine (yield.line item + count) item

/-- Lines further down give the same items further down. -/
theorem ofLines_lowered (first count : Nat) (lines : List (List Char)) :
    yield.ofLines (first + count) lines =
      (yield.ofLines first lines).map (yield.lowered count) := by
  rw [yield.ofLines_renumbered first (first + count)]
  refine List.map_congr_left fun item listed => ?_
  have bounds := yield.line_bounds_of_mem_ofLines listed
  have moved : yield.line item - first + (first + count) = yield.line item + count := by omega
  rw [lowered, moved]

/-- **Two joined texts** give what the upper one gives, and below it what the lower one gives. -/
theorem ofLines_lines_joined (above below : List Char) :
    yield.ofLines 1 (Text.lines (above ++ '\n' :: below)) =
      yield.ofLines 1 (Text.lines above) ++
        (yield.ofLines 1 (Text.lines below)).map (yield.lowered (above.count '\n' + 1)) := by
  simp [ofLines_lowered]

/-- Where every line gives one item at most, the lines of all items rise. -/
theorem pairwise_line_ofLines (single : ∀ number text, (yield.ofLine number text).length ≤ 1)
    (first : Nat) (lines : List (List Char)) :
    (yield.ofLines first lines).Pairwise (yield.line · < yield.line ·) := by
  refine yield.pairwise_ofLines (fun number text => ?_) (fun _ _ above => above) first lines
  -- Two items of one line would be more than one.
  have alone := single number text
  generalize yield.ofLine number text = items at alone ⊢
  rcases items with _ | ⟨item, _ | ⟨other, more⟩⟩
  · exact List.Pairwise.nil
  · exact List.pairwise_singleton _ item
  · simp at alone

end Yield

/-! ## Errors of a source -/

/-- The lines of the errors rise from one error to the next. -/
theorem pairwise_line_escapeErrors (source : String) :
    (escapeErrors source).Pairwise (·.line < ·.line) := by
  rw [escapeErrors_eq_ofLines]
  exact Yield.errors.pairwise_line_ofLines (fun number text => Option.length_toList_le) 1 _

/-- A line gives one error at most. -/
theorem count_line_escapeErrors_le_one (source : String) (number : Nat) :
    ((escapeErrors source).map (·.line)).count number ≤ 1 := by
  have distinct : ((escapeErrors source).map (·.line)).Nodup :=
    List.pairwise_map.mpr ((pairwise_line_escapeErrors source).imp Nat.ne_of_lt)
  exact List.nodup_iff_count_le_one.mp distinct number

/-! ## Two joined texts -/

/-- **Reading is line by line**: a text below another one gives the tokens and the errors that it
gives alone, as many lines further down as the upper text has. In every text a line gives one error
at most, the lines of the errors rise, and a line with an error gives no token. -/
theorem tokenize_joined (above below : String) :
    (tokenize (above ++ "\n" ++ below) =
        tokenize above ++ (tokenize below).map (·.lowered (above.toList.count '\n' + 1)) ∧
      escapeErrors (above ++ "\n" ++ below) =
        escapeErrors above ++ (escapeErrors below).map (·.lowered (above.toList.count '\n' + 1))) ∧
    ∀ source, (escapeErrors source).Pairwise (·.line < ·.line) ∧
      (∀ number, ((escapeErrors source).map (·.line)).count number ≤ 1) ∧
      ∀ error ∈ escapeErrors source, ∀ token ∈ tokenize source, token.line ≠ error.line := by
  have text : (above ++ "\n" ++ below).toList = above.toList ++ '\n' :: below.toList := by
    simp [String.toList_append]
  refine ⟨⟨?_, ?_⟩, fun source => ⟨pairwise_line_escapeErrors source,
    count_line_escapeErrors_le_one source,
    fun error failed token listed => line_ne_of_mem_escapeErrors failed listed⟩⟩
  · simp only [tokenize_eq_ofLines, text]
    exact Yield.tokens.ofLines_lines_joined _ _
  · simp only [escapeErrors_eq_ofLines, text]
    exact Yield.errors.ofLines_lines_joined _ _

/-- A string left open before a backslash at the end of its line does not reach into the next line,
where a quote opens a string with an unknown escape. -/
theorem tokenize_joined_openString :
    tokenize ("a \"b\\" ++ "\n" ++ "c\" \\q\r\nd") =
        [{ kind := .text, lexeme := "a", line := 1, column := 0 },
          { kind := .doubleQuote, lexeme := "\"", line := 1, column := 2 },
          { kind := .text, lexeme := "b\\", line := 1, column := 3 },
          { kind := .text, lexeme := "d", line := 3, column := 0 }] ∧
      escapeErrors ("a \"b\\" ++ "\n" ++ "c\" \\q\r\nd") =
        [{ line := 2, column := 3, escape := 'q' }] ∧
      ∀ token ∈ tokenize "c\" \\q\r\nd", token.line ≠ 1 := by
  obtain ⟨⟨tokens, errors⟩, separate⟩ := tokenize_joined "a \"b\\" "c\" \\q\r\nd"
  have failed : { line := 1, column := 3, escape := 'q' } ∈ escapeErrors "c\" \\q\r\nd" := by
    decide +kernel
  refine ⟨tokens.trans ?_, errors.trans ?_, (separate "c\" \\q\r\nd").2.2 _ failed⟩
  · decide +kernel
  · decide +kernel

end ScriptLens
