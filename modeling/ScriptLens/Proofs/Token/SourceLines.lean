import ScriptLens.Proofs.Token.Relocation

/-! # Tokens line by line
The tokens of a source are those of its lines, one line after the other, and each token tells the
number of the line that it was read off.
Main statements:
* `pairwise_tokenize`: from the tokens of each line to all tokens.
* `inLineOrder_tokenize`: the tokens of every source are in line order.
* `tokenize_of_lines`: the tokens of a source around one of its lines.
* `exists_line_of_mem_tokenize`: the line that a token was read off.
* `filter_line_tokenize`: the tokens of one line among those of the source.
* `exists_tokens_of_no_error`: a line without an error has been read.
* `exists_line_of_mem_escapeErrors`: the line that an error is about.
* `line_ne_of_mem_escapeErrors`: a line with an error has no token. -/

namespace ScriptLens

/-! ## Tokens of a source -/

/-- The tokens of a source are those of its lines. -/
theorem tokenize_eq_ofLines (source : String) :
    tokenize source = Yield.tokens.ofLines 1 (Text.lines source.toList) := by
  unfold tokenize readLines
  rw [List.flatMap_map]
  rfl

/-- A token is among those of a line if the line has been read and the token was read off it. -/
@[simp] theorem mem_readTokens {result : Except EscapeError (List Token)} {token : Token} :
    token ∈ readTokens result ↔ ∃ tokens, result = .ok tokens ∧ token ∈ tokens := by
  cases result with
  | error problem => simp [readTokens]
  | ok tokens => simp [readTokens]

/-- A relation between the tokens of each line that also holds from line to line holds between all
tokens of a source. -/
theorem pairwise_tokenize {R : Token → Token → Prop}
    (within : ∀ number text tokens, lineTokens number text = .ok tokens → tokens.Pairwise R)
    (across : ∀ left right, left.line < right.line → R left right) (source : String) :
    (tokenize source).Pairwise R := by
  rw [tokenize_eq_ofLines]
  refine Yield.tokens.pairwise_ofLines (fun number text => ?_) across 1 _
  rw [Yield.ofLine_tokens]
  cases read : lineTokens number text with
  | error problem => exact List.Pairwise.nil
  | ok tokens => exact within number text tokens read

/-- The tokens of a source are in line order. -/
theorem inLineOrder_tokenize (source : String) : InLineOrder (tokenize source) := by
  refine pairwise_tokenize (fun number text tokens read => ?_) (fun _ _ => Nat.le_of_lt) source
  have onLine := line_of_mem_lineTokens read
  exact List.pairwise_of_forall_mem_list fun left hleft right hright =>
    Nat.le_of_eq ((onLine left hleft).trans (onLine right hright).symm)

/-- The tokens of a source are those of the lines before a line, those of that line, and those of the
lines behind it. -/
theorem tokenize_of_lines {source : String} {earlier later : List (List Char)} {line : List Char}
    (h : Text.lines source.toList = earlier ++ line :: later) :
    tokenize source = Yield.tokens.ofLines 1 earlier ++
      (readTokens (lineTokens (earlier.length + 1) (Text.content line)) ++
        Yield.tokens.ofLines (earlier.length + 2) later) := by
  simp [tokenize_eq_ofLines, h, Nat.add_comm 1]

/-- A token of a source was read off the line whose number it tells. -/
theorem exists_line_of_mem_tokenize {source : String} {token : Token}
    (h : token ∈ tokenize source) :
    ∃ number line tokens, (Text.lines source.toList)[number]? = some line ∧
      lineTokens (number + 1) (Text.content line) = .ok tokens ∧ token ∈ tokens ∧
      token.line = number + 1 := by
  rw [tokenize_eq_ofLines, Yield.mem_ofLines] at h
  obtain ⟨number, line, found, here⟩ := h
  obtain ⟨tokens, read, listed⟩ := mem_readTokens.mp here
  rw [Nat.add_comm] at read
  exact ⟨number, line, tokens, found, read, listed, line_of_mem_lineTokens read token listed⟩

/-- The tokens with the number of a line are those of that line. -/
theorem filter_line_tokenize {source : String} {number : Nat} {line : List Char}
    (h : (Text.lines source.toList)[number]? = some line) :
    (tokenize source).filter (·.line = number + 1) =
      readTokens (lineTokens (number + 1) (Text.content line)) := by
  rw [tokenize_eq_ofLines]
  exact Yield.tokens.filter_line h

/-! ## Errors of a source -/

/-- The errors of a source are those of its lines. -/
theorem escapeErrors_eq_ofLines (source : String) :
    escapeErrors source = Yield.errors.ofLines 1 (Text.lines source.toList) := by
  unfold escapeErrors readLines
  rw [List.filterMap_map, List.filterMap_eq_flatMap_toList]
  rfl

/-- An error is that of a line if reading the line has failed with it. -/
@[simp] theorem mem_readError? {result : Except EscapeError (List Token)} {error : EscapeError} :
    error ∈ (readError? result).toList ↔ result = .error error := by
  cases result with
  | error problem => simp [readError?, eq_comm]
  | ok tokens => simp [readError?]

/-- An error of a source is that of a line. -/
@[simp] theorem mem_escapeErrors {source : String} {error : EscapeError} :
    error ∈ escapeErrors source ↔ ∃ number line, (Text.lines source.toList)[number]? = some line ∧
      lineTokens (number + 1) (Text.content line) = .error error := by
  simp only [escapeErrors_eq_ofLines, Yield.mem_ofLines, Yield.ofLine_errors, mem_readError?,
    Nat.add_comm 1]

/-- A line that no error tells of has been read. -/
theorem exists_tokens_of_no_error {source : String} {number : Nat} {line : List Char}
    (h : (Text.lines source.toList)[number]? = some line)
    (clean : ∀ problem ∈ escapeErrors source, problem.line ≠ number + 1) :
    ∃ tokens, lineTokens (number + 1) (Text.content line) = .ok tokens := by
  cases read : lineTokens (number + 1) (Text.content line) with
  | ok tokens => exact ⟨tokens, rfl⟩
  | error problem =>
    exact absurd (line_of_lineTokens_error read)
      (clean problem (mem_escapeErrors.mpr ⟨number, line, h, read⟩))

/-- An error of a source is that of the line whose number it tells. -/
theorem exists_line_of_mem_escapeErrors {source : String} {error : EscapeError}
    (h : error ∈ escapeErrors source) :
    ∃ number line, (Text.lines source.toList)[number]? = some line ∧ error.line = number + 1 ∧
      lineTokens (number + 1) (Text.content line) = .error error := by
  obtain ⟨number, line, found, failed⟩ := mem_escapeErrors.mp h
  exact ⟨number, line, found, line_of_lineTokens_error failed, failed⟩

/-- A line with an error has no token. -/
theorem line_ne_of_mem_escapeErrors {source : String} {error : EscapeError} {token : Token}
    (failed : error ∈ escapeErrors source) (listed : token ∈ tokenize source) :
    token.line ≠ error.line := by
  intro same
  obtain ⟨number, line, found, place, unread⟩ := exists_line_of_mem_escapeErrors failed
  have here : token ∈ (tokenize source).filter (·.line = number + 1) :=
    List.mem_filter.mpr ⟨listed, by simp [same, place]⟩
  rw [filter_line_tokenize found, unread] at here
  exact absurd here List.not_mem_nil

end ScriptLens
