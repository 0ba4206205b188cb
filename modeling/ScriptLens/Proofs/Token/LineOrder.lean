import ScriptLens.Token.Source

/-! # The lines that tokens tell
What is read off a line tells the number of the line, be it a token or an error.
Main definition:
* `InLineOrder`: the lines of some tokens never go back.
Main statements:
* `line_of_mem_readTokens`: the tokens of a line are on it.
* `line_of_lineTokens_error`: the error of a line tells it. -/

namespace ScriptLens

/-- The lines of the tokens never go back. -/
def InLineOrder (tokens : List Token) : Prop :=
  tokens.Pairwise (·.line ≤ ·.line)

/-! ## Tokens of a line -/

/-- A mapped result comes from a result. -/
theorem exists_of_map_eq_ok {ε α β : Type} {result : Except ε α} {f : α → β} {value : β}
    (h : result.map f = .ok value) : ∃ source, result = .ok source ∧ f source = value := by
  cases result with
  | error problem => cases h
  | ok source => exact ⟨source, rfl, Except.ok.inj h⟩

/-- The token of a run is on its line. -/
theorem line_of_classify {line column : Nat} {text : List Char} {token : Token}
    (h : classify line column text = .ok token) : token.line = line := by
  unfold classify at h
  dsimp only at h
  split at h
  · cases h
    rfl
  · split at h
    · cases h
      rfl
    · split at h
      · cases h
        rfl
      · -- Resolving escapes can fail, but it only changes the lexeme.
        obtain ⟨resolved, -, rfl⟩ := exists_of_map_eq_ok h
        rfl

/-- An operator is on the line of the token that it replaces. -/
theorem line_of_joined? {previous operator : Token} {second : Char} {column : Nat}
    (h : joined? previous second column = some operator) : operator.line = previous.line := by
  unfold joined? at h
  split at h
  · split at h
    · obtain ⟨kind, -, rfl⟩ := Option.map_eq_some_iff.mp h
      rfl
    · simp at h
  · simp at h

/-- A mark keeps the tokens on their line. -/
theorem line_of_mem_addMark {line column : Nat} {sign : Char} {kind : Token.Kind}
    {reversed : List Token} (before : ∀ token ∈ reversed, token.line = line) :
    ∀ token ∈ addMark line column sign kind reversed, token.line = line := by
  unfold addMark
  dsimp only
  split
  · exact fun token listed => List.mem_singleton.mp listed ▸ rfl
  · next previous earlier =>
    obtain ⟨here, rest⟩ := List.forall_mem_cons.mp before
    split
    · next operator h =>
      exact List.forall_mem_cons.mpr ⟨(line_of_joined? h).trans here, rest⟩
    · exact List.forall_mem_cons.mpr ⟨rfl, before⟩

/-- A piece keeps the tokens on their line. -/
theorem line_of_mem_addPiece {line : Nat} {piece : Piece} {reversed result : List Token}
    (before : ∀ token ∈ reversed, token.line = line)
    (h : addPiece line reversed piece = .ok result) :
    ∀ token ∈ result, token.line = line := by
  cases piece with
  | run column text =>
    obtain ⟨token, classified, rfl⟩ := exists_of_map_eq_ok h
    exact List.forall_mem_cons.mpr ⟨line_of_classify classified, before⟩
  | mark column sign kind =>
    cases h
    exact line_of_mem_addMark before

/-- All pieces of a line keep the tokens on it. -/
theorem line_of_mem_foldlM {line : Nat} {pieces : List Piece} {reversed result : List Token}
    (before : ∀ token ∈ reversed, token.line = line)
    (h : pieces.foldlM (addPiece line) reversed = .ok result) :
    ∀ token ∈ result, token.line = line := by
  induction pieces generalizing reversed with
  | nil =>
    cases h
    exact before
  | cons piece pieces ih =>
    rw [List.foldlM_cons] at h
    cases hadded : addPiece line reversed piece with
    | error problem =>
      rw [hadded] at h
      cases h
    | ok added =>
      rw [hadded] at h
      exact ih (line_of_mem_addPiece before hadded) h

/-- The tokens of a line are on it. -/
theorem line_of_mem_lineTokens {line : Nat} {text : List Char} {tokens : List Token}
    (h : lineTokens line text = .ok tokens) : ∀ token ∈ tokens, token.line = line := by
  unfold lineTokens at h
  split at h
  · cases h
    exact fun token listed => absurd listed List.not_mem_nil
  · split at h
    · split at h
      · cases h
        exact fun token listed => List.mem_singleton.mp listed ▸ rfl
      · cases h
        exact fun token listed => absurd listed List.not_mem_nil
    · obtain ⟨reversed, folded, rfl⟩ := exists_of_map_eq_ok h
      intro token listed
      exact line_of_mem_foldlM (fun _ none => absurd none List.not_mem_nil) folded token
        (List.mem_reverse.mp listed)

/-- What is read off a line is on it. -/
theorem line_of_mem_readTokens {line : Nat} {text : List Char} :
    ∀ token ∈ readTokens (lineTokens line text), token.line = line := by
  cases h : lineTokens line text with
  | error problem => exact fun token listed => absurd listed List.not_mem_nil
  | ok tokens => exact line_of_mem_lineTokens h

/-! ## Errors of a line -/

/-- A mapped failure is a failure. -/
theorem error_of_map_eq_error {ε α β : Type} {result : Except ε α} {f : α → β} {problem : ε}
    (h : result.map f = .error problem) : result = .error problem := by
  cases result with
  | error found => exact congrArg _ (Except.error.inj h)
  | ok source => cases h

/-- An escape error of a run tells the line of the run. -/
theorem line_of_unescape_error {line column : Nat} {text : List Char} {problem : EscapeError}
    (h : unescape line column text = .error problem) : problem.line = line := by
  fun_induction unescape line column text with
  | case1 => cases h
  | case2 => cases h
  | case3 column letter rest meaning known ih => exact ih (error_of_map_eq_error h)
  | case4 =>
    cases h
    rfl
  | case5 column c next rest differs ih => exact ih (error_of_map_eq_error h)

/-- An escape error of a piece tells its line. -/
theorem line_of_addPiece_error {line : Nat} {piece : Piece} {reversed : List Token}
    {problem : EscapeError} (h : addPiece line reversed piece = .error problem) :
    problem.line = line := by
  cases piece with
  | mark column sign kind => cases h
  | run column text =>
    have failed := error_of_map_eq_error h
    unfold classify at failed
    dsimp only at failed
    split at failed
    · cases failed
    · split at failed
      · cases failed
      · split at failed
        · cases failed
        · exact line_of_unescape_error (error_of_map_eq_error failed)

/-- An escape error among the pieces of a line tells the line. -/
theorem line_of_foldlM_error {line : Nat} {pieces : List Piece} {reversed : List Token}
    {problem : EscapeError} (h : pieces.foldlM (addPiece line) reversed = .error problem) :
    problem.line = line := by
  induction pieces generalizing reversed with
  | nil => cases h
  | cons piece pieces ih =>
    rw [List.foldlM_cons] at h
    cases added : addPiece line reversed piece with
    | error found =>
      rw [added] at h
      cases h
      exact line_of_addPiece_error added
    | ok result =>
      rw [added] at h
      exact ih h

/-- The escape error of a line tells the line. -/
theorem line_of_lineTokens_error {line : Nat} {text : List Char} {problem : EscapeError}
    (h : lineTokens line text = .error problem) : problem.line = line := by
  unfold lineTokens at h
  split at h
  · cases h
  · split at h
    · split at h <;> cases h
    · exact line_of_foldlM_error (error_of_map_eq_error h)

end ScriptLens
