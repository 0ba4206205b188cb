import ScriptLens.Proofs.Token.Tiling

/-! # Strings in a line
A string in a line of code is read as three tokens: a quote, its content and a quote. The tokens
around the content depend on its length only.
Main definitions:
* `isContent`: what may stand between the quotes of a string.
* `quoteAt`: the token of a quote.
* `StringGap`, `StringGap.Fills`: a source with a gap in a string, and what fills it.
Main statements:
* `split_append_mark`, `split_content`: how a line is cut at a mark, and in a string.
* `exists_frame_of_string`: the tokens of a line around the content of a string.
* `exists_classify_of_isContent`: a content is always read as a token.
* `StringGap.tokenize_cases`: the tokens of two sources that differ in the content of a string. -/

namespace ScriptLens

/-- Whether some characters may stand between the quotes of a string: every quote and every
backslash in them belongs to a known escape. -/
def isContent : List Char → Bool
  | [] => true
  | '\\' :: letter :: rest => (Vocabulary.escape? letter).isSome && isContent rest
  | c :: rest => c ≠ '\\' && c ≠ '"' && isContent rest

/-- The token of a quote. -/
def quoteAt (line column : Nat) : Token :=
  { kind := .doubleQuote, lexeme := "\"", line, column }

/-! ## Pieces -/

/-- Inside a string an escaped character joins the content with its backslash. -/
@[simp] theorem split_escape (column : Nat) (run rest : List Char) (escaped : Char) :
    Piece.split true column run ('\\' :: escaped :: rest) =
      Piece.split true (column + 2) (escaped :: '\\' :: run) rest :=
  rfl

/-- Inside a string a quote ends the content. -/
@[simp] theorem split_closing (column : Nat) (run rest : List Char) :
    Piece.split true column run ('"' :: rest) =
      Piece.runBefore column run ++
        .mark column '"' .doubleQuote :: Piece.split false (column + 1) [] rest := by
  rw [Piece.split.eq_def]
  simp

/-- Inside a string any other character joins the content. -/
theorem split_inside {c : Char} (column : Nat) (run rest : List Char) (noEscape : c ≠ '\\')
    (noQuote : c ≠ '"') :
    Piece.split true column run (c :: rest) = Piece.split true (column + 1) (c :: run) rest := by
  rw [Piece.split.eq_def]
  simp [noEscape, noQuote]

/-- Outside strings white space ends a run. -/
@[simp] theorem split_blank {c : Char} (column : Nat) (run rest : List Char)
    (isBlank : Text.isBlank c) :
    Piece.split false column run (c :: rest) =
      Piece.runBefore column run ++ Piece.split false (column + 1) [] rest := by
  rw [Piece.split.eq_def]
  simp [isBlank]

/-- Outside strings a mark ends a run, and a quote starts a string. -/
theorem split_mark {c : Char} {kind : Token.Kind} (column : Nat) (run rest : List Char)
    (noBlank : ¬ Text.isBlank c) (isMark : Vocabulary.mark? c = some kind) :
    Piece.split false column run (c :: rest) =
      Piece.runBefore column run ++
        .mark column c kind :: Piece.split (c = '"') (column + 1) [] rest := by
  rw [Piece.split.eq_def]
  simp [noBlank, isMark]

/-- Outside strings any other character joins the run. -/
theorem split_outside {c : Char} (column : Nat) (run rest : List Char)
    (noBlank : ¬ Text.isBlank c) (noMark : Vocabulary.mark? c = none) :
    Piece.split false column run (c :: rest) = Piece.split false (column + 1) (c :: run) rest := by
  rw [Piece.split.eq_def]
  simp [noBlank, noMark]

/-- A mark outside strings cuts a line in two. -/
theorem split_append_mark {quoted : Bool} {column : Nat} {run text : List Char} {sign : Char}
    {kind : Token.Kind} (rest : List Char) (noBlank : ¬ Text.isBlank sign)
    (isMark : Vocabulary.mark? sign = some kind)
    (outside : text.foldl Mode.after (.ofQuoted quoted) = .code) :
    Piece.split quoted column run (text ++ sign :: rest) =
      Piece.split quoted column run text ++
        .mark (column + text.length) sign kind ::
          Piece.split (sign = '"') (column + text.length + 1) [] rest := by
  fun_induction Piece.split quoted column run text with
  | case1 quoted column run =>
    cases quoted with
    | true => cases outside
    | false => exact split_mark column run rest noBlank isMark
  | case2 column run => cases outside
  | case3 column run escaped text ih =>
    rw [List.cons_append, List.cons_append, split_escape, ih outside]
    simp only [List.length_cons, Nat.add_assoc, Nat.add_comm 2]
  | case4 column run text _ ih =>
    rw [List.cons_append, split_closing, ih outside]
    simp only [List.length_cons, List.append_assoc, List.cons_append, Nat.add_assoc, Nat.add_comm 1]
  | case5 column run c text noEscape noQuote ih =>
    rw [List.foldl_cons, Mode.after_inside noEscape noQuote] at outside
    rw [List.cons_append, split_inside column run _ noEscape noQuote, ih outside]
    simp only [List.length_cons, Nat.add_assoc, Nat.add_comm 1]
  | case6 quoted column run c text unquoted isBlank ih =>
    obtain rfl : quoted = false := by simpa using unquoted
    rw [List.foldl_cons, Mode.after_blank isBlank] at outside
    rw [List.cons_append, split_blank column run _ isBlank, ih outside]
    simp only [List.length_cons, List.append_assoc, Nat.add_assoc, Nat.add_comm 1]
  | case7 quoted column run c text unquoted solid kind known ih =>
    obtain rfl : quoted = false := by simpa using unquoted
    rw [List.foldl_cons, Mode.after_outside] at outside
    rw [List.cons_append, split_mark column run _ solid known, ih outside]
    simp only [List.length_cons, List.append_assoc, List.cons_append, Nat.add_assoc, Nat.add_comm 1]
  | case8 quoted column run c text unquoted solid noMark ih =>
    obtain rfl : quoted = false := by simpa using unquoted
    rw [List.foldl_cons, Mode.after_noMark noMark] at outside
    rw [List.cons_append, split_outside column run _ solid noMark, ih outside]
    simp only [List.length_cons, Nat.add_assoc, Nat.add_comm 1]

/-- A quote outside strings cuts a line in two. -/
theorem split_append_quote {quoted : Bool} {column : Nat} {run text : List Char} (rest : List Char)
    (outside : text.foldl Mode.after (.ofQuoted quoted) = .code) :
    Piece.split quoted column run (text ++ '"' :: rest) =
      Piece.split quoted column run text ++
        .mark (column + text.length) '"' .doubleQuote ::
          Piece.split true (column + text.length + 1) [] rest :=
  split_append_mark rest (by decide) (by decide) outside

/-- The content of a string goes on until its end. -/
theorem split_content {content : List Char} (column : Nat) (run rest : List Char)
    (h : isContent content) :
    Piece.split true column run (content ++ rest) =
      Piece.split true (column + content.length) (content.reverse ++ run) rest := by
  fun_induction isContent content generalizing column run with
  | case1 => rfl
  | case2 letter content ih =>
    obtain ⟨-, later⟩ := Bool.and_eq_true_iff.mp h
    rw [List.cons_append, List.cons_append, split_escape, ih _ _ later]
    simp [Nat.add_assoc, Nat.add_comm 2]
  | case3 c content noPair ih =>
    simp only [Bool.and_eq_true, decide_eq_true_eq] at h
    obtain ⟨⟨noEscape, noQuote⟩, later⟩ := h
    rw [List.cons_append, split_inside _ _ _ noEscape noQuote, ih _ _ later]
    simp [Nat.add_assoc, Nat.add_comm 1]

/-- A string in a line of code is cut into a quote, its content and a quote. -/
theorem pieces_string {start content rest : List Char} (outside : modeAfter start = .code)
    (h : isContent content) (some : content ≠ []) :
    pieces (start ++ '"' :: (content ++ '"' :: rest)) =
      pieces start ++
        .mark start.length '"' .doubleQuote :: .run (start.length + 1) content ::
          .mark (start.length + 1 + content.length) '"' .doubleQuote ::
            Piece.split false (start.length + 1 + content.length + 1) [] rest := by
  have nonempty : content.reverse.isEmpty = false := by simpa using some
  have ends : start.foldl Mode.after (.ofQuoted false) = .code := outside
  unfold pieces
  rw [split_append_quote _ ends, split_content _ _ _ h, split_closing, List.append_nil,
    Piece.runBefore, nonempty]
  simp

/-! ## Tokens -/

/-- No operator ends with a quote. -/
@[simp] theorem pair?_quote (first : Char) : Vocabulary.pair? first '"' = none := by
  cases h : Vocabulary.pair? first '"' with
  | none => rfl
  | some kind =>
    have noQuote : ∀ entry ∈ Vocabulary.pairs, entry.1.2 ≠ '"' := by decide
    exact absurd rfl (noQuote _ (mem_of_lookup_eq_some h))

/-- A quote is a token of its own, whatever stands before it. -/
@[simp] theorem addMark_quote (line column : Nat) (reversed : List Token) :
    addMark line column '"' .doubleQuote reversed = quoteAt line column :: reversed := by
  have apart (previous : Token) : joined? previous '"' column = none := by
    unfold joined?
    split
    · split
      · rw [pair?_quote]
        rfl
      · rfl
    · rfl
  unfold addMark
  cases reversed with
  | nil => rfl
  | cons previous earlier =>
    dsimp only
    rw [apart]
    rfl

/-- What a piece adds to the tokens above one that joins nothing does not depend on the tokens below
that one. -/
theorem exists_addPiece_above {base : Token} (lone : base.kind.combines = false) (line : Nat)
    (piece : Piece) (upper : List Token) :
    ∃ result : Except EscapeError (List Token), ∀ lower,
      addPiece line (upper ++ base :: lower) piece = result.map (· ++ base :: lower) := by
  cases piece with
  | run column text =>
    refine ⟨(classify line column text).map (· :: upper), fun lower => ?_⟩
    change (classify line column text).map _ = _
    cases classify line column text <;> rfl
  | mark column sign kind =>
    have apart : joined? base sign column = none := by
      simp [joined?, lone]
    cases upper with
    | nil =>
      refine ⟨.ok [{ kind, lexeme := String.singleton sign, line, column }], fun lower => ?_⟩
      rw [addPiece, List.nil_append, addMark, apart]
      rfl
    | cons previous upper =>
      refine ⟨.ok (addMark line column sign kind (previous :: upper)), fun lower => ?_⟩
      rw [addPiece, List.cons_append, addMark, addMark]
      cases joined? previous sign column <;> rfl

/-- What pieces add to the tokens above one that joins nothing does not depend on the tokens below
that one. -/
theorem exists_foldlM_above {base : Token} (lone : base.kind.combines = false) (line : Nat)
    (pieces : List Piece) (upper : List Token) :
    ∃ result : Except EscapeError (List Token), ∀ lower,
      pieces.foldlM (addPiece line) (upper ++ base :: lower) = result.map (· ++ base :: lower) := by
  induction pieces generalizing upper with
  | nil => exact ⟨.ok upper, fun lower => rfl⟩
  | cons piece pieces ih =>
    obtain ⟨first, added⟩ := exists_addPiece_above lone line piece upper
    cases first with
    | error problem =>
      refine ⟨.error problem, fun lower => ?_⟩
      rw [List.foldlM_cons, added lower]
      rfl
    | ok next =>
      obtain ⟨result, folded⟩ := ih next
      refine ⟨result, fun lower => ?_⟩
      rw [List.foldlM_cons, added lower]
      exact folded lower

/-- A piece that is read gives the tokens before those of the pieces behind it. -/
theorem foldlM_cons_of_ok {line : Nat} {piece : Piece} {reversed next : List Token}
    (added : addPiece line reversed piece = .ok next) (later : List Piece) :
    (piece :: later).foldlM (addPiece line) reversed = later.foldlM (addPiece line) next := by
  rw [List.foldlM_cons, added]
  rfl

/-- The pieces of a string are read as a quote, its content and a quote. -/
theorem foldlM_string {line column last : Nat} {content : List Char} {token : Token}
    (classified : classify line (column + 1) content = .ok token) (reversed : List Token)
    (later : List Piece) :
    (.mark column '"' .doubleQuote :: .run (column + 1) content :: .mark last '"' .doubleQuote ::
      later).foldlM (addPiece line) reversed =
      later.foldlM (addPiece line)
        (quoteAt line last :: token :: quoteAt line column :: reversed) := by
  have quoted (column : Nat) (reversed : List Token) :
      addPiece line reversed (.mark column '"' .doubleQuote) =
        .ok (quoteAt line column :: reversed) := by
    simp [addPiece]
  have filled : addPiece line (quoteAt line column :: reversed) (.run (column + 1) content) =
      .ok (token :: quoteAt line column :: reversed) := by
    rw [addPiece, classified]
    rfl
  rw [foldlM_cons_of_ok (quoted column _), foldlM_cons_of_ok filled,
    foldlM_cons_of_ok (quoted last _)]

/-- The tokens around the content of a string depend on the length of the content only. -/
theorem exists_frame_of_string (line width : Nat) {start : List Char} (rest : List Char)
    (outside : modeAfter start = .code) :
    ∃ frame : Except EscapeError (List Token × List Token), ∀ content token,
      isContent content → content ≠ [] → content.length = width →
      classify line (start.length + 1) content = .ok token →
      codeTokens line (start ++ '"' :: (content ++ '"' :: rest)) =
        frame.map fun (before, after) =>
          before ++ quoteAt line start.length :: token ::
            quoteAt line (start.length + 1 + width) :: after := by
  have lone : (quoteAt line (start.length + 1 + width)).kind.combines = false := rfl
  -- The closing quote joins nothing, so what follows it is read as if nothing stood before it.
  obtain ⟨behind, folded⟩ := exists_foldlM_above lone line
    (Piece.split false (start.length + 1 + width + 1) [] rest) []
  refine ⟨((pieces start).foldlM (addPiece line) []).bind fun front =>
    behind.map fun back => (front.reverse, back.reverse), ?_⟩
  rintro content token valid some rfl classified
  rw [codeTokens, pieces_string outside valid some, List.foldlM_append]
  cases (pieces start).foldlM (addPiece line) [] with
  | error problem => rfl
  | ok front =>
    have read := folded (token :: quoteAt line start.length :: front)
    rw [List.nil_append] at read
    change Except.map _ (List.foldlM _ front _) = _
    rw [foldlM_string classified, read]
    cases behind with
    | error problem => rfl
    | ok back =>
      simp [Except.map, Except.bind]

/-! ## Contents -/

/-- The escapes of a content are known, so they can be resolved. -/
theorem exists_unescape_of_isContent {content : List Char} (h : isContent content) :
    ∃ resolved, ∀ line column, unescape line column content = .ok resolved := by
  fun_induction isContent content with
  | case1 => exact ⟨[], fun line column => rfl⟩
  | case2 letter content ih =>
    obtain ⟨isKnown, later⟩ := Bool.and_eq_true_iff.mp h
    obtain ⟨meaning, known⟩ := Option.isSome_iff_exists.mp isKnown
    obtain ⟨resolved, unescaped⟩ := ih later
    refine ⟨meaning :: resolved, fun line column => ?_⟩
    rw [unescape, if_pos rfl, known]
    dsimp only
    rw [unescaped]
    rfl
  | case3 c content noPair ih =>
    simp only [Bool.and_eq_true, decide_eq_true_eq] at h
    obtain ⟨⟨noEscape, -⟩, later⟩ := h
    obtain ⟨resolved, unescaped⟩ := ih later
    cases content with
    | nil => exact ⟨[c], fun line column => rfl⟩
    | cons next content =>
      refine ⟨c :: resolved, fun line column => ?_⟩
      rw [unescape, if_neg noEscape, unescaped]
      rfl

/-- A content is read as a token that depends on its place only in that it tells it. -/
theorem exists_classify_of_isContent {content : List Char} (h : isContent content) :
    ∃ kind lexeme, ∀ line column,
      classify line column content = .ok { kind, lexeme, line, column } := by
  unfold classify
  dsimp only
  split
  · next c => exact ⟨_, _, fun line column => rfl⟩
  · cases Vocabulary.keyword? (String.ofList content) with
    | some kind => exact ⟨_, _, fun line column => rfl⟩
    | none =>
      by_cases numeral : Numeral.isNumeral content
      · exact ⟨_, _, fun line column => by rw [if_pos numeral]⟩
      · obtain ⟨resolved, unescaped⟩ := exists_unescape_of_isContent h
        refine ⟨.text, String.ofList resolved, fun line column => ?_⟩
        rw [if_neg numeral, unescaped]
        rfl

/-- A text that stands for one without any of the escaped characters is that one. -/
theorem Resolves.eq_of_free {text resolved : List Char} (h : Resolves text resolved)
    (free : ∀ entry ∈ Vocabulary.escapes, entry.2 ∉ resolved) : text = resolved := by
  induction h with
  | nil => rfl
  | plain _ _ ih =>
    rw [ih fun entry listed found => free entry listed (List.mem_cons_of_mem _ found)]
  | pair known _ _ =>
    have listed := mem_of_lookup_eq_some known
    exact absurd List.mem_cons_self (free _ listed)
  | last => rfl

/-! ## Sources -/

/-- A line keeps what stands before a character that is no carriage return. -/
theorem content_append_cons (start rest : List Char) {c : Char} (h : c ≠ '\r') :
    Text.content (start ++ c :: rest) = start ++ c :: Text.content rest := by
  cases rest with
  | nil => simp [Text.content, h]
  | cons next rest =>
    have last : (start ++ c :: next :: rest).getLast? = (next :: rest).getLast? := by
      simp [List.getLast?_append, List.getLast?_cons]
    unfold Text.content
    rw [last]
    split
    · rw [List.dropLast_append_cons, List.dropLast_cons_cons]
    · rfl

/-- A line without its margins starts with its first character that is not blank. -/
@[simp] theorem head?_trim (text : List Char) :
    (Text.trim text).head? = text.find? (!Text.isBlank ·) := by
  induction text with
  | nil => rfl
  | cons c text ih =>
    by_cases isBlank : Text.isBlank c
    · rw [List.find?_cons_of_neg (by simpa using isBlank), ← ih, Text.trim, Text.trimStart,
        List.dropWhile_cons_of_pos isBlank]
      rfl
    · rw [List.find?_cons_of_pos (by simpa using isBlank), Text.trim, Text.trimStart,
        List.dropWhile_cons_of_neg isBlank, Text.trimEnd, List.reverse_cons, List.dropWhile_append]
      split
      · rw [List.dropWhile_cons_of_neg isBlank]
        rfl
      · rw [List.reverse_append]
        rfl

/-- Whether a line is code shows before its first quote. -/
theorem isCode_append_quote (start rest : List Char) :
    isCode (start ++ '"' :: rest) = isCode (start ++ ['"']) := by
  simp only [isCode, head?_trim, List.find?_append]
  rfl

/-- A source text with a gap in a string: the lines before and after the line of that string, and
what stands before and after the string in its line. -/
structure StringGap where
  /-- The lines before that of the string. -/
  earlier : List (List Char)
  /-- What stands before the string. -/
  start : List Char
  /-- What stands after the string. -/
  rest : List Char
  /-- The lines after that of the string. -/
  later : List (List Char)
  /-- The line is one of code, and no comment. -/
  isCode : isCode (start ++ ['"'])
  /-- The string starts outside all other strings. -/
  outside : modeAfter start = .code

namespace StringGap

/-- The number of the line of the string. -/
def number (gap : StringGap) : Nat :=
  gap.earlier.length + 1

/-- The line of the string with some content in the gap. -/
def line (gap : StringGap) (content : List Char) : List Char :=
  gap.start ++ '"' :: (content ++ '"' :: gap.rest)

/-- A source text has some content in the gap. -/
structure Fills (gap : StringGap) (content : List Char) (source : String) : Prop where
  /-- The lines are those around the gap and the one filled. -/
  lines_eq : Text.lines source.toList = gap.earlier ++ gap.line content :: gap.later
  /-- The content is that of a string. -/
  isContent : isContent content
  /-- The content is not empty. -/
  ne_nil : content ≠ []

/-- The tokens of the filled line are those of code. -/
theorem lineTokens_line (gap : StringGap) (content : List Char) :
    lineTokens gap.number (Text.content (gap.line content)) =
      codeTokens gap.number
        (gap.start ++ '"' :: (content ++ '"' :: Text.content gap.rest)) := by
  have cut : Text.content (gap.line content) =
      gap.start ++ '"' :: (content ++ '"' :: Text.content gap.rest) := by
    rw [line, content_append_cons _ _ (by decide), content_append_cons _ _ (by decide)]
  rw [cut, lineTokens_of_isCode]
  rw [isCode_append_quote]
  exact gap.isCode

/-- The tokens of a source around the content of a string depend on the length of the content only:
two sources that differ in the content have the same tokens, or tokens that differ in the one
between the quotes. -/
theorem tokenize_cases {gap : StringGap} {content content' : List Char} {source source' : String}
    {token token' : Token} (fills : gap.Fills content source) (fills' : gap.Fills content' source')
    (sameLength : content.length = content'.length)
    (classified : classify gap.number (gap.start.length + 1) content = .ok token)
    (classified' : classify gap.number (gap.start.length + 1) content' = .ok token') :
    tokenize source = tokenize source' ∨
      ∃ before after column,
        tokenize source = before ++ quoteAt gap.number gap.start.length :: token ::
          quoteAt gap.number column :: after ∧
        tokenize source' = before ++ quoteAt gap.number gap.start.length :: token' ::
          quoteAt gap.number column :: after := by
  obtain ⟨frame, framed⟩ := exists_frame_of_string gap.number content.length
    (Text.content gap.rest) gap.outside
  have read := framed content token fills.isContent fills.ne_nil rfl classified
  have read' := framed content' token' fills'.isContent fills'.ne_nil sameLength.symm classified'
  rw [← lineTokens_line] at read read'
  rw [tokenize_of_lines fills.lines_eq, tokenize_of_lines fills'.lines_eq, ← number, read, read']
  cases frame with
  | error problem => exact .inl rfl
  | ok frame =>
    obtain ⟨before, after⟩ := frame
    refine .inr ⟨Yield.tokens.ofLines 1 gap.earlier ++ before,
      after ++ Yield.tokens.ofLines (gap.earlier.length + 2) gap.later,
      gap.start.length + 1 + content.length, ?_, ?_⟩ <;> simp [readTokens, Except.map]

end StringGap

end ScriptLens
