import ScriptLens.Proofs.Text.LineEndings
import ScriptLens.Proofs.Token.LookAhead
import ScriptLens.Proofs.Token.Padding

/-! # Tokens written in one line
The tokens of a source without strings, escapes and comments can be written in one line, their
lexemes with a space between neighbours, and that line is read as the same tokens at other places.
Whatever stood around a token in the source, its own lexeme says what it is.
Main definitions:
* `Token.spelling`: a token without its place.
* `printed`: tokens in one line.
* `IsSpelling`: the texts that are read as one token wherever white space follows.
Main statements:
* `takeAhead_cases`, `isSpelling_of_lookAhead`: what is read outside strings is spelled by its
  lexeme.
* `lookAhead_spelled`, `exists_lookAhead_printed`: what is spelled is read, one token and a line.
* `tokenize_printed`: printing the tokens of a source and reading them again changes their places
  only. -/

namespace ScriptLens

/-- What a token is and how it is spelled, without its place. -/
def Token.spelling (token : Token) : Token.Kind × String :=
  (token.kind, token.lexeme)

/-- Tokens in one line: their lexemes with a space between neighbours. -/
def printed (tokens : List Token) : String :=
  " ".intercalate (tokens.map (·.lexeme))

/-- A text that is one token of a given kind wherever white space follows it. -/
inductive IsSpelling : Token.Kind → List Char → Prop where
  /-- A word, which is classified in the same way at every place. -/
  | word {kind : Token.Kind} {c : Char} {rest : List Char}
      (parts : ∀ d ∈ c :: rest, isWordPart d)
      (classified : ∀ line column, classify line column (c :: rest) =
        .ok { kind, lexeme := String.ofList (c :: rest), line, column }) :
      IsSpelling kind (c :: rest)
  /-- An operator of one character. -/
  | single {c : Char} (operator : isOperator c) : IsSpelling (loneKind c) [c]
  /-- An operator of two characters. -/
  | pair {kind : Token.Kind} {first second : Char}
      (known : Vocabulary.pair? first second = some kind) : IsSpelling kind [first, second]

/-! ## Spelled texts -/

/-- A spelled text has no white space in it. -/
theorem IsSpelling.solid {kind : Token.Kind} {text : List Char} (h : IsSpelling kind text) :
    ∀ c ∈ text, ¬ Text.isBlank c := by
  intro c listed
  cases h with
  | word parts _ => exact (isWordPart_iff.mp (parts c listed)).1
  | single operator =>
    obtain rfl := List.mem_singleton.mp listed
    exact not_isBlank_of_isOperator operator
  | pair known =>
    obtain ⟨-, isFirst, isSecond⟩ := operators_of_pair? known
    rcases List.mem_pair.mp listed with rfl | rfl
    · exact not_isBlank_of_isOperator isFirst
    · exact not_isBlank_of_isOperator isSecond

/-- A spelled text starts with a character that is no white space. -/
theorem IsSpelling.exists_cons {kind : Token.Kind} {text : List Char} (h : IsSpelling kind text) :
    ∃ c rest, text = c :: rest ∧ ¬ Text.isBlank c := by
  have solid := h.solid
  cases h with
  | word => exact ⟨_, _, rfl, solid _ List.mem_cons_self⟩
  | single => exact ⟨_, _, rfl, solid _ List.mem_cons_self⟩
  | pair => exact ⟨_, _, rfl, solid _ List.mem_cons_self⟩

/-- A text without quotes and backslashes may stand in a string. -/
theorem isContent_of_notMem {text : List Char} (noQuote : '"' ∉ text) (noEscape : '\\' ∉ text) :
    isContent text := by
  fun_induction isContent text with
  | case1 => rfl
  | case2 letter text ih => exact absurd List.mem_cons_self noEscape
  | case3 c text _ ih =>
    have later := ih (List.not_mem_of_not_mem_cons noQuote) (List.not_mem_of_not_mem_cons noEscape)
    have isPlain := Ne.symm (List.ne_of_not_mem_cons noEscape)
    have isInside := Ne.symm (List.ne_of_not_mem_cons noQuote)
    simp [later, isPlain, isInside]

/-- A word without escapes is spelled by itself: its kind does not depend on its place. -/
theorem exists_isSpelling_word {c : Char} {rest : List Char} (parts : ∀ d ∈ c :: rest, isWordPart d)
    (noEscape : '\\' ∉ c :: rest) :
    ∃ kind, IsSpelling kind (c :: rest) ∧ ∀ line column, classify line column (c :: rest) =
      .ok { kind, lexeme := String.ofList (c :: rest), line, column } := by
  have noQuote : '"' ∉ c :: rest := by
    intro listed
    exact absurd (parts '"' listed) (by decide)
  obtain ⟨kind, lexeme, classified⟩ :=
    exists_classify_of_isContent (isContent_of_notMem noQuote noEscape)
  -- There is nothing to resolve, so the lexeme is the word.
  have kept : lexeme.toList = c :: rest :=
    (resolves_of_classify (classified 0 0)).2.eq_of_notMem noEscape
  obtain rfl : lexeme = String.ofList (c :: rest) := by rw [← kept, String.ofList_toList]
  exact ⟨kind, .word parts classified, classified⟩

/-! ## What is read is spelled -/

/-- At a place without quotes and escapes stands white space, or a token spelled by the characters
that it takes up. -/
theorem takeAhead_cases {c : Char} {rest : List Char} (line column : Nat) (noQuote : c ≠ '"')
    (noEscape : '\\' ∉ c :: rest) :
    Text.isBlank c ∧ takeAhead line column c rest = { tokens := .ok [], more := 0 } ∨
      ∃ kind more, IsSpelling kind (c :: rest.take more) ∧
        takeAhead line column c rest =
          { tokens := .ok [{ kind, lexeme := String.ofList (c :: rest.take more), line, column }],
            more } := by
  rcases class_of_ne_quote noQuote with isBlank | operator | part
  · exact .inl ⟨isBlank, takeAhead_blank line column rest isBlank⟩
  · right
    rcases takeAhead_operator line column rest operator with
      ⟨kind, second, later, rfl, known, taken⟩ | taken
    · exact ⟨kind, 1, .pair known, taken⟩
    · exact ⟨loneKind c, 0, .single operator, taken⟩
  · right
    obtain ⟨word, later, rfl, parts, -, taken⟩ := exists_takeAhead_word line column rest part
    have free : '\\' ∉ c :: word := fun listed =>
      noEscape (List.cons_subset_cons c (List.subset_append_left word later) listed)
    obtain ⟨kind, spelled, classified⟩ := exists_isSpelling_word parts free
    refine ⟨kind, word.length, ?_, ?_⟩
    · rwa [List.take_left]
    · rw [taken, classified, List.take_left]
      rfl

/-- The tokens of a line without quotes and escapes are spelled by their lexemes, and the first one
starts with the first character of the line that is no white space. -/
theorem isSpelling_of_lookAhead {line column : Nat} {text : List Char} {tokens : List Token}
    (noQuote : '"' ∉ text) (noEscape : '\\' ∉ text)
    (read : lookAhead line column text = .ok tokens) :
    (∀ token ∈ tokens, IsSpelling token.kind token.lexeme.toList) ∧
      ∀ token ∈ tokens.head?, token.lexeme.toList.head? = text.find? (!Text.isBlank ·) := by
  fun_induction lookAhead line column text generalizing tokens with
  | case1 column =>
    cases read
    exact ⟨fun token listed => absurd listed List.not_mem_nil, fun token first => by cases first⟩
  | case2 column c rest front more taken ih =>
    obtain ⟨now, rfl, behind⟩ := exists_of_bind_eq_ok read
    obtain ⟨later, readLater, joined⟩ := exists_of_bind_eq_ok behind
    cases joined
    have noQuoteLater : '"' ∉ rest.drop more := fun listed =>
      noQuote (List.mem_cons_of_mem c (List.mem_of_mem_drop listed))
    have noEscapeLater : '\\' ∉ rest.drop more := fun listed =>
      noEscape (List.mem_cons_of_mem c (List.mem_of_mem_drop listed))
    obtain ⟨spelled, first⟩ := ih noQuoteLater noEscapeLater readLater
    rcases takeAhead_cases line column (Ne.symm (List.ne_of_not_mem_cons noQuote)) noEscape with
      ⟨isBlank, nothing⟩ | ⟨kind, width, spells, one⟩
    · -- White space: the tokens are those behind it.
      rw [taken] at nothing
      cases nothing
      refine ⟨spelled, fun token here => ?_⟩
      rw [List.find?_cons_of_neg (by simpa using isBlank)]
      exact first token here
    · -- One token, which starts here.
      rw [taken] at one
      cases one
      obtain ⟨d, others, starts, solid⟩ := spells.exists_cons
      obtain rfl : c = d := (List.cons.inj starts).1
      constructor
      · refine List.forall_mem_cons.mpr ⟨?_, spelled⟩
        rwa [String.toList_ofList]
      · rintro token ⟨⟩
        rw [List.find?_cons_of_pos (by simpa using solid), String.toList_ofList, List.head?_cons]

/-! ## What is spelled is read -/

/-- White space is passed over. -/
theorem lookAhead_blank {c : Char} (line column : Nat) (rest : List Char)
    (isBlank : Text.isBlank c) :
    lookAhead line column (c :: rest) = lookAhead line (column + 1) rest := by
  rw [lookAhead_of_takeAhead (takeAhead_blank line column rest isBlank)]
  change Except.map _ (lookAhead line (column + 1) rest) = _
  cases lookAhead line (column + 1) rest <;> rfl

/-- A spelled text before white space is one token, and what follows is read on its own. -/
theorem lookAhead_spelled {kind : Token.Kind} {text rest : List Char}
    (spelled : IsSpelling kind text) (ended : ∀ c ∈ rest.head?, Text.isBlank c)
    (line column : Nat) :
    lookAhead line column (text ++ rest) =
      (lookAhead line (column + text.length) rest).map
        ({ kind, lexeme := String.ofList text, line, column } :: ·) := by
  cases spelled with
  | @word _ c word parts classified =>
    obtain ⟨part, inside⟩ := List.forall_mem_cons.mp parts
    have stops : rest.takeWhile isWordPart = [] := by
      cases rest with
      | nil => rfl
      | cons d rest =>
        refine List.takeWhile_cons_of_neg fun isPart => ?_
        exact absurd (ended d rfl) (isWordPart_iff.mp isPart).1
    have whole : (word ++ rest).takeWhile isWordPart = word := by
      rw [List.takeWhile_append_of_pos inside, stops, List.append_nil]
    have taken := takeAhead_word line column (word ++ rest) part
    rw [whole, classified] at taken
    rw [List.cons_append, lookAhead_of_takeAhead taken, List.drop_left, List.length_cons,
      Nat.add_comm word.length, ← Nat.add_assoc]
    rfl
  | @single c operator =>
    -- White space spells no operator, so the mark stays alone.
    have alone : ∀ second ∈ rest.head?, Vocabulary.pair? c second = none := by
      intro second here
      cases known : Vocabulary.pair? c second with
      | none => rfl
      | some kind =>
        exact absurd (ended second here) (not_isBlank_of_isOperator (operators_of_pair? known).2.2)
    rw [List.singleton_append, lookAhead_of_takeAhead (takeAhead_single line column operator alone)]
    rfl
  | @pair _ first second known =>
    rw [List.cons_append, List.singleton_append,
      lookAhead_of_takeAhead (takeAhead_pair line column rest known)]
    rfl

/-- The line of some tokens starts with the lexeme of the first one, and a space follows unless it
is the last one. -/
@[simp] theorem toList_printed_cons (token : Token) (tokens : List Token) :
    (printed (token :: tokens)).toList =
      token.lexeme.toList ++ if tokens.isEmpty then [] else ' ' :: (printed tokens).toList := by
  cases tokens with
  | nil => simp [printed]
  | cons next tokens => simp [printed]

/-- **The line of spelled tokens is read as these tokens**, at other places. -/
theorem exists_lookAhead_printed {tokens : List Token}
    (spelled : ∀ token ∈ tokens, IsSpelling token.kind token.lexeme.toList) (line column : Nat) :
    ∃ read, lookAhead line column (printed tokens).toList = .ok read ∧
      read.map Token.spelling = tokens.map Token.spelling := by
  induction tokens generalizing column with
  | nil => exact ⟨[], by simp [printed, lookAhead], rfl⟩
  | cons token tokens ih =>
    obtain ⟨here, behind⟩ := List.forall_mem_cons.mp spelled
    rw [toList_printed_cons]
    cases tokens with
    | nil =>
      rw [lookAhead_spelled here (by simp)]
      refine ⟨[{ token with line, column }], ?_, rfl⟩
      simp [lookAhead, Except.map, String.ofList_toList]
    | cons next tokens =>
      -- A space ends the lexeme, and behind it stands the line of the other tokens.
      have ended : ∀ c ∈ (' ' :: (printed (next :: tokens)).toList).head?, Text.isBlank c := by
        rintro c ⟨⟩
        decide
      obtain ⟨read, later, same⟩ := ih behind (column + token.lexeme.toList.length + 1)
      refine ⟨{ token with line, column } :: read, ?_, ?_⟩
      · rw [List.isEmpty_cons, if_neg Bool.false_ne_true, lookAhead_spelled here ended,
          lookAhead_blank _ _ _ (by decide), later, String.ofList_toList]
        rfl
      · rw [List.map_cons, List.map_cons, same]
        rfl

/-! ## The printed line -/

/-- The characters of the line of some tokens are spaces and those of the lexemes. -/
theorem mem_printed {tokens : List Token} {c : Char} (h : c ∈ (printed tokens).toList) :
    c = ' ' ∨ ∃ token ∈ tokens, c ∈ token.lexeme.toList := by
  induction tokens with
  | nil => simp [printed] at h
  | cons token tokens ih =>
    rw [toList_printed_cons, List.mem_append] at h
    rcases h with here | behind
    · exact .inr ⟨token, List.mem_cons_self, here⟩
    · split at behind
      · exact absurd behind List.not_mem_nil
      · rcases List.mem_cons.mp behind with space | later
        · exact .inl space
        · rcases ih later with space | ⟨other, listed, inside⟩
          · exact .inl space
          · exact .inr ⟨other, List.mem_cons_of_mem _ listed, inside⟩

/-- The line of spelled tokens has no white space but spaces. -/
theorem notMem_printed {tokens : List Token} {c : Char}
    (spelled : ∀ token ∈ tokens, IsSpelling token.kind token.lexeme.toList)
    (isBlank : Text.isBlank c) (noSpace : c ≠ ' ') : c ∉ (printed tokens).toList := by
  intro listed
  rcases mem_printed listed with space | ⟨token, among, inside⟩
  · exact noSpace space
  · exact (spelled token among).solid c inside isBlank

/-- The line of spelled tokens is no comment if the first token does not start like one. -/
theorem isCode_printed {token : Token} (tokens : List Token)
    (spelled : IsSpelling token.kind token.lexeme.toList)
    (noComment : token.lexeme.toList.head? ≠ some '#') :
    isCode (printed (token :: tokens)).toList := by
  obtain ⟨c, rest, starts, solid⟩ := spelled.exists_cons
  have differs : c ≠ '#' := by
    rintro rfl
    exact noComment (by rw [starts, List.head?_cons])
  rw [isCode, head?_trim, toList_printed_cons, starts, List.cons_append,
    List.find?_cons_of_pos (by simpa using solid)]
  simpa using differs

/-- **The line of spelled tokens is a source with these tokens**, at other places. -/
theorem spelling_tokenize_printed {tokens : List Token}
    (spelled : ∀ token ∈ tokens, IsSpelling token.kind token.lexeme.toList)
    (noComment : ∀ token ∈ tokens.head?, token.lexeme.toList.head? ≠ some '#') :
    (tokenize (printed tokens)).map Token.spelling = tokens.map Token.spelling := by
  have noFeed : '\n' ∉ (printed tokens).toList := notMem_printed spelled (by decide) (by decide)
  have noReturn : '\r' ∉ (printed tokens).toList := notMem_printed spelled (by decide) (by decide)
  have oneLine : tokenize (printed tokens) =
      readTokens (lineTokens 1 (printed tokens).toList) := by
    rw [tokenize_eq_ofLines, Text.lines_of_notMem noFeed, Yield.ofLines_cons,
      Text.content_of_notMem noReturn]
    exact List.append_nil _
  rw [oneLine]
  cases tokens with
  | nil => rfl
  | cons token tokens =>
    have isCode := isCode_printed tokens (spelled token List.mem_cons_self)
      (noComment token rfl)
    obtain ⟨read, found, same⟩ := exists_lookAhead_printed spelled 1 0
    rw [lineTokens_of_isCode 1 isCode, codeTokens_eq, found]
    exact same

/-! ## Sources -/

/-- The characters of a line are characters of the text. -/
theorem Text.subset_of_mem_lines {text line : List Char} (listed : line ∈ lines text) :
    line ⊆ text := by
  induction text using line_induction with
  | last only h =>
    rw [lines_of_notMem h] at listed
    rw [List.mem_singleton.mp listed]
    exact List.Subset.refl only
  | more first later h ih =>
    rw [lines_line_append later h] at listed
    rcases List.mem_cons.mp listed with rfl | behind
    · exact List.subset_append_left line _
    · have upToFeed : later ⊆ '\n' :: later := List.subset_cons_self '\n' later
      have upToLine : '\n' :: later ⊆ first ++ '\n' :: later := List.subset_append_right first _
      exact List.Subset.trans (ih behind) (List.Subset.trans upToFeed upToLine)

/-- The tokens of a line without quotes, escapes and a comment are spelled by their lexemes, and the
first one does not start like a comment. -/
theorem isSpelling_of_lineTokens {number : Nat} {line : List Char} {tokens : List Token}
    (noQuote : '"' ∉ line) (noEscape : '\\' ∉ line)
    (noComment : line.find? (!Text.isBlank ·) ≠ some '#')
    (read : lineTokens number (Text.content line) = .ok tokens) :
    (∀ token ∈ tokens, IsSpelling token.kind token.lexeme.toList) ∧
      ∀ token ∈ tokens.head?, token.lexeme.toList.head? ≠ some '#' := by
  have within : Text.content line ⊆ line := (Text.content_isPrefix line).subset
  have first : (Text.trim (Text.content line)).head? = line.find? (!Text.isBlank ·) := by
    simp
  by_cases code : isCode (Text.content line)
  · rw [lineTokens_of_isCode number code, codeTokens_eq] at read
    obtain ⟨spelled, starts⟩ := isSpelling_of_lookAhead (fun listed => noQuote (within listed))
      (fun listed => noEscape (within listed)) read
    refine ⟨spelled, fun token here => ?_⟩
    rw [starts token here, ← head?_trim, first]
    exact noComment
  · -- A line that is neither code nor a comment is blank.
    obtain rfl : tokens = [] := by
      rcases tokens_of_not_isCode read code with none | ⟨-, some⟩
      · exact none
      · obtain ⟨c, rest, trimmed⟩ := List.exists_cons_of_ne_nil some
        rw [trimmed, List.head?_cons] at first
        have comment : c = '#' := by simpa [isCode, trimmed] using code
        rw [comment] at first
        exact absurd first.symm noComment
    exact ⟨fun token listed => absurd listed List.not_mem_nil, fun token here => by cases here⟩

/-- The first token of a source is the first token of one of its lines. -/
theorem exists_line_of_head?_tokenize {source : String} {token : Token}
    (h : (tokenize source).head? = some token) :
    ∃ number line tokens, line ∈ Text.lines source.toList ∧
      lineTokens number (Text.content line) = .ok tokens ∧ tokens.head? = some token := by
  rw [tokenize_eq_ofLines, Yield.ofLines, List.head?_flatMap] at h
  obtain ⟨⟨line, number⟩, listed, here⟩ := List.exists_of_findSome?_eq_some h
  dsimp only at here
  rw [Yield.ofLine_tokens] at here
  cases read : lineTokens number (Text.content line) with
  | error problem =>
    rw [read] at here
    cases here
  | ok tokens =>
    rw [read] at here
    exact ⟨number, line, tokens, List.fst_mem_of_mem_zipIdx listed, read, here⟩

/-- The line of some tokens tells nothing but how they are spelled. -/
theorem printed_eq_of_spelling {tokens others : List Token}
    (same : tokens.map Token.spelling = others.map Token.spelling) :
    printed tokens = printed others := by
  have lexemes := congrArg (List.map Prod.snd) same
  rw [List.map_map, List.map_map] at lexemes
  exact congrArg (" ".intercalate ·) lexemes

/-- **Printing and reading again changes places only**: the tokens of a source without quotes,
backslashes and comments, written in one line with a space between neighbours, are read as tokens of
the same kinds with the same lexemes, which are written as the same line. -/
theorem tokenize_printed (source : String) (noQuote : '"' ∉ source.toList)
    (noEscape : '\\' ∉ source.toList)
    (noComment : ∀ line ∈ Text.lines source.toList, line.find? (!Text.isBlank ·) ≠ some '#') :
    Text.lines (printed (tokenize source)).toList = [(printed (tokenize source)).toList] ∧
      (tokenize (printed (tokenize source))).map Token.spelling =
        (tokenize source).map Token.spelling ∧
      printed (tokenize (printed (tokenize source))) = printed (tokenize source) := by
  have ofLine {number : Nat} {line : List Char} {tokens : List Token}
      (listed : line ∈ Text.lines source.toList)
      (read : lineTokens number (Text.content line) = .ok tokens) :=
    have within := Text.subset_of_mem_lines listed
    isSpelling_of_lineTokens (fun quote => noQuote (within quote))
      (fun escape => noEscape (within escape)) (noComment line listed) read
  have spelled : ∀ token ∈ tokenize source, IsSpelling token.kind token.lexeme.toList := by
    intro token listed
    obtain ⟨number, line, tokens, found, read, among, -⟩ := exists_line_of_mem_tokenize listed
    exact (ofLine (List.mem_of_getElem? found) read).1 token among
  have starts : ∀ token ∈ (tokenize source).head?, token.lexeme.toList.head? ≠ some '#' := by
    intro token first
    obtain ⟨number, line, tokens, listed, read, here⟩ := exists_line_of_head?_tokenize first
    exact (ofLine listed read).2 token here
  have same := spelling_tokenize_printed spelled starts
  have noFeed : '\n' ∉ (printed (tokenize source)).toList :=
    notMem_printed spelled (by decide) (by decide)
  exact ⟨Text.lines_of_notMem noFeed, same, printed_eq_of_spelling same⟩

/-- Operators that touch, a word that starts like a comment, and a margin of wide white space. -/
theorem tokenize_printed_touching :
    printed (tokenize "x=+ +=#y\r\n\u30007--1") = "x = + += #y 7 -- 1" ∧
      (tokenize "x = + += #y 7 -- 1").map Token.spelling =
        (tokenize "x=+ +=#y\r\n\u30007--1").map Token.spelling := by
  have line : printed (tokenize "x=+ +=#y\r\n\u30007--1") = "x = + += #y 7 -- 1" := by
    decide +kernel
  obtain ⟨-, same, -⟩ := tokenize_printed "x=+ +=#y\r\n\u30007--1" (by decide +kernel)
    (by decide +kernel) (by decide +kernel)
  rw [line] at same
  exact ⟨line, same⟩

end ScriptLens
