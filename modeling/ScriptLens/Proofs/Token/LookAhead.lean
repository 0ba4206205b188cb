import ScriptLens.Proofs.Token.StringContent

/-! # Reading a line with look-ahead
A line of code is read without looking ahead: a mark is a token at once, and the mark after it may
still turn both into one operator. Here is the reading that looks ahead instead. It decides at every
place of a line which token starts there, and an operator of two characters comes before one of a
single character.
Main definitions:
* `cutContent`: a string cut at the quote that closes it.
* `takeAhead`, `lookAhead`: what stands at one place of a line, and all tokens of a line.
* `longestMatch`: operators cut off a run of marks from left to right, the longer ones first.
* `Ready`: the token before a place does not join what stands there.
Main statements:
* `agrees_takeAhead`, `foldlM_split_lookAhead`: one place, and the rest of a line.
* `takeAhead_operator`, `exists_takeAhead_word`: what is taken where an operator or a word starts.
* `codeTokens_eq_lookAhead`: both readings give the same tokens or the same error, and every run of
  operators is cut by longest match. -/

namespace ScriptLens

/-! ## Looking ahead -/

/-- Whether a character is a mark other than the quote that bounds strings. -/
def isOperator (c : Char) : Bool :=
  (Vocabulary.mark? c).isSome && c ≠ '"'

/-- Whether a character belongs to a word: outside strings it is neither white space nor a mark. -/
def isWordPart (c : Char) : Bool :=
  !Text.isBlank c && (Vocabulary.mark? c).isNone

/-- The content of a string, read behind its opening quote, and what follows from the closing quote
on. A backslash takes the next character with it, so that an escaped quote closes nothing. -/
def cutContent : List Char → List Char × List Char
  | [] => ([], [])
  | '\\' :: escaped :: rest => ('\\' :: escaped :: (cutContent rest).1, (cutContent rest).2)
  | c :: rest => if c = '"' then ([], c :: rest) else (c :: (cutContent rest).1, (cutContent rest).2)

/-- What stands at a place of a line. -/
structure Taken where
  /-- The tokens that start there, or the escape error of one of them. -/
  tokens : Except EscapeError (List Token)
  /-- The number of characters they take up behind the first one. -/
  more : Nat

/-- The token of a run that starts at `column`; none if the run is empty. -/
def runTokens (line column : Nat) (text : List Char) : Except EscapeError (List Token) :=
  if text.isEmpty then .ok [] else (classify line column text).map ([·])

/-- A string behind its opening quote: the quotes and, unless it is empty, the content between them
as it stands. The end of the line ends a string as well. -/
def takeString (line column : Nat) (rest : List Char) : Taken :=
  let (content, later) := cutContent rest
  let closing := if later.isEmpty then [] else [quoteAt line (column + 1 + content.length)]
  { tokens := (runTokens line (column + 1) content).map fun inside =>
      quoteAt line column :: (inside ++ closing)
    more := content.length + closing.length }

/-- The operator spelled by a character and the one behind it. -/
def pairAhead? (c : Char) (rest : List Char) : Option (Char × Token.Kind) :=
  rest.head?.bind fun second => (Vocabulary.pair? c second).map (second, ·)

/-- What stands at a place outside strings where `c` comes next: white space, a string, an operator
of two characters, an operator of one character, or a word. -/
def takeAhead (line column : Nat) (c : Char) (rest : List Char) : Taken :=
  if Text.isBlank c then { tokens := .ok [], more := 0 }
  else if c = '"' then takeString line column rest
  else
    match pairAhead? c rest, Vocabulary.mark? c with
    | some (second, kind), _ =>
      { tokens := .ok [{ kind, lexeme := String.ofList [c, second], line, column }], more := 1 }
    | none, some kind =>
      { tokens := .ok [{ kind, lexeme := String.singleton c, line, column }], more := 0 }
    | none, none =>
      let word := rest.takeWhile isWordPart
      { tokens := (classify line column (c :: word)).map ([·]), more := word.length }

/-- The tokens of the rest of a line, which starts outside strings at `column`, or its first escape
error. -/
def lookAhead (line column : Nat) : List Char → Except EscapeError (List Token)
  | [] => .ok []
  | c :: rest =>
    match takeAhead line column c rest with
    | { tokens, more } => do
      let front ← tokens
      let back ← lookAhead line (column + 1 + more) (rest.drop more)
      return front ++ back
termination_by text => text.length
decreasing_by
  simp only [List.length_drop, List.length_cons]
  omega

/-- The operators of a run of marks that starts at `column`, cut off from left to right: two
characters wherever they spell an operator, else one. -/
def longestMatch (line column : Nat) : List Char → List Token
  | [] => []
  | [c] => [{ kind := loneKind c, lexeme := String.singleton c, line, column }]
  | c :: second :: rest =>
    match Vocabulary.pair? c second with
    | some kind =>
      { kind, lexeme := String.ofList [c, second], line, column } ::
        longestMatch line (column + 2) rest
    | none =>
      { kind := loneKind c, lexeme := String.singleton c, line, column } ::
        longestMatch line (column + 1) (second :: rest)

/-! ## Tables -/

/-- The two characters of an operator are operators of their own, and the first one may join another
one. -/
theorem operators_of_pair? {first second : Char} {kind : Token.Kind}
    (h : Vocabulary.pair? first second = some kind) :
    (∃ single, Vocabulary.mark? first = some single ∧ single.combines) ∧ isOperator first ∧
      isOperator second := by
  have table : ∀ entry ∈ Vocabulary.pairs,
      (Vocabulary.mark? entry.1.1).any Token.Kind.combines ∧ isOperator entry.1.1 ∧
        isOperator entry.1.2 := by decide
  obtain ⟨joins, isFirst, isSecond⟩ := table _ (mem_of_lookup_eq_some h)
  refine ⟨?_, isFirst, isSecond⟩
  rw [Option.any_eq_true] at joins
  exact joins

/-- A mark is no white space and no digit. -/
theorem solid_of_mark? {c : Char} {kind : Token.Kind} (h : Vocabulary.mark? c = some kind) :
    ¬ Text.isBlank c ∧ loneKind c = kind := by
  have table : ∀ entry ∈ Vocabulary.marks, ¬ Text.isBlank entry.1 ∧ entry.1.isDigit = false := by
    decide
  obtain ⟨solid, noDigit⟩ := table _ (mem_of_lookup_eq_some h)
  refine ⟨solid, ?_⟩
  simp only at noDigit
  simp [loneKind, noDigit, h]

/-- An operator has a kind, and it is no quote. -/
theorem exists_mark_of_isOperator {c : Char} (h : isOperator c) :
    (∃ kind, Vocabulary.mark? c = some kind) ∧ c ≠ '"' := by
  simp only [isOperator, Bool.and_eq_true, decide_eq_true_eq, Option.isSome_iff_exists] at h
  exact h

/-- A character of a word is neither white space nor a mark. -/
theorem isWordPart_iff {c : Char} :
    isWordPart c ↔ ¬ Text.isBlank c ∧ Vocabulary.mark? c = none := by
  simp [isWordPart]

/-- An operator is no white space. -/
theorem not_isBlank_of_isOperator {c : Char} (operator : isOperator c) : ¬ Text.isBlank c := by
  obtain ⟨⟨kind, isMark⟩, -⟩ := exists_mark_of_isOperator operator
  exact (solid_of_mark? isMark).1

/-- A character outside strings is white space, an operator or part of a word. -/
theorem class_of_ne_quote {c : Char} (noQuote : c ≠ '"') :
    Text.isBlank c ∨ isOperator c ∨ isWordPart c := by
  by_cases isBlank : Text.isBlank c
  · exact .inl isBlank
  · cases isMark : Vocabulary.mark? c with
    | none => exact .inr (.inr (isWordPart_iff.mpr ⟨isBlank, isMark⟩))
    | some kind => exact .inr (.inl (by simp [isOperator, isMark, noQuote]))

/-! ## The place behind a token -/

/-- The last of the tokens read so far, which stand in reverse order, starts before `column` and
does not join the character that stands there, if there is one. -/
def Ready (column : Nat) (reversed : List Token) (text : List Char) : Prop :=
  ∀ previous ∈ reversed.head?, ∀ next ∈ text.head?,
    previous.column < column ∧ joined? previous next column = none

/-- A token joins nothing further away than the next column. -/
theorem joined?_of_gap {previous : Token} {column : Nat} (second : Char)
    (gap : previous.column + 1 ≠ column) : joined? previous second column = none := by
  simp [joined?, gap]

/-- A token that is no operator joins nothing. -/
theorem joined?_of_lone {previous : Token} (second : Char) (column : Nat)
    (lone : previous.kind.combines = false) : joined? previous second column = none := by
  simp [joined?, lone]

/-- A single operator joins the character behind it exactly if both spell an operator. -/
theorem joined?_single {kind : Token.Kind} (line column : Nat) (c second : Char)
    (joins : kind.combines) :
    joined? { kind, lexeme := String.singleton c, line, column } second (column + 1) =
      (Vocabulary.pair? c second).map fun kind =>
        { kind, lexeme := String.ofList [c, second], line, column } := by
  simp [joined?, joins]

/-- Behind white space nothing is joined. -/
theorem Ready.blank {column : Nat} {reversed : List Token} {c : Char} {rest : List Char}
    (ready : Ready column reversed (c :: rest)) : Ready (column + 1) reversed rest := by
  intro previous last next _
  obtain ⟨before, -⟩ := ready previous last c rfl
  refine ⟨by omega, joined?_of_gap next ?_⟩
  omega

/-- A token that has been added is the last one. -/
theorem ready_cons {column : Nat} {token : Token} {reversed : List Token} {text : List Char}
    (before : token.column < column)
    (apart : ∀ next ∈ text.head?, joined? token next column = none) :
    Ready column (token :: reversed) text := by
  intro previous last next here
  obtain rfl : token = previous := by simpa using last
  exact ⟨before, apart next here⟩

/-- Where nothing is joined, a mark is a token of its own. -/
theorem Ready.addMark_eq {column : Nat} {reversed : List Token} {sign : Char} {rest : List Char}
    (ready : Ready column reversed (sign :: rest)) (line : Nat) (kind : Token.Kind) :
    addMark line column sign kind reversed =
      { kind, lexeme := String.singleton sign, line, column } :: reversed := by
  unfold addMark
  cases reversed with
  | nil => rfl
  | cons previous earlier =>
    have apart := (ready previous rfl sign rfl).2
    dsimp only
    rw [apart]

/-! ## Strings -/

/-- A string is its content and what follows, which is nothing or starts with the closing quote. -/
theorem cutContent_append (rest : List Char) :
    (cutContent rest).1 ++ (cutContent rest).2 = rest ∧
      ((cutContent rest).2 = [] ∨ ∃ later, (cutContent rest).2 = '"' :: later) := by
  fun_induction cutContent rest with
  | case1 => exact ⟨rfl, .inl rfl⟩
  | case2 escaped rest ih => exact ⟨by rw [List.cons_append, List.cons_append, ih.1], ih.2⟩
  | case3 rest _ => exact ⟨rfl, .inr ⟨rest, rfl⟩⟩
  | case4 c rest _ _ ih => exact ⟨by rw [List.cons_append, ih.1], ih.2⟩

/-- Behind an opening quote a line is cut into the content of the string, the closing quote if there
is one, and the pieces behind it. -/
theorem split_string (column : Nat) (run rest : List Char) :
    Piece.split true column run rest =
      Piece.runBefore (column + (cutContent rest).1.length) ((cutContent rest).1.reverse ++ run) ++
        match (cutContent rest).2 with
        | [] => []
        | quote :: later =>
          .mark (column + (cutContent rest).1.length) quote .doubleQuote ::
            Piece.split false (column + (cutContent rest).1.length + 1) [] later := by
  fun_induction cutContent rest generalizing column run with
  | case1 => simp [Piece.split]
  | case2 escaped rest ih =>
    rw [split_escape, ih]
    simp [Nat.add_assoc, Nat.add_comm 2]
  | case3 rest noPair =>
    rw [split_closing]
    rfl
  | case4 c rest noPair noQuote ih =>
    by_cases escape : c = '\\'
    · -- A backslash with nothing behind it is the last character of the line.
      cases rest with
      | nil =>
        subst escape
        rfl
      | cons escaped rest => exact absurd rfl (noPair escaped rest escape)
    · rw [split_inside column run rest escape noQuote, ih]
      simp [Nat.add_assoc, Nat.add_comm 1]

/-! ## Words -/

/-- The characters of a word join one run. -/
theorem split_word {word : List Char} (column : Nat) (run rest : List Char)
    (parts : ∀ c ∈ word, isWordPart c) :
    Piece.split false column run (word ++ rest) =
      Piece.split false (column + word.length) (word.reverse ++ run) rest := by
  induction word generalizing column run with
  | nil => rfl
  | cons c word ih =>
    obtain ⟨first, parts⟩ := List.forall_mem_cons.mp parts
    obtain ⟨solid, noMark⟩ := isWordPart_iff.mp first
    rw [List.cons_append, split_outside column run _ solid noMark, ih _ _ parts]
    simp [Nat.add_assoc, Nat.add_comm 1]

/-- A run ends where the next character belongs to no word. -/
theorem split_end_of_word {rest : List Char} (column : Nat) (run : List Char)
    (ended : ∀ c ∈ rest.head?, ¬ isWordPart c) :
    Piece.split false column run rest =
      Piece.runBefore column run ++ Piece.split false column [] rest := by
  cases rest with
  | nil => simp [Piece.split, Piece.runBefore]
  | cons c rest =>
    by_cases isBlank : Text.isBlank c
    · rw [split_blank column run rest isBlank, split_blank column [] rest isBlank]
      rfl
    · cases isMark : Vocabulary.mark? c with
      | none => exact absurd (isWordPart_iff.mpr ⟨isBlank, isMark⟩) (ended c rfl)
      | some kind =>
        rw [split_mark column run rest isBlank isMark, split_mark column [] rest isBlank isMark]
        rfl

/-- No characters make no run. -/
@[simp] theorem runBefore_nil (column : Nat) : Piece.runBefore column [] = [] :=
  rfl

/-- A run is added to the tokens before it, unless it is empty. -/
theorem foldlM_runBefore (line column : Nat) (text : List Char) (reversed : List Token) :
    (Piece.runBefore (column + text.length) text.reverse).foldlM (addPiece line) reversed =
      (runTokens line column text).map (·.reverse ++ reversed) := by
  unfold Piece.runBefore runTokens
  cases text with
  | nil => rfl
  | cons c text =>
    have place : column + (c :: text).length - (c :: text).reverse.length = column := by simp
    have some : (c :: text).reverse.isEmpty = false := by simp
    rw [place, some, List.reverse_reverse]
    simp only [Bool.false_eq_true, ↓reduceIte, List.isEmpty_cons, List.foldlM_cons,
      List.foldlM_nil, addPiece]
    cases classify line column (c :: text) <;> rfl

/-! ## One place -/

/-- The tokens at a place, which take up `more` characters behind the first one, are what the pieces
there are read as, and behind them nothing is joined. -/
structure Agrees (line column : Nat) (c : Char) (rest : List Char) (reversed : List Token)
    (tokens : Except EscapeError (List Token)) (more : Nat) : Prop where
  /-- The pieces there give the tokens, and those behind them are read after these. -/
  folded : (Piece.split false column [] (c :: rest)).foldlM (addPiece line) reversed =
    tokens.bind fun tokens =>
      (Piece.split false (column + 1 + more) [] (rest.drop more)).foldlM (addPiece line)
        (tokens.reverse ++ reversed)
  /-- The last token does not join what comes next. -/
  ready : ∀ read, tokens = .ok read →
    Ready (column + 1 + more) (read.reverse ++ reversed) (rest.drop more)

section

variable {line column : Nat} {c : Char} {rest : List Char} {reversed : List Token}

/-- White space is passed over. -/
theorem agrees_blank (ready : Ready column reversed (c :: rest)) (isBlank : Text.isBlank c) :
    Agrees line column c rest reversed (.ok []) 0 where
  folded := by
    rw [split_blank column [] rest isBlank]
    rfl
  ready := by
    rintro read ⟨⟩
    exact ready.blank

/-- A mark that joins nothing on either side is a token of its own. -/
theorem agrees_mark {kind : Token.Kind} (ready : Ready column reversed (c :: rest))
    (noQuote : c ≠ '"') (isMark : Vocabulary.mark? c = some kind)
    (noPair : ∀ second ∈ rest.head?, Vocabulary.pair? c second = none) :
    Agrees line column c rest reversed
      (.ok [{ kind, lexeme := String.singleton c, line, column }]) 0 where
  folded := by
    rw [split_mark column [] rest (solid_of_mark? isMark).1 isMark, decide_eq_false noQuote,
      runBefore_nil, List.nil_append, List.foldlM_cons, addPiece, ready.addMark_eq]
    rfl
  ready := by
    rintro read ⟨⟩
    refine ready_cons (Nat.lt_succ_self column) fun second next => ?_
    by_cases joins : kind.combines
    · rw [Nat.add_zero, joined?_single line column c second joins, noPair second next]
      rfl
    · exact joined?_of_lone second _ (Bool.eq_false_iff.mpr joins)

/-- Two marks that spell an operator are one token. -/
theorem agrees_pair {second : Char} {kind : Token.Kind}
    (ready : Ready column reversed (c :: second :: rest))
    (known : Vocabulary.pair? c second = some kind) :
    Agrees line column c (second :: rest) reversed
      (.ok [{ kind, lexeme := String.ofList [c, second], line, column }]) 1 := by
  obtain ⟨⟨single, isFirst, joins⟩, firstOperator, secondOperator⟩ := operators_of_pair? known
  obtain ⟨-, firstNoQuote⟩ := exists_mark_of_isOperator firstOperator
  obtain ⟨⟨other, isSecond⟩, secondNoQuote⟩ := exists_mark_of_isOperator secondOperator
  constructor
  · -- The first mark is added as a token, and the second one is folded into it.
    have folds : addMark line (column + 1) second other
        ({ kind := single, lexeme := String.singleton c, line, column } :: reversed) =
          { kind, lexeme := String.ofList [c, second], line, column } :: reversed := by
      unfold addMark
      dsimp only
      rw [joined?_single line column c second joins, known]
      rfl
    rw [split_mark column [] _ (solid_of_mark? isFirst).1 isFirst, decide_eq_false firstNoQuote,
      split_mark (column + 1) [] rest (solid_of_mark? isSecond).1 isSecond,
      decide_eq_false secondNoQuote, runBefore_nil, runBefore_nil, List.nil_append,
      List.nil_append, foldlM_cons_of_ok (congrArg _ (ready.addMark_eq line single)),
      foldlM_cons_of_ok (congrArg _ folds)]
    rfl
  · rintro read ⟨⟩
    have before : column < column + 1 + 1 := by omega
    refine ready_cons before fun next _ => joined?_of_gap next ?_
    change column + 1 ≠ column + 1 + 1
    omega

/-- A string is its quotes and its content. -/
theorem agrees_string :
    Agrees line column '"' rest reversed (takeString line column rest).tokens
      (takeString line column rest).more := by
  obtain ⟨parts, ends⟩ := cutContent_append rest
  have isQuote : Vocabulary.mark? '"' = some .doubleQuote := by decide
  have quoted (column : Nat) (reversed : List Token) :
      addPiece line reversed (.mark column '"' .doubleQuote) =
        .ok (quoteAt line column :: reversed) := by
    simp [addPiece]
  -- The opening quote is read, and then the content as a run.
  have opened : (Piece.split false column [] ('"' :: rest)).foldlM (addPiece line) reversed =
      (Piece.split true (column + 1) [] rest).foldlM (addPiece line)
        (quoteAt line column :: reversed) := by
    rw [split_mark column [] rest (solid_of_mark? isQuote).1 isQuote, runBefore_nil,
      List.nil_append, foldlM_cons_of_ok (quoted column reversed)]
    rfl
  rw [split_string, List.append_nil, List.foldlM_append, foldlM_runBefore] at opened
  unfold takeString
  generalize cutContent rest = cut at parts ends opened
  obtain ⟨content, later⟩ := cut
  rcases ends with rfl | ⟨behind, rfl⟩
  · -- The line ends in the string.
    have none : rest.drop content.length = [] := by
      rw [← parts, List.append_nil, List.drop_length]
    constructor
    · rw [opened]
      simp only [List.isEmpty_nil, ↓reduceIte, List.append_nil, List.length_nil, Nat.add_zero, none]
      cases runTokens line (column + 1) content with
      | error problem => rfl
      | ok inside => simp [Except.map, Except.bind, bind, Piece.split, runBefore_nil]
    · intro read _ previous _ next here
      simp [none] at here
  · have after : rest.drop (content.length + 1) = behind := by
      rw [← parts, ← List.drop_drop, List.drop_left]
      rfl
    constructor
    · rw [opened]
      simp only [List.isEmpty_cons, Bool.false_eq_true, ↓reduceIte, List.length_singleton, after]
      cases runTokens line (column + 1) content with
      | error problem => rfl
      | ok inside =>
        have closed := foldlM_cons_of_ok
          (quoted (column + 1 + content.length) (inside.reverse ++ quoteAt line column :: reversed))
          (Piece.split false (column + 1 + content.length + 1) [] behind)
        simpa [Except.map, Except.bind, bind, Nat.add_assoc] using closed
    · intro read here
      simp only [List.isEmpty_cons, Bool.false_eq_true, ↓reduceIte] at here
      obtain ⟨inside, -, rfl⟩ := exists_of_map_eq_ok here
      simp only [List.isEmpty_cons, Bool.false_eq_true, ↓reduceIte, List.reverse_cons,
        List.reverse_append, List.reverse_nil, List.nil_append, List.cons_append,
        List.length_singleton]
      refine ready_cons ?_ fun next _ => joined?_of_lone next _ rfl
      change column + 1 + content.length < column + 1 + (content.length + 1)
      omega

/-- A word is a token of its own. -/
theorem agrees_word (solid : ¬ Text.isBlank c) (noMark : Vocabulary.mark? c = none) :
    Agrees line column c rest reversed
      ((classify line column (c :: rest.takeWhile isWordPart)).map ([·]))
      (rest.takeWhile isWordPart).length := by
  have parts : rest.takeWhile isWordPart ++ rest.dropWhile isWordPart = rest :=
    List.takeWhile_append_dropWhile
  have ended : ∀ next ∈ (rest.dropWhile isWordPart).head?, ¬ isWordPart next := by
    intro next here
    have stops := List.head?_dropWhile_not isWordPart rest
    rw [Option.mem_def.mp here] at stops
    simpa using stops
  have inside : ∀ next ∈ rest.takeWhile isWordPart, isWordPart next :=
    List.all_eq_true.mp List.all_takeWhile
  generalize rest.takeWhile isWordPart = word at parts inside
  generalize rest.dropWhile isWordPart = behind at parts ended
  have after : rest.drop word.length = behind := by
    rw [← parts, List.drop_left]
  have whole : ∀ next ∈ c :: word, isWordPart next :=
    List.forall_mem_cons.mpr ⟨isWordPart_iff.mpr ⟨solid, noMark⟩, inside⟩
  constructor
  · have cut : Piece.split false column [] (c :: rest) =
        Piece.runBefore (column + (c :: word).length) (c :: word).reverse ++
          Piece.split false (column + (c :: word).length) [] behind := by
      rw [← parts, ← List.cons_append, split_word column [] behind whole, List.append_nil,
        split_end_of_word _ _ ended]
    have place : column + (c :: word).length = column + 1 + word.length := by
      rw [List.length_cons]
      omega
    rw [cut, List.foldlM_append, foldlM_runBefore, runTokens, after, place]
    cases classify line column (c :: word) <;> rfl
  · intro read here
    obtain ⟨token, classified, rfl⟩ := exists_of_map_eq_ok here
    obtain ⟨starts, -⟩ := resolves_of_classify classified
    refine ready_cons (by omega) fun next _ => ?_
    cases word with
    | nil =>
      -- A single character is a digit or text, so it joins nothing.
      cases classified
      refine joined?_of_lone next _ ?_
      unfold loneKind
      rw [noMark]
      split <;> rfl
    | cons second word =>
      refine joined?_of_gap next ?_
      rw [starts, List.length_cons]
      omega

/-- Look-ahead takes at a place what the pieces there are read as. -/
theorem agrees_takeAhead (ready : Ready column reversed (c :: rest)) :
    Agrees line column c rest reversed (takeAhead line column c rest).tokens
      (takeAhead line column c rest).more := by
  unfold takeAhead
  by_cases isBlank : Text.isBlank c
  · rw [if_pos isBlank]
    exact agrees_blank ready isBlank
  rw [if_neg isBlank]
  by_cases isQuote : c = '"'
  · rw [if_pos isQuote, isQuote]
    exact agrees_string
  rw [if_neg isQuote]
  split
  · next second kind ahead =>
    obtain ⟨other, here, known⟩ := Option.bind_eq_some_iff.mp ahead
    simp only [Option.map_eq_some_iff, Prod.mk.injEq] at known
    obtain ⟨kind, known, rfl, rfl⟩ := known
    obtain ⟨later, rfl⟩ := List.head?_eq_some_iff.mp here
    exact agrees_pair ready known
  · next kind alone isMark =>
    refine agrees_mark ready isQuote isMark fun second here => ?_
    rw [pairAhead?, Option.mem_def.mp here] at alone
    simpa using alone
  · next alone noMark => exact agrees_word isBlank noMark

end

/-! ## Lines -/

/-- From a place outside strings on, a line is read as look-ahead reads it. -/
theorem foldlM_split_lookAhead {line column : Nat} {text : List Char} {reversed : List Token}
    (ready : Ready column reversed text) :
    (Piece.split false column [] text).foldlM (addPiece line) reversed =
      (lookAhead line column text).map (·.reverse ++ reversed) := by
  fun_induction lookAhead line column text generalizing reversed with
  | case1 column => rfl
  | case2 column c rest tokens more taken ih =>
    have agrees : Agrees line column c rest reversed tokens more := by
      have here : Agrees line column c rest reversed _ _ := agrees_takeAhead ready
      rwa [taken] at here
    rw [agrees.folded]
    cases tokens with
    | error problem => rfl
    | ok front =>
      have later := ih (agrees.ready front rfl)
      change List.foldlM _ _ _ = Except.map _ (_ >>= _)
      rw [later]
      cases lookAhead line (column + 1 + more) (rest.drop more) <;>
        simp [Except.map, bind, Except.bind, pure, Except.pure]

/-- A line of code is read as look-ahead reads it from its start. -/
theorem codeTokens_eq (line : Nat) (text : List Char) :
    codeTokens line text = lookAhead line 0 text := by
  have start : Ready 0 [] text := fun _ none => by cases none
  unfold codeTokens pieces
  rw [foldlM_split_lookAhead start]
  cases lookAhead line 0 text <;> simp [Except.map]

/-! ## What is taken -/

/-- White space is taken as nothing. -/
theorem takeAhead_blank {c : Char} (line column : Nat) (rest : List Char)
    (isBlank : Text.isBlank c) :
    takeAhead line column c rest = { tokens := .ok [], more := 0 } := by
  unfold takeAhead
  rw [if_pos isBlank]

/-- A quote is taken with its string. -/
@[simp] theorem takeAhead_quote (line column : Nat) (rest : List Char) :
    takeAhead line column '"' rest = takeString line column rest := by
  have solid : ¬ Text.isBlank '"' := by decide
  unfold takeAhead
  rw [if_neg solid, if_pos rfl]

/-- A character of a word is taken with the characters of the word behind it. -/
theorem takeAhead_word {c : Char} (line column : Nat) (rest : List Char) (part : isWordPart c) :
    takeAhead line column c rest =
      { tokens := (classify line column (c :: rest.takeWhile isWordPart)).map ([·]),
        more := (rest.takeWhile isWordPart).length } := by
  obtain ⟨solid, noMark⟩ := isWordPart_iff.mp part
  have noQuote : c ≠ '"' := by
    rintro rfl
    exact absurd noMark (by decide)
  have alone : pairAhead? c rest = none := by
    refine Option.bind_eq_none_iff.mpr fun second _ => ?_
    cases known : Vocabulary.pair? c second with
    | none => rfl
    | some kind =>
      obtain ⟨⟨single, isMark, -⟩, -⟩ := operators_of_pair? known
      rw [noMark] at isMark
      cases isMark
  unfold takeAhead
  rw [if_neg solid, if_neg noQuote, alone, noMark]

/-- The word at a place, and what follows it. -/
theorem exists_takeAhead_word {c : Char} (line column : Nat) (rest : List Char)
    (part : isWordPart c) :
    ∃ word later, rest = word ++ later ∧ (∀ d ∈ c :: word, isWordPart d) ∧
      (∀ d ∈ later.head?, ¬ isWordPart d) ∧
      takeAhead line column c rest =
        { tokens := (classify line column (c :: word)).map ([·]), more := word.length } := by
  refine ⟨rest.takeWhile isWordPart, rest.dropWhile isWordPart,
    List.takeWhile_append_dropWhile.symm, ?_, ?_, takeAhead_word line column rest part⟩
  · exact List.forall_mem_cons.mpr ⟨part, List.all_eq_true.mp List.all_takeWhile⟩
  · intro d next
    have stops := List.head?_dropWhile_not isWordPart rest
    rw [Option.mem_def.mp next] at stops
    simpa using stops

/-- The tokens of a line are those taken at its first place and those behind them. -/
theorem lookAhead_of_takeAhead {line column more : Nat} {c : Char} {rest : List Char}
    {tokens : Except EscapeError (List Token)}
    (h : takeAhead line column c rest = { tokens, more }) :
    lookAhead line column (c :: rest) = tokens.bind fun front =>
      (lookAhead line (column + 1 + more) (rest.drop more)).map (front ++ ·) := by
  rw [lookAhead, h]
  dsimp only
  cases tokens with
  | error problem => rfl
  | ok front => cases lookAhead line (column + 1 + more) (rest.drop more) <;> rfl

/-! ## Runs of operators -/

/-- Two characters that spell an operator are taken together. -/
theorem takeAhead_pair {c second : Char} {kind : Token.Kind} (line column : Nat) (rest : List Char)
    (known : Vocabulary.pair? c second = some kind) :
    takeAhead line column c (second :: rest) =
      { tokens := .ok [{ kind, lexeme := String.ofList [c, second], line, column }], more := 1 } := by
  obtain ⟨⟨single, isMark, -⟩, operator, -⟩ := operators_of_pair? known
  have ahead : pairAhead? c (second :: rest) = some (second, kind) := by simp [pairAhead?, known]
  unfold takeAhead
  rw [if_neg (solid_of_mark? isMark).1, if_neg (exists_mark_of_isOperator operator).2, ahead]

/-- An operator is taken alone where it spells no longer one with the next character. -/
theorem takeAhead_single {c : Char} {rest : List Char} (line column : Nat) (operator : isOperator c)
    (noPair : ∀ second ∈ rest.head?, Vocabulary.pair? c second = none) :
    takeAhead line column c rest =
      { tokens := .ok [{ kind := loneKind c, lexeme := String.singleton c, line, column }],
        more := 0 } := by
  obtain ⟨⟨kind, isMark⟩, noQuote⟩ := exists_mark_of_isOperator operator
  obtain ⟨solid, lone⟩ := solid_of_mark? isMark
  have ahead : pairAhead? c rest = none := by
    unfold pairAhead?
    cases next : rest.head? with
    | none => rfl
    | some second => simp [noPair second next]
  unfold takeAhead
  rw [if_neg solid, if_neg noQuote, ahead, isMark, lone]

/-- The character behind an operator decides whether the two are taken together. -/
theorem takeAhead_operator {c : Char} (line column : Nat) (rest : List Char)
    (operator : isOperator c) :
    (∃ kind second later, rest = second :: later ∧ Vocabulary.pair? c second = some kind ∧
      takeAhead line column c rest =
        { tokens := .ok [{ kind, lexeme := String.ofList [c, second], line, column }],
          more := 1 }) ∨
      takeAhead line column c rest =
        { tokens := .ok [{ kind := loneKind c, lexeme := String.singleton c, line, column }],
          more := 0 } := by
  cases ahead : rest.head?.bind (Vocabulary.pair? c) with
  | some kind =>
    obtain ⟨second, here, known⟩ := Option.bind_eq_some_iff.mp ahead
    obtain ⟨later, rfl⟩ := List.head?_eq_some_iff.mp here
    exact .inl ⟨kind, second, later, rfl, known, takeAhead_pair line column later known⟩
  | none =>
    have alone : ∀ second ∈ rest.head?, Vocabulary.pair? c second = none :=
      Option.bind_eq_none_iff.mp ahead
    exact .inr (takeAhead_single line column operator alone)

/-- A run of operators is read by longest match, and what follows it is read on its own. -/
theorem lookAhead_operators {line column : Nat} {run later : List Char}
    (operators : ∀ c ∈ run, isOperator c) (ended : ∀ c ∈ later.head?, ¬ isOperator c) :
    lookAhead line column (run ++ later) =
      (lookAhead line (column + run.length) later).map (longestMatch line column run ++ ·) := by
  fun_induction longestMatch line column run with
  | case1 column =>
    change lookAhead line column later = _
    cases lookAhead line column later <;> rfl
  | case2 column c =>
    have noPair : ∀ second ∈ later.head?, Vocabulary.pair? c second = none := by
      intro second next
      cases known : Vocabulary.pair? c second with
      | none => rfl
      | some kind => exact absurd (operators_of_pair? known).2.2 (ended second next)
    rw [List.singleton_append, lookAhead,
      takeAhead_single line column (operators c List.mem_cons_self) noPair]
    change (lookAhead line (column + 1 + 0) later >>= _) = _
    cases lookAhead line (column + 1) later <;> rfl
  | case3 column c second rest kind known ih =>
    have behind := ih fun d listed =>
      operators d (List.mem_cons_of_mem _ (List.mem_cons_of_mem _ listed))
    rw [List.cons_append, List.cons_append, lookAhead, takeAhead_pair line column _ known]
    change (lookAhead line (column + 1 + 1) (rest ++ later) >>= _) = _
    rw [behind]
    have place : column + (c :: second :: rest).length = column + 2 + rest.length := by
      simp only [List.length_cons]
      omega
    rw [place]
    cases lookAhead line (column + 2 + rest.length) later <;> rfl
  | case4 column c second rest alone ih =>
    have behind := ih fun d listed => operators d (List.mem_cons_of_mem _ listed)
    have noPair : ∀ next ∈ (second :: rest ++ later).head?, Vocabulary.pair? c next = none := by
      intro next here
      obtain rfl : second = next := by simpa using here
      exact alone
    rw [List.cons_append, lookAhead,
      takeAhead_single line column (operators c List.mem_cons_self) noPair]
    change (lookAhead line (column + 1) (second :: rest ++ later) >>= _) = _
    rw [behind]
    have place : column + (c :: second :: rest).length = column + 1 + (second :: rest).length := by
      simp only [List.length_cons]
      omega
    rw [place]
    cases lookAhead line (column + 1 + (second :: rest).length) later <;> rfl

/-- Behind a beginning of a line that ends with no operator, the last token joins no operator. -/
theorem ready_of_readAs {text rest : List Char} {reversed : List Token} (h : ReadAs text reversed)
    (last : ∀ c ∈ text.getLast?, ¬ isOperator c) : Ready text.length reversed rest := by
  intro previous here next _
  obtain ⟨earlier, rfl⟩ := List.head?_eq_some_iff.mp here
  constructor
  · obtain ⟨tiles, tiled, tokens⟩ := h
    have listed : previous ∈ tiles.map (·.token) := by
      rw [tokens]
      exact List.mem_reverse.mpr List.mem_cons_self
    obtain ⟨tile, among, rfl⟩ := List.mem_map.mp listed
    have bounds := tiled.tiles.inside tile among
    omega
  · cases joined : joined? previous next text.length with
    | none => rfl
    | some operator =>
      -- Only an operator joins another one, and it would be the last character.
      obtain ⟨adjacent, first, others, kind, spelled, known, -⟩ := joined?_eq_some joined
      obtain ⟨before, c, rfl, -, single, -⟩ := h.exists_of_adjacent adjacent
      obtain ⟨rfl, -⟩ : first = c ∧ others = [] := by simpa [spelled] using single
      exact absurd (operators_of_pair? known).2.1 (last first (by simp))

/-- Where an operator starts a run outside strings, a line is read in two parts. -/
theorem codeTokens_append_operator {line : Nat} {before rest : List Char} {c : Char}
    (outside : modeAfter before = .code) (operator : isOperator c)
    (last : ∀ d ∈ before.getLast?, ¬ isOperator d) :
    codeTokens line (before ++ c :: rest) = do
      let front ← codeTokens line before
      let back ← lookAhead line before.length (c :: rest)
      return front ++ back := by
  obtain ⟨⟨kind, isMark⟩, -⟩ := exists_mark_of_isOperator operator
  obtain ⟨solid, -⟩ := solid_of_mark? isMark
  have cut : pieces (before ++ c :: rest) =
      pieces before ++ Piece.split false before.length [] (c :: rest) := by
    have ends : before.foldl Mode.after (.ofQuoted false) = .code := outside
    unfold pieces
    rw [split_append_mark rest solid isMark ends, split_mark _ [] rest solid isMark, runBefore_nil,
      Nat.zero_add]
    rfl
  unfold codeTokens
  rw [cut, List.foldlM_append]
  cases read : (pieces before).foldlM (addPiece line) [] with
  | error problem => rfl
  | ok reversed =>
    change Except.map _ (List.foldlM _ _ _) = (lookAhead line before.length (c :: rest) >>= _)
    rw [foldlM_split_lookAhead (ready_of_readAs (readAs_of_foldlM_pieces read) last)]
    cases lookAhead line before.length (c :: rest) <;>
      simp [Except.map, bind, Except.bind, pure, Except.pure]

/-- **Reading without look-ahead is reading with look-ahead**: a line of code gives the same tokens
or the same escape error either way. In particular a run of operators outside strings, however long,
is cut by longest match from left to right. -/
theorem codeTokens_eq_lookAhead (line : Nat) (text : List Char) :
    codeTokens line text = lookAhead line 0 text ∧
      ∀ before run later, text = before ++ (run ++ later) → modeAfter before = .code →
        run ≠ [] → (∀ c ∈ run, isOperator c) → (∀ c ∈ before.getLast?, ¬ isOperator c) →
        (∀ c ∈ later.head?, ¬ isOperator c) →
        codeTokens line text = do
          let front ← codeTokens line before
          let back ← lookAhead line (before.length + run.length) later
          return front ++ (longestMatch line before.length run ++ back) := by
  refine ⟨codeTokens_eq line text, ?_⟩
  rintro before run later rfl outside some operators last ended
  obtain ⟨c, rest, rfl⟩ := List.exists_cons_of_ne_nil some
  have first := operators c List.mem_cons_self
  rw [List.cons_append, codeTokens_append_operator outside first last, ← List.cons_append,
    lookAhead_operators operators ended]
  cases codeTokens line before with
  | error problem => rfl
  | ok front => cases lookAhead line (before.length + (c :: rest).length) later <;> rfl

/-- Behind a string, the run `+++=-` is cut into `++`, `+=` and `-`. -/
theorem codeTokens_eq_lookAhead_increments :
    modeAfter "\"+=\"".toList = .code ∧
      codeTokens 1 "\"+=\"+++=-a".toList = do
        let front ← codeTokens 1 "\"+=\"".toList
        let back ← lookAhead 1 9 "a".toList
        return front ++
          ([{ kind := .doublePlus, lexeme := "++", line := 1, column := 4 },
            { kind := .plusEqual, lexeme := "+=", line := 1, column := 6 },
            { kind := .minus, lexeme := "-", line := 1, column := 8 }] ++ back) := by
  have outside : modeAfter "\"+=\"".toList = .code := by decide +kernel
  have operators : ∀ c ∈ "+++=-".toList, isOperator c := List.all_eq_true.mp (by decide +kernel)
  have last : ∀ c ∈ "\"+=\"".toList.getLast?, ¬ isOperator c := by
    rintro c ⟨⟩
    decide +kernel
  have ended : ∀ c ∈ "a".toList.head?, ¬ isOperator c := by
    rintro c ⟨⟩
    decide +kernel
  exact ⟨outside, (codeTokens_eq_lookAhead 1 "\"+=\"+++=-a".toList).2 "\"+=\"".toList
    "+++=-".toList "a".toList (by decide +kernel) outside (by decide +kernel) operators last ended⟩

end ScriptLens
