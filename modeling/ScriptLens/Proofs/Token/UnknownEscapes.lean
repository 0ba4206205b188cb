import Mathlib.Data.List.Basic
import ScriptLens.Proofs.Token.LookAhead

/-! # Lines with unknown escapes
A line of code is dropped for the first escape in it that has no meaning, and for nothing else. The
escapes are counted here in the pieces of the line, which are said without a scanner: longest
stretches of characters that stay in a string, or that make up a word outside strings. Backslashes
are paired with the characters behind them from the left of each piece.
Main definitions:
* `escapePairs`: the escapes of a text with their columns.
* `Longest`, `PieceBetween`, `IsPiece`: the pieces of a line.
* `UnknownEscape`: an escape of a piece that has no meaning.
* `Scans`: reading some columns of a line fails for the first unknown escape there, or gives each
  piece there one token.
Main statements:
* `classify_error`, `Resolves.known`: a run fails for its first unknown escape only.
* `eq_of_longest`: a place starts one longest stretch at most.
* `longest_cutContent`: the content of a string is the longest stretch that stays in it.
* `Scans.append`: neighbouring columns are read one after the other.
* `exists_steps`, `scans_lookAhead`: one place, and the rest of a line.
* `unknown_escapes_of_line`: the error of a line, or the tokens of its pieces. -/

namespace ScriptLens

/-! ## Escapes of a text -/

/-- The escapes of a text that starts at `column`, paired from the left: the column of each
backslash and the character that it takes with it. A backslash at the very end takes none. -/
def escapePairs (column : Nat) : List Char → List (Nat × Char)
  | [] => []
  | '\\' :: letter :: rest => (column, letter) :: escapePairs (column + 2) rest
  | _ :: rest => escapePairs (column + 1) rest

/-- A character other than a backslash starts no escape. -/
theorem escapePairs_plain {c : Char} (column : Nat) (rest : List Char) (h : c ≠ '\\') :
    escapePairs column (c :: rest) = escapePairs (column + 1) rest := by
  rw [escapePairs]
  exact fun letter later same _ => h same

/-- The escapes of a text stand in it. -/
theorem bounds_of_mem_escapePairs {column : Nat} {text : List Char} {pair : Nat × Char}
    (h : pair ∈ escapePairs column text) : column ≤ pair.1 ∧ pair.1 < column + text.length := by
  fun_induction escapePairs column text with
  | case1 column => exact absurd h List.not_mem_nil
  | case2 column letter rest ih =>
    simp only [List.length_cons]
    rcases List.mem_cons.mp h with rfl | later
    · dsimp only
      omega
    · have behind := ih later
      omega
  | case3 column c rest _ ih =>
    have behind := ih h
    simp only [List.length_cons]
    omega

/-- Escapes that could be resolved have a meaning. -/
theorem Resolves.known {text resolved : List Char} (h : Resolves text resolved) (column : Nat) :
    ∀ pair ∈ escapePairs column text, Vocabulary.escape? pair.2 ≠ none := by
  induction h generalizing column with
  | nil => exact fun pair listed => absurd listed List.not_mem_nil
  | plain differs _ ih =>
    rw [escapePairs_plain column _ differs]
    exact ih (column + 1)
  | pair known _ ih =>
    refine List.forall_mem_cons.mpr ⟨?_, ih (column + 2)⟩
    rw [known]
    exact Option.some_ne_none _
  | last => exact fun pair listed => absurd listed List.not_mem_nil

/-- Resolving the escapes of a text fails for the first one without a meaning. -/
theorem unescape_error {line column : Nat} {text : List Char} {problem : EscapeError}
    (h : unescape line column text = .error problem) :
    ((problem.column, problem.escape) ∈ escapePairs column text ∧
      Vocabulary.escape? problem.escape = none) ∧
      ∀ pair ∈ escapePairs column text, Vocabulary.escape? pair.2 = none →
        problem.column ≤ pair.1 := by
  fun_induction unescape line column text with
  | case1 => cases h
  | case2 => cases h
  | case3 column letter rest meaning known ih =>
    obtain ⟨⟨listed, unknown⟩, first⟩ := ih (error_of_map_eq_error h)
    refine ⟨⟨List.mem_cons_of_mem _ listed, unknown⟩, List.forall_mem_cons.mpr ⟨?_, first⟩⟩
    rw [known]
    exact fun none => absurd none (Option.some_ne_none _)
  | case4 column letter rest unknown =>
    cases h
    refine ⟨⟨List.mem_cons_self, unknown⟩, List.forall_mem_cons.mpr ⟨?_, ?_⟩⟩
    · exact fun _ => Nat.le_refl _
    · intro pair listed _
      have behind := bounds_of_mem_escapePairs listed
      dsimp only
      omega
  | case5 column c next rest differs ih =>
    rw [escapePairs_plain column _ differs]
    exact ih (error_of_map_eq_error h)

/-- A run fails for its first escape without a meaning. -/
theorem classify_error {line column : Nat} {text : List Char} {problem : EscapeError}
    (h : classify line column text = .error problem) :
    problem.line = line ∧
      ((problem.column, problem.escape) ∈ escapePairs column text ∧
        Vocabulary.escape? problem.escape = none) ∧
      ∀ pair ∈ escapePairs column text, Vocabulary.escape? pair.2 = none →
        problem.column ≤ pair.1 := by
  unfold classify at h
  dsimp only at h
  split at h
  · cases h
  · split at h
    · cases h
    · split at h
      · cases h
      · have failed := error_of_map_eq_error h
        exact ⟨line_of_unescape_error failed, unescape_error failed⟩

/-! ## Pieces of a line -/

/-- Some characters stay as they should, each beginning of them included, and the next character
would not: a longest stretch. -/
structure Longest (stays : List Char → Prop) (stretch later : List Char) : Prop where
  /-- Every beginning stays. -/
  inside : ∀ part, part <+: stretch → stays part
  /-- One more character does not. -/
  ended : ∀ c ∈ later.head?, ¬ stays (stretch ++ [c])

/-- A piece of a line, between what stands before it and what follows it. -/
inductive PieceBetween : List Char → List Char → List Char → Prop where
  /-- The content of a string that is not empty: behind a quote outside strings, the characters that
  do not leave the string. -/
  | content {start content later : List Char} (outside : modeAfter start = .code)
      (some : content ≠ [])
      (longest : Longest (fun part => modeAfter (start ++ '"' :: part) ≠ .code) content later) :
      PieceBetween (start ++ ['"']) content later
  /-- A word outside strings, which no character before or behind it belongs to. -/
  | word {before word later : List Char} (outside : modeAfter before = .code) (some : word ≠ [])
      (fresh : ∀ c ∈ before.getLast?, ¬ isWordPart c)
      (longest : Longest (fun part => ∀ c ∈ part, isWordPart c) word later) :
      PieceBetween before word later

/-- A piece of a line that starts at a column. -/
def IsPiece (text : List Char) (start : Nat) (piece : List Char) : Prop :=
  ∃ before later, text = before ++ (piece ++ later) ∧ before.length = start ∧
    PieceBetween before piece later

/-- An escape without a meaning in a line: the column of its backslash, and the character behind
it. -/
def UnknownEscape (text : List Char) (column : Nat) (letter : Char) : Prop :=
  ∃ start piece, IsPiece text start piece ∧ (column, letter) ∈ escapePairs start piece ∧
    Vocabulary.escape? letter = none

/-- A place starts one longest stretch at most. -/
theorem eq_of_longest {stays : List Char → Prop} {stretch other later behind : List Char}
    (longest : Longest stays stretch later) (otherLongest : Longest stays other behind)
    (whole : stretch ++ later = other ++ behind) : stretch = other := by
  -- The longer one would hold the character that ends the shorter one.
  rcases List.append_eq_append_iff.mp whole with ⟨more, rfl, rfl⟩ | ⟨more, rfl, rfl⟩
  · cases more with
    | nil => rw [List.append_nil]
    | cons c more =>
      refine absurd (otherLongest.inside (stretch ++ [c]) ?_) (longest.ended c rfl)
      exact ⟨more, by simp⟩
  · cases more with
    | nil => rw [List.append_nil]
    | cons c more =>
      refine absurd (longest.inside (other ++ [c]) ?_) (otherLongest.ended c rfl)
      exact ⟨more, by simp⟩

/-- Nothing is a longest stretch where the next character would not stay. -/
theorem longest_nil {stays : List Char → Prop} {later : List Char} (start : stays [])
    (ended : ∀ c ∈ later.head?, ¬ stays [c]) : Longest stays [] later where
  inside _ short := List.prefix_nil.mp short ▸ start
  ended := ended

/-- A character in front of a longest stretch. -/
theorem Longest.cons {stays : List Char → Prop} {c : Char} {stretch later : List Char}
    (start : stays []) (rest : Longest (fun part => stays (c :: part)) stretch later) :
    Longest stays (c :: stretch) later where
  inside part short := by
    rcases List.prefix_cons_iff.mp short with rfl | ⟨tail, rfl, shorter⟩
    · exact start
    · exact rest.inside tail shorter
  ended := rest.ended

/-- A piece is not empty. -/
theorem PieceBetween.ne_nil {before piece later : List Char} (h : PieceBetween before piece later) :
    piece ≠ [] := by
  cases h with
  | content _ some _ => exact some
  | word _ some _ _ => exact some

/-- Outside strings a piece is a word. -/
theorem PieceBetween.word_of_code {before piece later : List Char}
    (h : PieceBetween before piece later) (outside : modeAfter before = .code) :
    (∀ c ∈ before.getLast?, ¬ isWordPart c) ∧
      Longest (fun part => ∀ c ∈ part, isWordPart c) piece later := by
  cases h with
  | content _ _ longest => exact absurd outside (longest.inside [] List.nil_prefix)
  | word _ _ fresh longest => exact ⟨fresh, longest⟩

/-- Inside a string a piece is the content right behind the opening quote. -/
theorem PieceBetween.content_of_not_code {before piece later : List Char}
    (h : PieceBetween before piece later) (inside : modeAfter before ≠ .code) :
    ∃ start, before = start ++ ['"'] ∧ modeAfter start = .code ∧
      Longest (fun part => modeAfter (start ++ '"' :: part) ≠ .code) piece later := by
  cases h with
  | @content start _ _ outside _ longest => exact ⟨start, rfl, outside, longest⟩
  | word outside _ _ _ => exact absurd outside inside

/-- A piece that starts among some characters of a line, seen from there. -/
theorem exists_of_isPiece {done taken later piece : List Char} {start : Nat}
    (h : IsPiece (done ++ (taken ++ later)) start piece) (low : done.length ≤ start)
    (high : start < done.length + taken.length) :
    ∃ part remaining behind, taken = part ++ remaining ∧ remaining ≠ [] ∧
      start = done.length + part.length ∧ remaining ++ later = piece ++ behind ∧
      PieceBetween (done ++ part) piece behind := by
  obtain ⟨before, behind, whole, rfl, between⟩ := h
  obtain ⟨part, remaining, rfl, width⟩ : ∃ part remaining, taken = part ++ remaining ∧
      part.length = before.length - done.length := by
    refine ⟨taken.take (before.length - done.length), taken.drop (before.length - done.length),
      (List.take_append_drop _ _).symm, List.length_take_of_le ?_⟩
    omega
  rw [List.length_append] at high
  have lengths : (done ++ part).length = before.length := by
    rw [List.length_append]
    omega
  have parts : (done ++ part) ++ (remaining ++ later) = before ++ (piece ++ behind) := by
    rw [← whole]
    simp
  obtain ⟨rfl, rest⟩ := List.append_inj parts lengths
  refine ⟨part, remaining, behind, rfl, ?_, List.length_append, rest, between⟩
  rintro rfl
  rw [List.length_nil, List.length_append] at high
  omega

/-! ## Places outside pieces -/

/-- Reading may go on behind some characters: what comes next stands outside strings, and it is not
the rest of a word. -/
def Fresh (done rest : List Char) : Prop :=
  ∀ c ∈ rest.head?, modeAfter done = .code ∧
    (isWordPart c → ∀ d ∈ done.getLast?, ¬ isWordPart d)

/-- No quote belongs to a word. -/
theorem not_isWordPart_quote : ¬ isWordPart '"' := by
  decide

/-- Characters without a quote enter no string. -/
theorem modeAfter_append_of_code {done part : List Char} (outside : modeAfter done = .code)
    (noQuote : '"' ∉ part) : modeAfter (done ++ part) = .code := by
  rw [modeAfter_append, outside]
  induction part with
  | nil => rfl
  | cons c part ih =>
    have stays : Mode.after .code c = .code := if_neg (Ne.symm (List.ne_of_not_mem_cons noQuote))
    rw [List.foldl_cons, stays]
    exact ih (List.not_mem_of_not_mem_cons noQuote)

/-- A quote outside strings enters one, and the characters behind it are followed from there. -/
theorem modeAfter_quote {done : List Char} (outside : modeAfter done = .code) (part : List Char) :
    modeAfter (done ++ '"' :: part) = part.foldl Mode.after .quoted := by
  rw [modeAfter_append, outside]
  rfl

section

variable {done taken later : List Char}

/-- No piece starts among characters outside strings that belong to no word. -/
theorem not_isPiece_of_separators (outside : modeAfter done = .code)
    (separate : ∀ c ∈ taken, ¬ isWordPart c ∧ c ≠ '"') :
    ∀ start piece, IsPiece (done ++ (taken ++ later)) start piece → done.length ≤ start →
      ¬ start < done.length + taken.length := by
  intro start piece isPiece low high
  obtain ⟨part, remaining, behind, rfl, some, -, rest, between⟩ :=
    exists_of_isPiece isPiece low high
  have noQuote : '"' ∉ part := fun listed => (separate '"' (List.mem_append_left _ listed)).2 rfl
  obtain ⟨-, longest⟩ := between.word_of_code (modeAfter_append_of_code outside noQuote)
  -- The first character of the piece would be one of them.
  obtain ⟨c, others, rfl⟩ := List.exists_cons_of_ne_nil between.ne_nil
  obtain ⟨d, remaining, rfl⟩ := List.exists_cons_of_ne_nil some
  obtain rfl : d = c := (List.cons.inj rest).1
  exact (separate d (by simp)).1 (longest.inside _ List.prefix_rfl d List.mem_cons_self)

/-- Behind characters outside strings that belong to no word, reading may go on. -/
theorem fresh_of_separators (outside : modeAfter done = .code) (some : taken ≠ [])
    (separate : ∀ c ∈ taken, ¬ isWordPart c ∧ c ≠ '"') : Fresh (done ++ taken) later := by
  intro c _
  have noQuote : '"' ∉ taken := fun listed => (separate '"' listed).2 rfl
  refine ⟨modeAfter_append_of_code outside noQuote, fun _ d last => ?_⟩
  rcases List.eq_nil_or_concat' taken with rfl | ⟨front, final, rfl⟩
  · exact absurd rfl some
  · obtain rfl : final = d := by simpa using last
    exact (separate final (by simp)).1

/-- A word that nothing before or behind it belongs to is a piece. -/
theorem isPiece_word {word : List Char} (fresh : Fresh done (word ++ later)) (some : word ≠ [])
    (longest : Longest (fun part => ∀ c ∈ part, isWordPart c) word later) :
    IsPiece (done ++ (word ++ later)) done.length word := by
  obtain ⟨c, others, rfl⟩ := List.exists_cons_of_ne_nil some
  obtain ⟨outside, apart⟩ := fresh c rfl
  have isPart := longest.inside _ List.prefix_rfl c List.mem_cons_self
  exact ⟨done, later, rfl, rfl, .word outside some (apart isPart) longest⟩

/-- No other piece starts in a word. -/
theorem eq_of_isPiece_word {word : List Char} (outside : modeAfter done = .code)
    (longest : Longest (fun part => ∀ c ∈ part, isWordPart c) word later) :
    ∀ start piece, IsPiece (done ++ (word ++ later)) start piece → done.length ≤ start →
      start < done.length + word.length → start = done.length ∧ piece = word := by
  intro start piece isPiece low high
  obtain ⟨part, remaining, behind, rfl, -, rfl, rest, between⟩ := exists_of_isPiece isPiece low high
  have parts : ∀ c ∈ part, isWordPart c := longest.inside part (List.prefix_append part remaining)
  have noQuote : '"' ∉ part := fun listed => not_isWordPart_quote (parts '"' listed)
  obtain ⟨apart, otherLongest⟩ := between.word_of_code (modeAfter_append_of_code outside noQuote)
  rcases List.eq_nil_or_concat' part with rfl | ⟨front, last, rfl⟩
  · exact ⟨rfl, (eq_of_longest longest otherLongest rest).symm⟩
  · -- The character before the piece belongs to the word as well.
    exact absurd (parts last (by simp)) (apart last (by simp))

/-- The content of a string that is not empty is a piece. -/
theorem isPiece_content {content : List Char} (outside : modeAfter done = .code)
    (some : content ≠ [])
    (longest : Longest (fun part => modeAfter (done ++ '"' :: part) ≠ .code) content later) :
    IsPiece (done ++ '"' :: (content ++ later)) (done.length + 1) content :=
  ⟨done ++ ['"'], later, by simp, by simp, .content outside some longest⟩

/-- No other piece starts in a string, its quotes included. -/
theorem eq_of_isPiece_content {content closing : List Char} (outside : modeAfter done = .code)
    (longest : Longest (fun part => modeAfter (done ++ '"' :: part) ≠ .code) content
      (closing ++ later)) (short : closing.length ≤ 1) :
    ∀ start piece, IsPiece (done ++ (('"' :: (content ++ closing)) ++ later)) start piece →
      done.length ≤ start → start < done.length + ('"' :: (content ++ closing)).length →
      start = done.length + 1 ∧ piece = content := by
  intro start piece isPiece low high
  obtain ⟨part, remaining, behind, whole, some, rfl, rest, between⟩ :=
    exists_of_isPiece isPiece low high
  cases part with
  | nil =>
    -- Outside strings a piece is a word, and the quote starts none.
    rw [List.append_nil] at between
    obtain ⟨-, words⟩ := between.word_of_code outside
    obtain ⟨c, others, rfl⟩ := List.exists_cons_of_ne_nil between.ne_nil
    rw [List.nil_append] at whole
    rw [← whole] at rest
    obtain rfl : '"' = c := (List.cons.inj rest).1
    exact absurd (words.inside _ List.prefix_rfl '"' List.mem_cons_self) not_isWordPart_quote
  | cons quote part =>
    obtain rfl : '"' = quote := (List.cons.inj whole).1
    have inner : content ++ closing = part ++ remaining := (List.cons.inj whole).2
    have shorter : part.length ≤ content.length := by
      have lengths := congrArg List.length inner
      have := List.length_pos_iff.mpr some
      simp only [List.length_append] at lengths
      omega
    have isPrefix : part <+: content :=
      List.prefix_of_prefix_length_le ⟨remaining, inner.symm⟩ (List.prefix_append content closing)
        shorter
    obtain ⟨start, ends, startsOutside, otherLongest⟩ :=
      between.content_of_not_code (longest.inside part isPrefix)
    rcases List.eq_nil_or_concat' part with rfl | ⟨front, last, rfl⟩
    · obtain ⟨rfl, -⟩ := List.append_inj' ends rfl
      refine ⟨rfl, (eq_of_longest longest otherLongest ?_).symm⟩
      rw [← rest, ← List.append_assoc, inner, List.nil_append]
    · -- Only an opening quote stands before a content, and behind it no string is opened.
      have split : (done ++ '"' :: front) ++ [last] = start ++ ['"'] := by
        rw [← ends]
        simp
      obtain ⟨rfl, -⟩ := List.append_inj' split rfl
      have inside : front <+: content := (List.prefix_append front [last]).trans isPrefix
      exact absurd startsOutside (longest.inside front inside)

end

/-- The content cut off behind an opening quote is the longest stretch that stays in the string. -/
theorem longest_cutContent {done : List Char} (outside : modeAfter done = .code)
    (rest : List Char) :
    Longest (fun part => modeAfter (done ++ '"' :: part) ≠ .code) (cutContent rest).1
      (cutContent rest).2 := by
  simp only [modeAfter_quote outside]
  have opened : [].foldl Mode.after .quoted ≠ .code := by decide
  have escaping : ['\\'].foldl Mode.after .quoted ≠ .code := by decide
  fun_induction cutContent rest with
  | case1 => exact longest_nil opened fun c none => by cases none
  | case2 escaped rest ih =>
    -- The backslash and the character behind it stay, and the string goes on as before.
    exact .cons opened (.cons escaping ih)
  | case3 rest noPair =>
    refine longest_nil opened fun c next => ?_
    obtain rfl : '"' = c := by simpa using next
    exact fun inside => inside rfl
  | case4 c rest noPair noQuote ih =>
    by_cases escape : c = '\\'
    · -- A backslash with nothing behind it is the last character of the line.
      cases rest with
      | cons escaped rest => exact absurd rfl (noPair escaped rest escape)
      | nil =>
        subst escape
        exact .cons opened (longest_nil escaping fun d none => by cases none)
    · have stays : Mode.after .quoted c = .quoted := by simp [Mode.after, escape, noQuote]
      refine .cons opened ?_
      simpa only [List.foldl_cons, stays] using ih

/-! ## Reading some columns -/

/-- Whether a token starts among `width` columns from `column` on. -/
def Token.startsIn (column width : Nat) (token : Token) : Bool :=
  column ≤ token.column && token.column < column + width

/-- Of some tokens, exactly one starts in a piece: it starts with the piece, and its lexeme is the
piece with every escape replaced by what it stands for. -/
def ReadsPiece (tokens : List Token) (start : Nat) (piece : List Char) : Prop :=
  ∃ token, tokens.filter (·.startsIn start piece.length) = [token] ∧ token.column = start ∧
    Resolves piece token.lexeme.toList

/-- An escape without a meaning in a piece that starts at a column from `low` up to `high`. -/
def UnknownBetween (text : List Char) (low high column : Nat) (letter : Char) : Prop :=
  ∃ start piece, (low ≤ start ∧ start < high) ∧ IsPiece text start piece ∧
    (column, letter) ∈ escapePairs start piece ∧ Vocabulary.escape? letter = none

/-- The result of reading a line from the column `low` up to the column `high`. -/
structure Scans (line : Nat) (text : List Char) (low high : Nat)
    (result : Except EscapeError (List Token)) : Prop where
  /-- Pieces that start there end there. -/
  closed : ∀ start piece, IsPiece text start piece → low ≤ start → start < high →
    start + piece.length ≤ high
  /-- An error tells the line and the first unknown escape. -/
  error : ∀ problem, result = .error problem → problem.line = line ∧
    UnknownBetween text low high problem.column problem.escape ∧
      ∀ column letter, UnknownBetween text low high column letter → problem.column ≤ column
  /-- Without an error there is no unknown escape. -/
  known : ∀ tokens, result = .ok tokens →
    ∀ column letter, ¬ UnknownBetween text low high column letter
  /-- The tokens start at these columns. -/
  bounds : ∀ tokens, result = .ok tokens →
    ∀ token ∈ tokens, low ≤ token.column ∧ token.column < high
  /-- Every piece is read as one of the tokens. -/
  reads : ∀ tokens, result = .ok tokens → ∀ start piece, IsPiece text start piece → low ≤ start →
    start < high → ReadsPiece tokens start piece

/-- Tokens that start elsewhere do not count for a piece. -/
theorem filter_startsIn_eq_nil {tokens : List Token} {column width : Nat}
    (elsewhere : ∀ token ∈ tokens, token.column < column ∨ column + width ≤ token.column) :
    tokens.filter (·.startsIn column width) = [] := by
  refine List.filter_eq_nil_iff.mpr fun token listed => ?_
  have place := elsewhere token listed
  simp only [Token.startsIn, Bool.and_eq_true, decide_eq_true_eq]
  omega

section

variable {line low middle high : Nat} {text : List Char}
  {first second : Except EscapeError (List Token)}

/-- The unknown escapes of neighbouring columns. -/
theorem UnknownBetween.cases {column : Nat} {letter : Char}
    (h : UnknownBetween text low high column letter) (middle : Nat) :
    UnknownBetween text low middle column letter ∨
      UnknownBetween text middle high column letter := by
  obtain ⟨start, piece, ⟨above, below⟩, isPiece, unknown⟩ := h
  rcases Nat.lt_or_ge start middle with before | behind
  · exact .inl ⟨start, piece, ⟨above, before⟩, isPiece, unknown⟩
  · exact .inr ⟨start, piece, ⟨behind, below⟩, isPiece, unknown⟩

/-- Unknown escapes are among the columns of their pieces. -/
theorem Scans.unknown_bounds (scans : Scans line text low high first) {column : Nat} {letter : Char}
    (h : UnknownBetween text low high column letter) : low ≤ column ∧ column < high := by
  obtain ⟨start, piece, ⟨above, below⟩, isPiece, listed, -⟩ := h
  have ends := scans.closed start piece isPiece above below
  have inside := bounds_of_mem_escapePairs listed
  dsimp only at inside
  omega

/-- **Neighbouring columns are read one after the other**: an error on the left comes first, and the
tokens on the right follow those on the left. -/
theorem Scans.append (left : Scans line text low middle first)
    (right : Scans line text middle high second) (start : low ≤ middle) (stop : middle ≤ high) :
    Scans line text low high (first.bind fun front => second.map (front ++ ·)) where
  closed column piece isPiece above below := by
    rcases Nat.lt_or_ge column middle with before | behind
    · exact Nat.le_trans (left.closed column piece isPiece above before) stop
    · exact right.closed column piece isPiece behind below
  error problem failed := by
    cases first with
    | error found =>
      obtain rfl : found = problem := Except.error.inj failed
      obtain ⟨number, ⟨column, piece, ⟨above, below⟩, unknown⟩, leftmost⟩ := left.error found rfl
      have here : UnknownBetween text low middle found.column found.escape :=
        ⟨column, piece, ⟨above, below⟩, unknown⟩
      refine ⟨number, ⟨column, piece, ⟨above, Nat.lt_of_lt_of_le below stop⟩, unknown⟩, ?_⟩
      intro other letter among
      rcases among.cases middle with before | behind
      · exact leftmost other letter before
      · -- What is unknown on the left lies before the middle, and on the right behind it.
        have stops := left.unknown_bounds here
        have starts := right.unknown_bounds behind
        omega
    | ok front =>
      have found := error_of_map_eq_error failed
      obtain ⟨number, ⟨column, piece, ⟨above, below⟩, unknown⟩, leftmost⟩ :=
        right.error problem found
      refine ⟨number, ⟨column, piece, ⟨Nat.le_trans start above, below⟩, unknown⟩, ?_⟩
      intro other letter among
      rcases among.cases middle with before | behind
      · -- The left part has been read, so nothing is unknown there.
        exact absurd before (left.known front rfl other letter)
      · exact leftmost other letter behind
  known tokens read column letter among := by
    obtain ⟨front, rfl, later⟩ := exists_of_bind_eq_ok read
    obtain ⟨back, rfl, -⟩ := exists_of_map_eq_ok later
    rcases among.cases middle with before | behind
    · exact left.known front rfl column letter before
    · exact right.known back rfl column letter behind
  bounds tokens read := by
    obtain ⟨front, rfl, later⟩ := exists_of_bind_eq_ok read
    obtain ⟨back, rfl, rfl⟩ := exists_of_map_eq_ok later
    refine List.forall_mem_append.mpr ⟨fun token listed => ?_, fun token listed => ?_⟩
    · have place := left.bounds front rfl token listed
      omega
    · have place := right.bounds back rfl token listed
      omega
  reads tokens read column piece isPiece above below := by
    obtain ⟨front, rfl, later⟩ := exists_of_bind_eq_ok read
    obtain ⟨back, rfl, rfl⟩ := exists_of_map_eq_ok later
    rcases Nat.lt_or_ge column middle with before | behind
    · obtain ⟨token, only, place, resolves⟩ :=
        left.reads front rfl column piece isPiece above before
      have ends := left.closed column piece isPiece above before
      have none : back.filter (·.startsIn column piece.length) = [] :=
        filter_startsIn_eq_nil fun other listed =>
          .inr (Nat.le_trans ends (right.bounds back rfl other listed).1)
      exact ⟨token, by rw [List.filter_append, only, none, List.append_nil], place, resolves⟩
    · obtain ⟨token, only, place, resolves⟩ :=
        right.reads back rfl column piece isPiece behind below
      have none : front.filter (·.startsIn column piece.length) = [] :=
        filter_startsIn_eq_nil fun other listed =>
          .inl (Nat.lt_of_lt_of_le (left.bounds front rfl other listed).2 behind)
      exact ⟨token, by rw [List.filter_append, only, none, List.nil_append], place, resolves⟩

/-- Columns at which no piece starts are read without an error. -/
theorem scans_of_no_piece {tokens : List Token}
    (none : ∀ start piece, IsPiece text start piece → low ≤ start → ¬ start < high)
    (bounds : ∀ token ∈ tokens, low ≤ token.column ∧ token.column < high) :
    Scans line text low high (.ok tokens) where
  closed start piece isPiece above below := absurd below (none start piece isPiece above)
  error problem failed := by cases failed
  known read found column letter := by
    rintro ⟨start, piece, ⟨above, below⟩, isPiece, -⟩
    exact none start piece isPiece above below
  bounds read found := Except.ok.inj found ▸ bounds
  reads read found start piece isPiece above below := absurd below (none start piece isPiece above)

/-- Columns at which one piece starts are read as its token, among tokens that start elsewhere. -/
theorem scans_of_run {start : Nat} {run : List Char} {opening closing : List Token}
    (isPiece : IsPiece text start run)
    (only : ∀ column piece, IsPiece text column piece → low ≤ column → column < high →
      column = start ∧ piece = run)
    (begins : low ≤ start) (ends : start + run.length ≤ high) (some : run ≠ [])
    (before : ∀ token ∈ opening, low ≤ token.column ∧ token.column < start)
    (behind : ∀ token ∈ closing, start + run.length ≤ token.column ∧ token.column < high) :
    Scans line text low high
      ((classify line start run).map fun token => opening ++ token :: closing) := by
  have width : 0 < run.length := List.length_pos_iff.mpr some
  -- The run is the only piece there, so its unknown escapes are all there are.
  have among (column : Nat) (letter : Char) : UnknownBetween text low high column letter ↔
      (column, letter) ∈ escapePairs start run ∧ Vocabulary.escape? letter = none := by
    constructor
    · rintro ⟨other, piece, ⟨above, below⟩, isOther, unknown⟩
      obtain ⟨rfl, rfl⟩ := only other piece isOther above below
      exact unknown
    · exact fun unknown => ⟨start, run, ⟨begins, by omega⟩, isPiece, unknown⟩
  constructor
  case closed =>
    intro column piece isOther above below
    obtain ⟨rfl, rfl⟩ := only column piece isOther above below
    exact ends
  case error =>
    intro problem failed
    obtain ⟨number, unknown, leftmost⟩ := classify_error (error_of_map_eq_error failed)
    refine ⟨number, (among _ _).mpr unknown, fun column letter other => ?_⟩
    obtain ⟨listed, hasNone⟩ := (among column letter).mp other
    exact leftmost (column, letter) listed hasNone
  case known =>
    intro tokens read column letter unknown
    obtain ⟨token, classified, -⟩ := exists_of_map_eq_ok read
    obtain ⟨listed, hasNone⟩ := (among column letter).mp unknown
    exact (resolves_of_classify classified).2.known start _ listed hasNone
  case bounds =>
    intro tokens read
    obtain ⟨token, classified, rfl⟩ := exists_of_map_eq_ok read
    have place := (resolves_of_classify classified).1
    refine List.forall_mem_append.mpr ⟨fun other listed => ?_,
      List.forall_mem_cons.mpr ⟨?_, fun other listed => ?_⟩⟩
    · have := before other listed
      omega
    · omega
    · have := behind other listed
      omega
  case reads =>
    intro tokens read column piece isOther above below
    obtain ⟨rfl, rfl⟩ := only column piece isOther above below
    obtain ⟨token, classified, rfl⟩ := exists_of_map_eq_ok read
    obtain ⟨place, resolves⟩ := resolves_of_classify classified
    have here : token.startsIn column piece.length := by
      simp only [Token.startsIn, Bool.and_eq_true, decide_eq_true_eq]
      omega
    refine ⟨token, ?_, place, resolves⟩
    rw [List.filter_append, filter_startsIn_eq_nil fun other listed => .inl (before other listed).2,
      List.nil_append, List.filter_cons_of_pos here,
      filter_startsIn_eq_nil fun other listed => .inr (behind other listed).1]

end

/-! ## One place -/

/-- At a place some characters are read, and reading may go on behind them. -/
structure Steps (line : Nat) (done taken later : List Char)
    (tokens : Except EscapeError (List Token)) : Prop where
  /-- The characters are read. -/
  scans : Scans line (done ++ (taken ++ later)) done.length (done.length + taken.length) tokens
  /-- What comes next starts afresh. -/
  fresh : Fresh (done ++ taken) later

/-- A piece is not empty. -/
theorem IsPiece.ne_nil {text piece : List Char} {start : Nat} (h : IsPiece text start piece) :
    piece ≠ [] := by
  obtain ⟨before, later, -, -, between⟩ := h
  exact between.ne_nil

section

variable {line : Nat} {done later : List Char}

/-- White space and operators hold no piece. -/
theorem steps_separators {taken : List Char} {tokens : List Token}
    (outside : modeAfter done = .code) (some : taken ≠ [])
    (separate : ∀ c ∈ taken, ¬ isWordPart c ∧ c ≠ '"')
    (here : ∀ token ∈ tokens, token.column = done.length) :
    Steps line done taken later (.ok tokens) where
  scans := by
    refine scans_of_no_piece (not_isPiece_of_separators outside separate) fun token listed => ?_
    have width : 0 < taken.length := List.length_pos_iff.mpr some
    have place := here token listed
    omega
  fresh := fresh_of_separators outside some separate

/-- A word is one piece. -/
theorem steps_word {word : List Char} (fresh : Fresh done (word ++ later)) (some : word ≠ [])
    (parts : ∀ c ∈ word, isWordPart c) (ended : ∀ c ∈ later.head?, ¬ isWordPart c) :
    Steps line done word later ((classify line done.length word).map ([·])) := by
  have longest : Longest (fun part => ∀ c ∈ part, isWordPart c) word later :=
    ⟨fun part short c listed => parts c (short.subset listed),
      fun c next whole => ended c next (whole c (by simp))⟩
  obtain ⟨first, others, rfl⟩ := List.exists_cons_of_ne_nil some
  have outside : modeAfter done = .code := (fresh first rfl).1
  have noQuote : '"' ∉ first :: others := fun listed => not_isWordPart_quote (parts '"' listed)
  constructor
  · exact scans_of_run (isPiece_word fresh some longest) (eq_of_isPiece_word outside longest)
      (Nat.le_refl _) (Nat.le_refl _) some (fun token none => absurd none List.not_mem_nil)
      (fun token none => absurd none List.not_mem_nil)
  · intro c next
    exact ⟨modeAfter_append_of_code outside noQuote, fun part => absurd part (ended c next)⟩

/-- Behind a string reading may go on, and a string left open ends the line. -/
theorem fresh_behind_string {content closing : List Char}
    (longest : Longest (fun part => modeAfter (done ++ '"' :: part) ≠ .code) content
      (closing ++ later))
    (ending : closing = [] ∧ later = [] ∨ closing = ['"']) :
    Fresh (done ++ '"' :: (content ++ closing)) later := by
  intro c next
  rcases ending with ⟨-, rfl⟩ | rfl
  · cases next
  · have leaves : modeAfter (done ++ '"' :: (content ++ ['"'])) = .code := by
      simpa using longest.ended '"' rfl
    have final : (done ++ '"' :: (content ++ ['"'])).getLast? = some '"' := by
      rw [← List.cons_append, ← List.append_assoc]
      exact List.getLast?_concat
    refine ⟨leaves, fun _ d last => ?_⟩
    obtain rfl : '"' = d := Option.some.inj (final.symm.trans last)
    exact not_isWordPart_quote

/-- A run that is not empty is read as one token. -/
theorem map_runTokens {column : Nat} {run : List Char} (f : List Token → List Token)
    (some : run ≠ []) :
    (runTokens line column run).map f = (classify line column run).map fun token => f [token] := by
  have isSome : run.isEmpty = false := by simpa using some
  rw [runTokens, isSome]
  cases classify line column run <;> rfl

/-- A string holds one piece, unless it is empty. -/
theorem steps_string {content : List Char} (closing : List Char) (outside : modeAfter done = .code)
    (longest : Longest (fun part => modeAfter (done ++ '"' :: part) ≠ .code) content
      (closing ++ later))
    (ending : closing = [] ∧ later = [] ∨ closing = ['"']) :
    Steps line done ('"' :: (content ++ closing)) later
      ((runTokens line (done.length + 1) content).map fun inside =>
        quoteAt line done.length ::
          (inside ++ closing.map fun _ => quoteAt line (done.length + 1 + content.length))) := by
  have short : closing.length ≤ 1 := by
    rcases ending with ⟨rfl, -⟩ | rfl <;> simp
  have only := eq_of_isPiece_content outside longest short
  have behind : ∀ token ∈ closing.map fun _ => quoteAt line (done.length + 1 + content.length),
      done.length + 1 + content.length ≤ token.column ∧
        token.column < done.length + ('"' :: (content ++ closing)).length := by
    intro token listed
    obtain ⟨quote, among, rfl⟩ := List.mem_map.mp listed
    have width : 0 < closing.length := List.length_pos_of_mem among
    simp only [quoteAt, List.length_cons, List.length_append]
    omega
  constructor
  · by_cases some : content = []
    · subst some
      refine scans_of_no_piece ?_ (List.forall_mem_cons.mpr ⟨?_, fun token listed => ?_⟩)
      · intro start piece isPiece above below
        exact isPiece.ne_nil (only start piece isPiece above below).2
      · simp [quoteAt]
      · have place := behind token listed
        simp only [List.length_nil, Nat.add_zero] at place
        omega
    · have isPiece : IsPiece (done ++ (('"' :: (content ++ closing)) ++ later)) (done.length + 1)
          content := by
        simpa using isPiece_content outside some longest
      have before : ∀ token ∈ [quoteAt line done.length],
          done.length ≤ token.column ∧ token.column < done.length + 1 := by
        intro token listed
        rw [List.mem_singleton.mp listed]
        exact ⟨Nat.le_refl _, Nat.lt_succ_self _⟩
      rw [map_runTokens _ some]
      refine scans_of_run isPiece only (Nat.le_succ _) ?_ some before behind
      simp only [List.length_cons, List.length_append]
      omega
  · exact fresh_behind_string longest ending

end

/-- White space belongs to no word and bounds no string. -/
theorem separate_of_isBlank {c : Char} (isBlank : Text.isBlank c) : ¬ isWordPart c ∧ c ≠ '"' := by
  constructor
  · exact fun part => (isWordPart_iff.mp part).1 isBlank
  · rintro rfl
    exact absurd isBlank (by decide)

/-- Operators belong to no word and bound no string. -/
theorem separate_of_isOperator {c : Char} (operator : isOperator c) : ¬ isWordPart c ∧ c ≠ '"' := by
  obtain ⟨⟨kind, isMark⟩, noQuote⟩ := exists_mark_of_isOperator operator
  refine ⟨fun part => ?_, noQuote⟩
  rw [(isWordPart_iff.mp part).2] at isMark
  cases isMark

/-- What is taken at a place is read there: white space, an operator, a word or a string. -/
theorem exists_steps {line more : Nat} {done rest : List Char} {c : Char}
    {tokens : Except EscapeError (List Token)} (fresh : Fresh done (c :: rest))
    (h : takeAhead line done.length c rest = { tokens, more }) :
    ∃ taken, c :: rest = taken ++ rest.drop more ∧ taken.length = 1 + more ∧
      Steps line done taken (rest.drop more) tokens := by
  have outside : modeAfter done = .code := (fresh c rfl).1
  by_cases isQuote : c = '"'
  · subst isQuote
    rw [takeAhead_quote] at h
    obtain ⟨parts, ends⟩ := cutContent_append rest
    have longest := longest_cutContent outside rest
    unfold takeString at h
    generalize cutContent rest = cut at parts ends longest h
    obtain ⟨content, behind⟩ := cut
    cases h
    rcases ends with rfl | ⟨later, rfl⟩
    · -- The line ends in the string.
      have none : rest.drop content.length = [] := by
        rw [← parts, List.append_nil, List.drop_length]
      refine ⟨'"' :: (content ++ []), ?_, ?_, ?_⟩
      · simp [← parts]
      · simp [Nat.add_comm]
      · simpa [none] using steps_string [] outside longest (.inl ⟨rfl, rfl⟩)
    · have after : rest.drop (content.length + 1) = later := by
        rw [← parts, ← List.drop_drop, List.drop_left]
        rfl
      refine ⟨'"' :: (content ++ ['"']), ?_, ?_, ?_⟩
      · simp [← parts]
      · simp [Nat.add_comm]
      · simpa [after] using steps_string ['"'] outside longest (.inr rfl)
  rcases class_of_ne_quote isQuote with isBlank | operator | part
  · rw [takeAhead_blank line _ rest isBlank] at h
    cases h
    refine ⟨[c], rfl, rfl, steps_separators outside (List.cons_ne_nil _ _) ?_ ?_⟩
    · exact List.forall_mem_singleton.mpr (separate_of_isBlank isBlank)
    · exact fun token none => absurd none List.not_mem_nil
  · rcases takeAhead_operator line done.length rest operator with
      ⟨kind, second, later, rfl, known, taken⟩ | taken
    · obtain ⟨-, -, isSecond⟩ := operators_of_pair? known
      rw [taken] at h
      cases h
      refine ⟨[c, second], rfl, rfl, steps_separators outside (List.cons_ne_nil _ _) ?_ ?_⟩
      · exact List.forall_mem_cons.mpr ⟨separate_of_isOperator operator,
          List.forall_mem_singleton.mpr (separate_of_isOperator isSecond)⟩
      · exact List.forall_mem_singleton.mpr rfl
    · rw [taken] at h
      cases h
      refine ⟨[c], rfl, rfl, steps_separators outside (List.cons_ne_nil _ _) ?_ ?_⟩
      · exact List.forall_mem_singleton.mpr (separate_of_isOperator operator)
      · exact List.forall_mem_singleton.mpr rfl
  · obtain ⟨word, later, rfl, parts, ended, taken⟩ :=
      exists_takeAhead_word line done.length rest part
    rw [taken] at h
    cases h
    rw [List.drop_left]
    exact ⟨c :: word, rfl, by simp [Nat.add_comm],
      steps_word fresh (List.cons_ne_nil _ _) parts ended⟩

/-! ## Lines -/

/-- From a fresh place on, a line is read. -/
theorem scans_lookAhead (line : Nat) {column : Nat} {done text : List Char}
    (fresh : Fresh done text) (place : done.length = column) :
    Scans line (done ++ text) column (column + text.length) (lookAhead line column text) := by
  induction column, text using lookAhead.induct line generalizing done with
  | case1 column =>
    rw [lookAhead, List.append_nil]
    refine scans_of_no_piece (fun start piece _ above => ?_)
      (fun token none => absurd none List.not_mem_nil)
    simpa using above
  | case2 column c rest tokens more taken ih =>
    subst place
    obtain ⟨front, whole, width, steps⟩ := exists_steps fresh taken
    have lengths : rest.length + 1 = front.length + (rest.drop more).length := by
      simpa using congrArg List.length whole
    have next : (done ++ front).length = done.length + 1 + more := by
      rw [List.length_append, width]
      omega
    -- Both parts are parts of the same line, from column to column.
    have left := steps.scans
    have right := ih steps.fresh next
    rw [List.append_assoc, ← whole] at right
    rw [← whole, ← List.length_append, next] at left
    rw [lookAhead_of_takeAhead taken]
    have joined := left.append right (by omega) (Nat.le_add_right _ _)
    have stop : done.length + (c :: rest).length =
        done.length + 1 + more + (rest.drop more).length := by
      rw [List.length_cons]
      omega
    rwa [stop]

/-- A line of code is read from its start to its end. -/
theorem scans_codeTokens (line : Nat) (text : List Char) :
    Scans line text 0 text.length (codeTokens line text) := by
  have fresh : Fresh [] text := fun c _ => ⟨rfl, fun _ d none => by cases none⟩
  have scans := scans_lookAhead line fresh rfl
  rw [List.nil_append, List.length_nil, Nat.zero_add] at scans
  rwa [codeTokens_eq]

/-- A piece starts in its line. -/
theorem IsPiece.lt_length {text piece : List Char} {start : Nat} (h : IsPiece text start piece) :
    start < text.length := by
  have some := List.length_pos_iff.mpr h.ne_nil
  obtain ⟨before, later, rfl, rfl, -⟩ := h
  simp only [List.length_append]
  omega

/-- The unknown escapes of a line are those of all its columns. -/
theorem unknownBetween_length_iff {text : List Char} {column : Nat} {letter : Char} :
    UnknownBetween text 0 text.length column letter ↔ UnknownEscape text column letter := by
  constructor
  · rintro ⟨start, piece, -, isPiece, unknown⟩
    exact ⟨start, piece, isPiece, unknown⟩
  · rintro ⟨start, piece, isPiece, unknown⟩
    exact ⟨start, piece, ⟨Nat.zero_le _, isPiece.lt_length⟩, isPiece, unknown⟩

section

variable {source : String} {number : Nat} {line : List Char}

/-- The error that tells of a line is what reading the line gives. -/
theorem lineTokens_of_mem_escapeErrors {error : EscapeError}
    (found : (Text.lines source.toList)[number]? = some line) (listed : error ∈ escapeErrors source)
    (place : error.line = number + 1) :
    lineTokens (number + 1) (Text.content line) = .error error := by
  obtain ⟨index, other, foundOther, placeOther, failed⟩ := exists_line_of_mem_escapeErrors listed
  obtain rfl : index = number := by omega
  obtain rfl : line = other := Option.some.inj (found.symm.trans foundOther)
  exact failed

/-- **A line is dropped exactly for its first unknown escape.** A line of code has an error if and
only if one of its pieces has an escape without a meaning. The error then tells the line, the column
of the leftmost such backslash and the character behind it, and the line has no token. Otherwise
every piece is read as one token, whose lexeme is the piece with its escapes resolved. -/
theorem unknown_escapes_of_line (found : (Text.lines source.toList)[number]? = some line)
    (code : isCode (Text.content line)) :
    ((∃ error ∈ escapeErrors source, error.line = number + 1) ↔
      ∃ column letter, UnknownEscape (Text.content line) column letter) ∧
    (∀ error ∈ escapeErrors source, error.line = number + 1 →
      UnknownEscape (Text.content line) error.column error.escape ∧
      (∀ column letter, UnknownEscape (Text.content line) column letter → error.column ≤ column) ∧
      ∀ token ∈ tokenize source, token.line ≠ number + 1) ∧
    ((¬ ∃ column letter, UnknownEscape (Text.content line) column letter) →
      ∀ start piece, IsPiece (Text.content line) start piece →
        ReadsPiece ((tokenize source).filter (·.line = number + 1)) start piece) := by
  have scans := scans_codeTokens (number + 1) (Text.content line)
  rw [← lineTokens_of_isCode (number + 1) code] at scans
  have told : ∀ error ∈ escapeErrors source, error.line = number + 1 →
      UnknownEscape (Text.content line) error.column error.escape ∧
        ∀ column letter, UnknownEscape (Text.content line) column letter →
          error.column ≤ column := by
    intro error listed place
    obtain ⟨-, unknown, leftmost⟩ :=
      scans.error error (lineTokens_of_mem_escapeErrors found listed place)
    exact ⟨unknownBetween_length_iff.mp unknown,
      fun column letter other => leftmost column letter (unknownBetween_length_iff.mpr other)⟩
  refine ⟨⟨?_, ?_⟩, ?_, ?_⟩
  · rintro ⟨error, listed, place⟩
    exact ⟨error.column, error.escape, (told error listed place).1⟩
  · rintro ⟨column, letter, unknown⟩
    by_contra clean
    obtain ⟨tokens, read⟩ := exists_tokens_of_no_error found fun error listed place =>
      clean ⟨error, listed, place⟩
    exact scans.known tokens read column letter (unknownBetween_length_iff.mpr unknown)
  · intro error listed place
    obtain ⟨unknown, leftmost⟩ := told error listed place
    exact ⟨unknown, leftmost, fun token among => place ▸ line_ne_of_mem_escapeErrors listed among⟩
  · intro clean start piece isPiece
    cases read : lineTokens (number + 1) (Text.content line) with
    | error problem =>
      have unknown := unknownBetween_length_iff.mp (scans.error problem read).2.1
      exact absurd ⟨_, _, unknown⟩ clean
    | ok tokens =>
      rw [filter_line_tokenize found, read]
      exact scans.reads tokens read start piece isPiece (Nat.zero_le _) isPiece.lt_length

end

/-- Two lines. The string of the first one holds a known escape before an unknown one, and the word
behind it is another one. The string of the second one is left open behind a backslash. -/
def escapesSource : String :=
  "x=\"\\\\\\q\" \\z\ny \"a\\t\\"

/-- The first line is dropped for the escape in its string, and the second one is read, its last
backslash included. -/
theorem unknown_escapes_of_line_escapesSource :
    (escapeErrors escapesSource = [{ line := 1, column := 5, escape := 'q' }] ∧
      UnknownEscape "x=\"\\\\\\q\" \\z".toList 5 'q' ∧
      ∀ column letter, UnknownEscape "x=\"\\\\\\q\" \\z".toList column letter → 5 ≤ column) ∧
    IsPiece "y \"a\\t\\".toList 3 "a\\t\\".toList ∧
      ReadsPiece ((tokenize escapesSource).filter (·.line = 2)) 3 "a\\t\\".toList := by
  have errors : escapeErrors escapesSource = [{ line := 1, column := 5, escape := 'q' }] := by
    decide +kernel
  have first : (Text.lines escapesSource.toList)[0]? = some "x=\"\\\\\\q\" \\z".toList := by
    decide +kernel
  have second : (Text.lines escapesSource.toList)[1]? = some "y \"a\\t\\".toList := by
    decide +kernel
  have outside : modeAfter "y ".toList = .code := by decide +kernel
  have isPiece : IsPiece "y \"a\\t\\".toList 3 "a\\t\\".toList :=
    isPiece_content outside (by decide) (longest_cutContent outside "a\\t\\".toList)
  obtain ⟨-, told, -⟩ := unknown_escapes_of_line first (by decide +kernel)
  obtain ⟨fails, -, reads⟩ := unknown_escapes_of_line second (by decide +kernel)
  have clean : ¬ ∃ column letter, UnknownEscape "y \"a\\t\\".toList column letter := by
    intro unknown
    obtain ⟨error, listed, place⟩ := fails.mpr unknown
    rw [errors] at listed
    rw [List.mem_singleton.mp listed] at place
    cases place
  obtain ⟨unknown, leftmost, -⟩ := told _ (errors ▸ List.mem_cons_self) rfl
  exact ⟨⟨errors, unknown, leftmost⟩, isPiece, reads clean 3 _ isPiece⟩

end ScriptLens
