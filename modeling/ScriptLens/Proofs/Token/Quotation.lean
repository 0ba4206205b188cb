import ScriptLens.Proofs.Token.LineOrder

/-! # Strings and escapes
What a line says apart from its tokens: which of its characters lie in strings, and what a run of
its characters stands for.
Main definitions:
* `Mode`, `modeAfter`: whether some characters of a line lead into a string.
* `Resolves`: a text and what it stands for once its escapes are resolved.
Main statements:
* `Resolves.length_le`, `Resolves.eq_of_notMem`: resolving never makes a text longer, and it leaves a
  text without backslashes alone.
* `classify_cases`: the ways in which a run is classified.
* `resolves_of_classify`: the lexeme of a run is the run with its escapes resolved. -/

namespace ScriptLens

/-! ## Modes -/

/-- Where the characters of a line have led to. -/
inductive Mode where
  /-- Outside strings. -/
  | code
  /-- Inside a string. -/
  | quoted
  /-- Inside a string, behind a backslash that takes the next character with it. -/
  | escaped
  deriving DecidableEq, Repr

/-- The mode after one more character. -/
def Mode.after : Mode → Char → Mode
  | code, c => if c = '"' then quoted else code
  | quoted, c => if c = '\\' then escaped else if c = '"' then code else quoted
  | escaped, _ => quoted

/-- The mode in which a line is cut into pieces. -/
def Mode.ofQuoted (quoted : Bool) : Mode :=
  if quoted then .quoted else .code

/-- A string is left at a quote only. -/
theorem Mode.after_inside {c : Char} (noEscape : c ≠ '\\') (noQuote : c ≠ '"') :
    Mode.after (.ofQuoted true) c = .ofQuoted true := by
  simp [ofQuoted, after, noEscape, noQuote]

/-- A string is entered at a quote only. -/
@[simp] theorem Mode.after_outside (c : Char) :
    Mode.after (.ofQuoted false) c = .ofQuoted (c = '"') := by
  simp [ofQuoted, after]

/-- White space enters no string. -/
theorem Mode.after_blank {c : Char} (isBlank : Text.isBlank c) :
    Mode.after (.ofQuoted false) c = .ofQuoted false := by
  have noQuote : c ≠ '"' := by
    rintro rfl
    exact absurd isBlank (by decide)
  simp [noQuote]

/-- A character that is no mark enters no string. -/
theorem Mode.after_noMark {c : Char} (noMark : Vocabulary.mark? c = none) :
    Mode.after (.ofQuoted false) c = .ofQuoted false := by
  have noQuote : c ≠ '"' := by
    rintro rfl
    exact absurd noMark (by decide)
  simp [noQuote]

/-- The mode after some characters from the start of a line. -/
def modeAfter (text : List Char) : Mode :=
  text.foldl Mode.after .code

/-- The mode after one more character depends on the mode before it only. -/
@[simp] theorem modeAfter_append (text later : List Char) :
    modeAfter (text ++ later) = later.foldl Mode.after (modeAfter text) :=
  List.foldl_append

/-! ## Escapes -/

/-- A text and what it stands for once its escapes are resolved. A backslash at the very end stands
for itself. -/
inductive Resolves : List Char → List Char → Prop where
  /-- Nothing stands for nothing. -/
  | nil : Resolves [] []
  /-- A character other than a backslash stands for itself. -/
  | plain {c : Char} {text resolved : List Char} (h : c ≠ '\\') (later : Resolves text resolved) :
      Resolves (c :: text) (c :: resolved)
  /-- A backslash and a letter stand for one character together. -/
  | pair {letter meaning : Char} {text resolved : List Char}
      (h : Vocabulary.escape? letter = some meaning) (later : Resolves text resolved) :
      Resolves ('\\' :: letter :: text) (meaning :: resolved)
  /-- The last character may be a backslash. -/
  | last : Resolves ['\\'] ['\\']

/-- Resolving never makes a text longer. -/
theorem Resolves.length_le {text resolved : List Char} (h : Resolves text resolved) :
    resolved.length ≤ text.length := by
  induction h with
  | nil => exact Nat.le_refl _
  | plain _ _ ih => exact Nat.succ_le_succ ih
  | pair _ _ ih => exact Nat.succ_le_succ (Nat.le_succ_of_le ih)
  | last => exact Nat.le_refl _

/-- Something never stands for nothing. -/
theorem Resolves.length_pos {text resolved : List Char} (h : Resolves text resolved)
    (some : text ≠ []) : 0 < resolved.length := by
  cases h with
  | nil => exact absurd rfl some
  | plain => exact Nat.succ_pos _
  | pair => exact Nat.succ_pos _
  | last => exact Nat.succ_pos _

/-- A text without backslashes stands for itself only. -/
theorem Resolves.eq_of_notMem {text resolved : List Char} (h : Resolves text resolved)
    (free : '\\' ∉ text) : resolved = text := by
  induction h with
  | nil => rfl
  | plain _ _ ih => rw [ih (List.not_mem_of_not_mem_cons free)]
  | pair => exact absurd List.mem_cons_self free
  | last => rfl

/-- A text without backslashes stands for itself. -/
theorem resolves_self {text : List Char} (free : '\\' ∉ text) : Resolves text text := by
  induction text with
  | nil => exact .nil
  | cons c text ih =>
    have differs : c ≠ '\\' := Ne.symm (List.ne_of_not_mem_cons free)
    exact .plain differs (ih (List.not_mem_of_not_mem_cons free))

/-- A single character stands for itself. -/
theorem resolves_single (c : Char) : Resolves [c] [c] := by
  by_cases h : c = '\\'
  · rw [h]
    exact .last
  · exact .plain h .nil

/-- A single character stands for nothing but itself. -/
theorem Resolves.eq_single {c : Char} {resolved : List Char} (h : Resolves [c] resolved) :
    resolved = [c] := by
  cases h with
  | plain differs later =>
    cases later
    rfl
  | last => rfl

/-! ## Runs -/

/-- Resolving the escapes of a run gives what the run stands for. -/
theorem resolves_of_unescape {line column : Nat} {text resolved : List Char}
    (h : unescape line column text = .ok resolved) : Resolves text resolved := by
  fun_induction unescape line column text generalizing resolved with
  | case1 =>
    cases h
    exact .nil
  | case2 column c =>
    cases h
    exact resolves_single c
  | case3 column letter rest meaning known ih =>
    obtain ⟨later, resolvedLater, rfl⟩ := exists_of_map_eq_ok h
    exact .pair known (ih resolvedLater)
  | case4 => cases h
  | case5 column c next rest differs ih =>
    obtain ⟨later, resolvedLater, rfl⟩ := exists_of_map_eq_ok h
    exact .plain differs (ih resolvedLater)

/-- What is found in a table stands in it. -/
theorem mem_of_lookup_eq_some {α β : Type} [BEq α] [LawfulBEq α] {table : List (α × β)} {key : α}
    {value : β} (h : table.lookup key = some value) : (key, value) ∈ table := by
  obtain ⟨earlier, later, rfl, -⟩ := List.lookup_eq_some_iff.mp h
  exact List.mem_append_right _ List.mem_cons_self

/-- A reserved word has no backslash. -/
theorem backslash_notMem_of_keyword? {text : List Char} {kind : Token.Kind}
    (h : Vocabulary.keyword? (String.ofList text) = some kind) : '\\' ∉ text := by
  have free : ∀ entry ∈ Vocabulary.keywords, '\\' ∉ entry.1.toList := by decide
  simpa using free _ (mem_of_lookup_eq_some h)

/-- Digits have no backslash among them. -/
theorem backslash_notMem_of_all {isDigit : Char → Bool} {digits : List Char}
    (h : digits.all isDigit) (excluded : isDigit '\\' = false) : '\\' ∉ digits := by
  intro found
  have isOne := List.all_eq_true.mp h '\\' found
  rw [excluded] at isOne
  cases isOne

/-- A decimal has no backslash. -/
theorem backslash_notMem_of_isDecimal {limit : Nat} {digits : List Char}
    (h : Numeral.isDecimal limit digits) : '\\' ∉ digits := by
  simp only [Numeral.isDecimal, Bool.and_eq_true] at h
  exact backslash_notMem_of_all h.1.2 rfl

/-- An integer literal has no backslash. -/
theorem backslash_notMem_of_isNumeral {text : List Char} (h : Numeral.isNumeral text) :
    '\\' ∉ text := by
  unfold Numeral.isNumeral at h
  split at h
  · simpa using backslash_notMem_of_isDecimal h
  · simpa using backslash_notMem_of_isDecimal h
  · simpa using backslash_notMem_of_all h (by decide)
  · simpa using backslash_notMem_of_all h (by decide)
  · simpa using backslash_notMem_of_all h (by decide)
  · simpa using backslash_notMem_of_all h (by decide)
  · exact backslash_notMem_of_isDecimal h

/-- The four ways in which a run is classified. -/
theorem classify_cases {line column : Nat} {text : List Char} {token : Token}
    (h : classify line column text = .ok token) :
    (∃ c, text = [c] ∧ token = { kind := loneKind c, lexeme := String.ofList [c], line, column }) ∨
    (∃ kind, Vocabulary.keyword? (String.ofList text) = some kind ∧
      token = { kind, lexeme := String.ofList text, line, column }) ∨
    (Numeral.isNumeral text ∧
      token = { kind := .number, lexeme := String.ofList text, line, column }) ∨
    ∃ resolved, unescape line column text = .ok resolved ∧
      token = { kind := .text, lexeme := String.ofList resolved, line, column } := by
  unfold classify at h
  dsimp only at h
  split at h
  · next c =>
    cases h
    exact .inl ⟨c, rfl, rfl⟩
  · split at h
    · next kind known =>
      cases h
      exact .inr (.inl ⟨kind, known, rfl⟩)
    · split at h
      · next numeral =>
        cases h
        exact .inr (.inr (.inl ⟨numeral, rfl⟩))
      · obtain ⟨resolved, found, rfl⟩ := exists_of_map_eq_ok h
        exact .inr (.inr (.inr ⟨resolved, found, rfl⟩))

/-- The lexeme of a run is the run with its escapes resolved. -/
theorem resolves_of_classify {line column : Nat} {text : List Char} {token : Token}
    (h : classify line column text = .ok token) :
    token.column = column ∧ Resolves text token.lexeme.toList := by
  rcases classify_cases h with ⟨c, rfl, rfl⟩ | ⟨kind, known, rfl⟩ | ⟨numeral, rfl⟩ |
    ⟨resolved, found, rfl⟩
  · exact ⟨rfl, by simpa using resolves_single c⟩
  · exact ⟨rfl, by simpa using resolves_self (backslash_notMem_of_keyword? known)⟩
  · exact ⟨rfl, by simpa using resolves_self (backslash_notMem_of_isNumeral numeral)⟩
  · exact ⟨rfl, by simpa using resolves_of_unescape found⟩

end ScriptLens
