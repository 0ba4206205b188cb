import Mathlib.Logic.ExistsUnique
import ScriptLens.Proofs.Token.Quotation
import ScriptLens.Proofs.Token.SourceLines

/-! # Tokens tile their line
Each token of a line of code was read off a stretch of the line. The stretches lie one behind the
other, and between them there is nothing but white space outside strings.
Main definitions:
* `Tile`: a token with the end of the stretch it was read off.
* `Tiled`: how a line is laid out in tiles, from left to right.
* `Tiles`: what it means that tiles make up a line.
* `ReadAs`: the tokens read so far lay out the beginning of a line.
Main statements:
* `ReadAs.addMark`, `ReadAs.split`: one mark, and all pieces of a line.
* `Tiled.tiles`: laying out a line in tiles makes up the line.
* `tokenize_tiles`: the tokens of every source tile the lines they are read off. -/

namespace ScriptLens

/-! ## Tiles -/

/-- A token with the stretch of its line that it was read off. -/
structure Tile where
  /-- The token, which starts where the stretch starts. -/
  token : Token
  /-- The column behind the last character of the stretch. -/
  stop : Nat
  deriving DecidableEq, Repr

namespace Tile

/-- Whether a column lies in the stretch. -/
def Covers (tile : Tile) (column : Nat) : Prop :=
  tile.token.column ≤ column ∧ column < tile.stop

/-- The characters of the stretch. -/
def source (tile : Tile) (text : List Char) : List Char :=
  (text.take tile.stop).drop tile.token.column

end Tile

/-- Tiles make up a line. -/
structure Tiles (text : List Char) (tiles : List Tile) : Prop where
  /-- No token is empty, and none is longer than its stretch, which lies in the line. -/
  inside : ∀ tile ∈ tiles, tile.token.column < tile.token.endColumn ∧
    tile.token.endColumn ≤ tile.stop ∧ tile.stop ≤ text.length
  /-- The stretches lie one behind the other. -/
  ordered : tiles.Pairwise (·.stop ≤ ·.token.column)
  /-- What lies in no stretch is white space outside strings. -/
  gap : ∀ column c, text[column]? = some c → (∀ tile ∈ tiles, ¬ tile.Covers column) →
    Text.isBlank c ∧ modeAfter (text.take column) = .code
  /-- A lexeme is the text of its stretch with the escapes resolved. -/
  resolved : ∀ tile ∈ tiles, Resolves (tile.source text) tile.token.lexeme.toList
  /-- Without backslashes it is that text itself. -/
  plain : ∀ tile ∈ tiles, '\\' ∉ tile.source text →
    tile.token.lexeme.toList = tile.source text ∧ tile.token.endColumn = tile.stop

/-- How the beginning of a line is laid out in tiles: each character is white space outside strings,
or it belongs to the next token. -/
inductive Tiled : List Char → List Tile → Prop where
  /-- The start of a line. -/
  | nil : Tiled [] []
  /-- White space outside strings. -/
  | blank {text : List Char} {tiles : List Tile} {c : Char} (before : Tiled text tiles)
      (isBlank : Text.isBlank c) (outside : modeAfter text = .code) : Tiled (text ++ [c]) tiles
  /-- A token, with the characters it was read off. -/
  | token {text source : List Char} {tiles : List Tile} {token : Token} (before : Tiled text tiles)
      (some : source ≠ []) (starts : token.column = text.length)
      (resolves : Resolves source token.lexeme.toList) :
      Tiled (text ++ source) (tiles ++ [{ token, stop := text.length + source.length }])

/-! ## From left to right -/

/-- A stretch does not change when the line goes on behind it. -/
theorem Tile.source_append {tile : Tile} {text : List Char} (later : List Char)
    (h : tile.stop ≤ text.length) : tile.source (text ++ later) = tile.source text := by
  unfold source
  rw [List.take_append_of_le_length h]

/-- The last stretch of a line is what has been added to it. -/
theorem Tile.source_last {token : Token} {text : List Char} (source : List Char)
    (starts : token.column = text.length) :
    Tile.source { token, stop := text.length + source.length } (text ++ source) = source := by
  unfold Tile.source
  rw [starts, ← List.length_append, List.take_length, List.drop_left]

/-- A stretch lies between the characters before its start and those behind its end. -/
theorem Tile.append_source_append {tile : Tile} {text : List Char}
    (start : tile.token.column ≤ tile.stop) (stop : tile.stop ≤ text.length) :
    text.take tile.token.column ++ (tile.source text ++ text.drop tile.stop) = text := by
  have behind : tile.source text ++ text.drop tile.stop = text.drop tile.token.column := by
    unfold source
    rw [← List.drop_append_of_le_length, List.take_append_drop]
    rwa [List.length_take_of_le stop]
  rw [behind, List.take_append_drop]

/-- The end of a token, in terms of its lexeme. -/
@[simp] theorem Token.endColumn_eq (token : Token) :
    token.endColumn = token.column + token.lexeme.toList.length := by
  rw [Token.endColumn, String.length_toList]

/-- Tiles still make up a line after white space outside strings. -/
theorem Tiles.blank {text : List Char} {tiles : List Tile} {c : Char} (tiled : Tiles text tiles)
    (isBlank : Text.isBlank c) (outside : modeAfter text = .code) : Tiles (text ++ [c]) tiles where
  inside tile listed := by
    have bounds := tiled.inside tile listed
    rw [List.length_append]
    omega
  ordered := tiled.ordered
  gap column d found free := by
    rcases Nat.lt_or_ge column text.length with early | late
    · rw [List.getElem?_append_left early] at found
      rw [List.take_append_of_le_length (Nat.le_of_lt early)]
      exact tiled.gap column d found free
    · -- The only column left is that of the new character.
      rw [List.getElem?_append_right late, List.getElem?_singleton] at found
      split at found
      · next last =>
        cases found
        have same : column = text.length := by omega
        rw [same, List.take_left]
        exact ⟨isBlank, outside⟩
      · cases found
  resolved tile listed := by
    rw [tile.source_append [c] (tiled.inside tile listed).2.2]
    exact tiled.resolved tile listed
  plain tile listed := by
    rw [tile.source_append [c] (tiled.inside tile listed).2.2]
    exact tiled.plain tile listed

/-- Tiles make up a line with one more token behind them. -/
theorem Tiles.token {text source : List Char} {tiles : List Tile} {token : Token}
    (tiled : Tiles text tiles) (some : source ≠ []) (starts : token.column = text.length)
    (resolves : Resolves source token.lexeme.toList) :
    Tiles (text ++ source) (tiles ++ [{ token, stop := text.length + source.length }]) := by
  have positive := resolves.length_pos some
  have shorter := resolves.length_le
  have whole := Tile.source_last source starts
  refine ⟨?_, ?_, ?_, ?_, ?_⟩
  · intro tile listed
    rw [List.length_append]
    rcases List.mem_append.mp listed with early | last
    · have bounds := tiled.inside tile early
      omega
    · rw [List.mem_singleton.mp last]
      show token.column < token.endColumn ∧ token.endColumn ≤ text.length + source.length ∧
        text.length + source.length ≤ text.length + source.length
      simp only [Token.endColumn_eq, starts]
      omega
  · rw [List.pairwise_append]
    refine ⟨tiled.ordered, List.pairwise_singleton _ _, fun tile early last isLast => ?_⟩
    rw [List.mem_singleton.mp isLast, starts]
    exact (tiled.inside tile early).2.2
  · intro column c found free
    rcases Nat.lt_or_ge column text.length with early | late
    · rw [List.getElem?_append_left early] at found
      rw [List.take_append_of_le_length (Nat.le_of_lt early)]
      exact tiled.gap column c found fun tile listed => free tile (List.mem_append_left _ listed)
    · -- From there on every column lies in the new stretch.
      obtain ⟨within, -⟩ := List.getElem?_eq_some_iff.mp found
      rw [List.length_append] at within
      refine absurd ⟨?_, within⟩ (free _ (List.mem_append_right _ List.mem_cons_self))
      rw [starts]
      exact late
  · intro tile listed
    rcases List.mem_append.mp listed with early | last
    · rw [tile.source_append source (tiled.inside tile early).2.2]
      exact tiled.resolved tile early
    · rw [List.mem_singleton.mp last, whole]
      exact resolves
  · intro tile listed
    rcases List.mem_append.mp listed with early | last
    · rw [tile.source_append source (tiled.inside tile early).2.2]
      exact tiled.plain tile early
    · rw [List.mem_singleton.mp last, whole]
      intro free
      have same := resolves.eq_of_notMem free
      exact ⟨same, by simp [starts, same]⟩

/-- Laying out a line in tiles makes up the line. -/
theorem Tiled.tiles {text : List Char} {tiles : List Tile} (h : Tiled text tiles) :
    Tiles text tiles := by
  induction h with
  | nil => exact ⟨by simp, List.Pairwise.nil, by simp, by simp, by simp⟩
  | blank before isBlank outside ih => exact ih.blank isBlank outside
  | token before some starts resolves ih => exact ih.token some starts resolves

/-! ## Pieces -/

/-- The beginning of a line has been read as tokens, which stand in reverse order. -/
def ReadAs (text : List Char) (reversed : List Token) : Prop :=
  ∃ tiles, Tiled text tiles ∧ tiles.map (·.token) = reversed.reverse

/-- A token is read off what follows. -/
theorem ReadAs.token {text source : List Char} {reversed : List Token} {token : Token}
    (before : ReadAs text reversed) (some : source ≠ []) (starts : token.column = text.length)
    (resolves : Resolves source token.lexeme.toList) :
    ReadAs (text ++ source) (token :: reversed) := by
  obtain ⟨tiles, tiled, tokens⟩ := before
  refine ⟨_, tiled.token some starts resolves, ?_⟩
  rw [List.map_append, tokens, List.reverse_cons]
  rfl

/-- White space outside strings is passed over. -/
theorem ReadAs.blank {text : List Char} {reversed : List Token} {c : Char}
    (before : ReadAs text reversed) (isBlank : Text.isBlank c) (outside : modeAfter text = .code) :
    ReadAs (text ++ [c]) reversed := by
  obtain ⟨tiles, tiled, tokens⟩ := before
  exact ⟨tiles, tiled.blank isBlank outside, tokens⟩

/-- A token whose column is the last one of what has been read was read off that column alone, so
that it can be taken back. -/
theorem ReadAs.exists_of_adjacent {text : List Char} {reversed : List Token} {token : Token}
    (h : ReadAs text (token :: reversed)) (adjacent : token.column + 1 = text.length) :
    ∃ before c, text = before ++ [c] ∧ token.column = before.length ∧
      token.lexeme.toList = [c] ∧ ReadAs before reversed := by
  obtain ⟨tiles, tiled, tokens⟩ := h
  rw [List.reverse_cons] at tokens
  cases tiled with
  | nil => simp at tokens
  | @blank text tiles c before isBlank outside =>
    -- Behind the token there is white space, so that its column cannot be the last one.
    obtain ⟨tile, listed, rfl⟩ : ∃ tile ∈ tiles, tile.token = token :=
      List.mem_map.mp (tokens ▸ List.mem_append_right _ List.mem_cons_self)
    have bounds := before.tiles.inside tile listed
    rw [List.length_append, List.length_singleton] at adjacent
    omega
  | @token text source tiles last before some starts resolves =>
    rw [List.map_append] at tokens
    obtain ⟨earlier, same⟩ := List.append_inj_left' tokens rfl, List.append_inj_right' tokens rfl
    obtain rfl : last = token := by simpa using same
    have single : source.length = 1 := by
      rw [List.length_append] at adjacent
      omega
    obtain ⟨c, rfl⟩ := List.length_eq_one_iff.mp single
    exact ⟨text, c, rfl, starts, resolves.eq_single, tiles, before, earlier⟩

/-- The two parts of an operator are a token right before the second one and that one. -/
theorem joined?_eq_some {previous operator : Token} {second : Char} {column : Nat}
    (h : joined? previous second column = some operator) :
    previous.column + 1 = column ∧ ∃ first later kind, previous.lexeme.toList = first :: later ∧
      Vocabulary.pair? first second = some kind ∧
      operator = { previous with kind, lexeme := String.ofList [first, second] } := by
  unfold joined? at h
  split at h
  · next adjacent =>
    split at h
    · next first later spelled =>
      obtain ⟨kind, known, rfl⟩ := Option.map_eq_some_iff.mp h
      exact ⟨adjacent.1, first, later, kind, spelled, known, rfl⟩
    · cases h
  · cases h

/-- Operators are spelled without backslashes. -/
theorem backslash_notMem_of_pair? {first second : Char} {kind : Token.Kind}
    (h : Vocabulary.pair? first second = some kind) : '\\' ∉ [first, second] := by
  have free : ∀ entry ∈ Vocabulary.pairs, '\\' ∉ [entry.1.1, entry.1.2] := by decide
  exact free _ (mem_of_lookup_eq_some h)

/-- A mark is a token of its own, or it makes the token before it longer. -/
theorem ReadAs.addMark {text : List Char} {reversed : List Token} (line : Nat) (sign : Char)
    (kind : Token.Kind) (before : ReadAs text reversed) :
    ReadAs (text ++ [sign]) (addMark line text.length sign kind reversed) := by
  have alone : ReadAs (text ++ [sign])
      ({ kind, lexeme := String.singleton sign, line, column := text.length } :: reversed) :=
    before.token (List.cons_ne_nil _ _) rfl (by simpa using resolves_single sign)
  unfold ScriptLens.addMark
  dsimp only
  split
  · exact alone
  · next previous earlier =>
    split
    · next operator joined =>
      obtain ⟨adjacent, first, later, kind, spelled, known, rfl⟩ := joined?_eq_some joined
      obtain ⟨start, c, rfl, starts, single, readBefore⟩ := before.exists_of_adjacent adjacent
      -- The token before it is taken back, and both characters are read at once.
      obtain ⟨rfl, rfl⟩ : first = c ∧ later = [] := by simpa [spelled] using single
      rw [List.append_assoc]
      refine readBefore.token (List.cons_ne_nil _ _) starts ?_
      rw [String.toList_ofList]
      exact resolves_self (backslash_notMem_of_pair? known)
    · exact alone

/-- Both parts of a chained computation succeed if the whole does. -/
theorem exists_of_bind_eq_ok {ε α β : Type} {result : Except ε α} {f : α → Except ε β} {value : β}
    (h : result >>= f = .ok value) : ∃ source, result = .ok source ∧ f source = .ok value := by
  cases result with
  | error problem => cases h
  | ok source => exact ⟨source, rfl, h⟩

/-- The run before a column is read, if there is one. -/
theorem ReadAs.runBefore {text run : List Char} {line : Nat} {reversed result : List Token}
    (before : ReadAs text reversed)
    (h : (Piece.runBefore (text.length + run.length) run).foldlM (addPiece line) reversed =
      .ok result) :
    ReadAs (text ++ run.reverse) result := by
  unfold Piece.runBefore at h
  split at h
  · next none =>
    cases h
    rw [List.isEmpty_iff.mp none, List.reverse_nil, List.append_nil]
    exact before
  · next some =>
    rw [Nat.add_sub_cancel] at h
    obtain ⟨added, read, last⟩ := exists_of_bind_eq_ok h
    cases last
    obtain ⟨token, classified, rfl⟩ := exists_of_map_eq_ok read
    obtain ⟨starts, resolves⟩ := resolves_of_classify classified
    have nonempty : run.reverse ≠ [] := by simpa using some
    exact before.token nonempty starts resolves

/-- A mark behind a run is read after the run. -/
theorem ReadAs.runBefore_mark {text run : List Char} {line : Nat} {sign : Char} {kind : Token.Kind}
    {later : List Piece} {reversed result : List Token} (before : ReadAs text reversed)
    (h : (Piece.runBefore (text.length + run.length) run ++
      .mark (text.length + run.length) sign kind :: later).foldlM (addPiece line) reversed =
        .ok result) :
    ∃ middle, ReadAs (text ++ run.reverse ++ [sign]) middle ∧
      later.foldlM (addPiece line) middle = .ok result := by
  rw [List.foldlM_append] at h
  obtain ⟨flushed, readRun, readRest⟩ := exists_of_bind_eq_ok h
  have place : text.length + run.length = (text ++ run.reverse).length := by simp
  rw [place] at readRest
  exact ⟨_, (before.runBefore readRun).addMark line sign kind, readRest⟩

/-- Behind a run and one more character the next run is empty. -/
theorem length_run_append (text run : List Char) (c : Char) :
    text.length + run.length + 1 =
      (text ++ run.reverse ++ [c]).length + ([] : List Char).length := by
  simp [Nat.add_assoc]

/-- An empty run does not change the mode. -/
theorem modeAfter_append_nil (text : List Char) :
    modeAfter (text ++ ([] : List Char).reverse) = modeAfter text := by
  rw [List.reverse_nil, List.append_nil]

/-- The mode after one more character of a run. -/
theorem modeAfter_reverse_cons (text run : List Char) (c : Char) :
    modeAfter (text ++ (c :: run).reverse) = (modeAfter (text ++ run.reverse)).after c := by
  rw [List.reverse_cons, ← List.append_assoc, modeAfter_append]
  rfl

/-- The pieces of the rest of a line are read behind what has been read before, where `run` holds the
characters of the run being read, the last one first. -/
theorem ReadAs.split {line : Nat} {quoted : Bool} {column : Nat} {run rest : List Char}
    {text : List Char} {reversed result : List Token} (before : ReadAs text reversed)
    (place : column = text.length + run.length)
    (mode : modeAfter (text ++ run.reverse) = .ofQuoted quoted)
    (h : (Piece.split quoted column run rest).foldlM (addPiece line) reversed = .ok result) :
    ReadAs (text ++ run.reverse ++ rest) result := by
  fun_induction Piece.split quoted column run rest generalizing text reversed with
  | case1 quoted column run =>
    subst place
    rw [List.append_nil]
    exact before.runBefore h
  | case2 column run =>
    -- A backslash at the very end belongs to the string.
    subst place
    have read : ReadAs (text ++ ('\\' :: run).reverse) result := before.runBefore h
    simpa using read
  | case3 column run escaped rest ih =>
    -- The escaped character keeps the string open.
    have stillOpen : modeAfter (text ++ (escaped :: '\\' :: run).reverse) = .quoted := by
      rw [modeAfter_reverse_cons, modeAfter_reverse_cons, mode]
      rfl
    have read := ih before (by simp only [List.length_cons]; omega) stillOpen h
    simpa using read
  | case4 column run rest _ ih =>
    subst place
    obtain ⟨middle, read, readRest⟩ := before.runBefore_mark h
    have closed : modeAfter (text ++ run.reverse ++ ['"']) = .code := by
      rw [modeAfter_append, mode]
      rfl
    have whole := ih read (length_run_append text run _) ((modeAfter_append_nil _).trans closed)
      readRest
    simpa using whole
  | case5 column run c rest noEscape noQuote ih =>
    have stillOpen : modeAfter (text ++ (c :: run).reverse) = .quoted := by
      rw [modeAfter_reverse_cons, mode, Mode.after_inside noEscape noQuote]
      rfl
    have read := ih before (by simp only [List.length_cons]; omega) stillOpen h
    simpa using read
  | case6 quoted column run c rest outside isBlank ih =>
    subst place
    rw [List.foldlM_append] at h
    obtain ⟨middle, readRun, readRest⟩ := exists_of_bind_eq_ok h
    obtain rfl : quoted = false := by simpa using outside
    have read := (before.runBefore readRun).blank isBlank mode
    have stillOutside : modeAfter (text ++ run.reverse ++ [c]) = .code := by
      rw [modeAfter_append, mode, List.foldl_cons, Mode.after_blank isBlank]
      rfl
    have whole := ih read (length_run_append text run _)
      ((modeAfter_append_nil _).trans stillOutside) readRest
    simpa using whole
  | case7 quoted column run c rest outside noBlank kind isMark ih =>
    subst place
    obtain rfl : quoted = false := by simpa using outside
    obtain ⟨middle, read, readRest⟩ := before.runBefore_mark h
    have opened : modeAfter (text ++ run.reverse ++ [c]) = .ofQuoted (c = '"') := by
      rw [modeAfter_append, mode, List.foldl_cons, Mode.after_outside]
      rfl
    have whole := ih read (length_run_append text run _) ((modeAfter_append_nil _).trans opened)
      readRest
    simpa using whole
  | case8 quoted column run c rest outside noBlank noMark ih =>
    obtain rfl : quoted = false := by simpa using outside
    have stillOutside : modeAfter (text ++ (c :: run).reverse) = .code := by
      rw [modeAfter_reverse_cons, mode, Mode.after_noMark noMark]
      rfl
    have read := ih before (by simp only [List.length_cons]; omega) stillOutside h
    simpa using read

/-- The pieces of a line are read as the line. -/
theorem readAs_of_foldlM_pieces {line : Nat} {text : List Char} {reversed : List Token}
    (h : (pieces text).foldlM (addPiece line) [] = .ok reversed) : ReadAs text reversed := by
  have start : ReadAs [] [] := ⟨[], .nil, rfl⟩
  have place : 0 = ([] : List Char).length + ([] : List Char).length := rfl
  exact start.split place rfl h

/-- The tokens of a line of code tile the line. -/
theorem exists_tiles_of_codeTokens {line : Nat} {text : List Char} {tokens : List Token}
    (h : codeTokens line text = .ok tokens) :
    ∃ tiles, tiles.map (·.token) = tokens ∧ Tiles text tiles := by
  obtain ⟨reversed, folded, rfl⟩ := exists_of_map_eq_ok h
  obtain ⟨tiles, tiled, same⟩ := readAs_of_foldlM_pieces folded
  exact ⟨tiles, same, tiled.tiles⟩

/-! ## Characters -/

/-- At most one stretch holds a column. -/
theorem Tiles.eq_of_covers {text : List Char} {tiles : List Tile} (tiled : Tiles text tiles)
    {column : Nat} {tile other : Tile} (listed : tile ∈ tiles) (listedOther : other ∈ tiles)
    (covered : tile.Covers column) (coveredOther : other.Covers column) : tile = other := by
  have apart : tiles.Pairwise fun left right =>
      left.Covers column → right.Covers column → left = right :=
    tiled.ordered.imp fun order coversLeft coversRight =>
      absurd (Nat.le_trans order coversRight.1) (Nat.not_le_of_gt coversLeft.2)
  have apartBack : tiles.Pairwise (flip fun left right =>
      left.Covers column → right.Covers column → left = right) :=
    tiled.ordered.imp fun order coversRight coversLeft =>
      absurd (Nat.le_trans order coversRight.1) (Nat.not_le_of_gt coversLeft.2)
  exact apart.forall_of_forall_of_flip (fun _ _ _ _ => rfl) apartBack listed listedOther covered
    coveredOther

/-- A character other than white space outside strings lies in exactly one stretch. -/
theorem Tiles.existsUnique_covers {text : List Char} {tiles : List Tile} (tiled : Tiles text tiles)
    {column : Nat} {c : Char} (found : text[column]? = some c)
    (solid : ¬ (Text.isBlank c ∧ modeAfter (text.take column) = .code)) :
    ∃! tile, tile ∈ tiles ∧ tile.Covers column := by
  obtain ⟨tile, listed, covered⟩ : ∃ tile ∈ tiles, tile.Covers column := by
    refine Classical.byContradiction fun none => solid ?_
    exact tiled.gap column c found fun tile listed covered => none ⟨tile, listed, covered⟩
  exact ⟨tile, ⟨listed, covered⟩,
    fun other ⟨listedOther, coveredOther⟩ =>
      tiled.eq_of_covers listedOther listed coveredOther covered⟩

/-! ## Lines -/

/-- Whether a line is one of code: neither blank nor a comment. -/
def isCode (text : List Char) : Bool :=
  (Text.trim text).head?.any (· ≠ '#')

/-- A line of code is read as such. -/
theorem lineTokens_of_isCode {text : List Char} (line : Nat) (h : isCode text) :
    lineTokens line text = codeTokens line text := by
  unfold isCode at h
  unfold lineTokens
  split
  · next empty => simp [empty] at h
  · next first rest trimmed =>
    have differs : first ≠ '#' := by simpa [trimmed] using h
    rw [if_neg differs]

/-- Other lines have at most one token, which is the whole line without its margins. -/
theorem tokens_of_not_isCode {line : Nat} {text : List Char} {tokens : List Token}
    (h : lineTokens line text = .ok tokens) (noCode : ¬ isCode text) :
    tokens = [] ∨
      tokens = [{ kind := .text, lexeme := String.ofList (Text.trim text), line,
                  column := Text.indent text }] ∧ Text.trim text ≠ [] := by
  unfold isCode at noCode
  unfold lineTokens at h
  split at h
  · cases h
    exact Or.inl rfl
  · next first rest trimmed =>
    have comment : first = '#' := by simpa [trimmed] using noCode
    rw [if_pos comment] at h
    split at h
    · cases h
      rw [trimmed]
      exact Or.inr ⟨rfl, List.cons_ne_nil _ _⟩
    · cases h
      exact Or.inl rfl

/-- A token comes before another one in the source. -/
def Token.Precedes (token other : Token) : Prop :=
  token.line < other.line ∨ token.line = other.line ∧ token.column < other.column

/-- The tokens of a line follow one another, and none is empty. -/
theorem ordered_of_lineTokens {line : Nat} {text : List Char} {tokens : List Token}
    (h : lineTokens line text = .ok tokens) :
    tokens.Pairwise Token.Precedes ∧ ∀ token ∈ tokens, token.lexeme ≠ "" := by
  have onLine := line_of_mem_lineTokens h
  by_cases code : isCode text
  · rw [lineTokens_of_isCode line code] at h
    obtain ⟨tiles, rfl, tiled⟩ := exists_tiles_of_codeTokens h
    constructor
    · rw [List.pairwise_map]
      refine tiled.ordered.imp_of_mem fun {left right} hleft hright order => Or.inr ⟨?_, ?_⟩
      · rw [onLine _ (List.mem_map_of_mem hleft), onLine _ (List.mem_map_of_mem hright)]
      · have bounds := tiled.inside left hleft
        omega
    · intro token listed empty
      obtain ⟨tile, listedTile, rfl⟩ := List.mem_map.mp listed
      have bounds := tiled.inside tile listedTile
      simp [Token.endColumn, empty] at bounds
  · rcases tokens_of_not_isCode h code with rfl | ⟨rfl, some⟩
    · exact ⟨List.Pairwise.nil, fun _ none => absurd none List.not_mem_nil⟩
    · refine ⟨List.pairwise_singleton _ _, List.forall_mem_singleton.mpr ?_⟩
      simpa [String.ofList_eq_empty_iff] using some

/-- **Tokens tile their line**: the tokens of a line of code without an error make up the line, every
character of which is white space outside strings or belongs to exactly one of them. The tokens of a
source follow one another, and none is empty. -/
theorem tokenize_tiles (source : String) :
    (∀ number line, (Text.lines source.toList)[number]? = some line →
      isCode (Text.content line) →
      (∀ problem ∈ escapeErrors source, problem.line ≠ number + 1) →
      ∃ tiles, tiles.map (·.token) = (tokenize source).filter (·.line = number + 1) ∧
        Tiles (Text.content line) tiles ∧
        ∀ column c, (Text.content line)[column]? = some c →
          ¬ (Text.isBlank c ∧ modeAfter ((Text.content line).take column) = .code) →
          ∃! tile, tile ∈ tiles ∧ tile.Covers column) ∧
      (tokenize source).Pairwise Token.Precedes ∧
      ∀ token ∈ tokenize source, token.lexeme ≠ "" := by
  refine ⟨?_, ?_, ?_⟩
  · intro number line listed code clean
    obtain ⟨tokens, read⟩ := exists_tokens_of_no_error listed clean
    rw [filter_line_tokenize listed, read]
    rw [lineTokens_of_isCode _ code] at read
    obtain ⟨tiles, same, tiled⟩ := exists_tiles_of_codeTokens read
    exact ⟨tiles, same, tiled, fun column c found solid => tiled.existsUnique_covers found solid⟩
  · exact pairwise_tokenize (fun _ _ _ read => (ordered_of_lineTokens read).1)
      (fun _ _ smaller => Or.inl smaller) source
  · intro token listed
    obtain ⟨number, line, tokens, -, read, mem, -⟩ := exists_line_of_mem_tokenize listed
    exact (ordered_of_lineTokens read).2 token mem

/-- Two lines. The first one has an unknown escape; the second one has joined operators, known
escapes and white space of several sorts. -/
def mixedSource : String :=
  "a = \"\\q\";\n b+=\"\\t\u00e9 \\\"\"\u3000--c"

/-- The second line of `mixedSource` is read without an error, so its tokens tile it. -/
theorem tokenize_tiles_mixedSource :
    ∃ line, (Text.lines mixedSource.toList)[1]? = some line ∧ isCode (Text.content line) ∧
      (∀ problem ∈ escapeErrors mixedSource, problem.line ≠ 1 + 1) ∧
      ∃ tiles, tiles.map (·.token) = (tokenize mixedSource).filter (·.line = 1 + 1) ∧
        Tiles (Text.content line) tiles := by
  have listed : (Text.lines mixedSource.toList)[1]? =
      some " b+=\"\\t\u00e9 \\\"\"\u3000--c".toList := by decide +kernel
  have code : isCode (Text.content " b+=\"\\t\u00e9 \\\"\"\u3000--c".toList) := by decide +kernel
  have clean : ∀ problem ∈ escapeErrors mixedSource, problem.line ≠ 1 + 1 := by decide +kernel
  obtain ⟨tiles, same, tiled, -⟩ := (tokenize_tiles mixedSource).1 1 _ listed code clean
  exact ⟨_, listed, code, clean, tiles, same, tiled⟩

end ScriptLens
