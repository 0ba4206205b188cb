import ScriptLens.Proofs.Token.Tiling

/-! # The token at a caret
The tokens of a source do not overlap. A place right behind a token still belongs to it, and so two
tokens claim the place if the second one starts there; then the second one is taken.
Main definitions:
* `Token.EndsBefore`: a token ends before another one starts.
* `Token.Touches`: a token starts right where another one ends.
Main statements:
* `pairwise_endsBefore_tokenize`: the tokens of every source end before the later ones start.
* `indexAt?_append`: the token at a place is the last one that covers it.
* `indexAt?_end_of_apart`, `indexAt?_end_of_touches`: the token right behind which a caret stands is
  taken exactly if the next token does not touch it.
* `length_filter_covers_le_two`: at most two tokens cover a place.
* `indexAt?_tokenize`: which tokens of a source cover a place, and which one is taken. -/

namespace ScriptLens

namespace Token

/-- A token ends before another one starts, on the same line or on an earlier one. -/
@[grind] def EndsBefore (token other : Token) : Prop :=
  token.line < other.line ∨ token.line = other.line ∧ token.endColumn ≤ other.column

/-- Whether the next token starts right where a token ends. -/
@[grind] def Touches (token next : Token) : Prop :=
  next.line = token.line ∧ next.column = token.endColumn

/-- A token covers the places on its line from its column to its end. -/
@[grind =] theorem covers_iff {token : Token} {line column : Nat} :
    token.covers line column ↔
      token.line = line ∧ token.column ≤ column ∧ column ≤ token.endColumn := by
  simp [covers, and_assoc]

/-- A token does not end before the column where it starts. -/
@[grind .] theorem column_le_endColumn (token : Token) : token.column ≤ token.endColumn := by
  simp

/-- A token that is not empty ends behind the column where it starts. -/
@[grind →] theorem column_lt_endColumn {token : Token} (solid : token.lexeme ≠ "") :
    token.column < token.endColumn := by
  have positive : 0 < token.lexeme.toList.length := List.length_pos_iff.mpr (by simpa using solid)
  simpa using positive

/-- A token covers its end. -/
@[simp] theorem covers_end (token : Token) : token.covers token.line token.endColumn := by
  grind

/-- Behind a token its end is covered only by a token that touches it. -/
@[simp] theorem covers_end_iff_touches {token other : Token} (apart : token.EndsBefore other) :
    other.covers token.line token.endColumn ↔ token.Touches other := by
  rcases apart with above | ⟨same, order⟩
  · grind
  · grind

/-- A token behind one that is not empty does not touch a token before it. -/
theorem not_touches_of_between {token next other : Token} (first : token.EndsBefore next)
    (second : next.EndsBefore other) (solid : next.lexeme ≠ "") : ¬ token.Touches other := by
  grind

/-- Of two tokens that cover a place, one behind the other, the first one ends there and the second
one starts there. -/
@[grind →] theorem EndsBefore.eq_of_covers {token next : Token} {line column : Nat}
    (apart : token.EndsBefore next) (covers : token.covers line column)
    (coversNext : next.covers line column) : token.endColumn = column ∧ next.column = column := by
  grind

end Token

/-! ## Tokens of a source -/

/-- The tokens of a line end before the later ones start. -/
theorem pairwise_endsBefore_of_lineTokens {line : Nat} {text : List Char} {tokens : List Token}
    (h : lineTokens line text = .ok tokens) : tokens.Pairwise Token.EndsBefore := by
  have onLine := line_of_mem_lineTokens h
  by_cases code : isCode text
  · rw [lineTokens_of_isCode line code] at h
    obtain ⟨tiles, rfl, tiled⟩ := exists_tiles_of_codeTokens h
    rw [List.pairwise_map]
    refine tiled.ordered.imp_of_mem fun {left right} hleft hright order => Or.inr ⟨?_, ?_⟩
    · rw [onLine _ (List.mem_map_of_mem hleft), onLine _ (List.mem_map_of_mem hright)]
    · have bounds := tiled.inside left hleft
      omega
  · rcases tokens_of_not_isCode h code with rfl | ⟨rfl, -⟩
    · exact List.Pairwise.nil
    · exact List.pairwise_singleton _ _

/-- The tokens of a source end before the later ones start. -/
theorem pairwise_endsBefore_tokenize (source : String) :
    (tokenize source).Pairwise Token.EndsBefore :=
  pairwise_tokenize (fun _ _ _ read => pairwise_endsBefore_of_lineTokens read)
    (fun _ _ above => Or.inl above) source

/-- No token of a source is empty. -/
theorem lexeme_ne_of_mem_tokenize {source : String} {token : Token}
    (listed : token ∈ tokenize source) : token.lexeme ≠ "" := by
  obtain ⟨number, line, tokens, -, read, mem, -⟩ := exists_line_of_mem_tokenize listed
  exact (ordered_of_lineTokens read).2 token mem

/-! ## The token that is taken -/

/-- The token found at a place covers the place. -/
theorem Token.exists_of_indexAt? {tokens : List Token} {line column index : Nat}
    (h : Token.indexAt? tokens line column = some index) :
    ∃ token, tokens[index]? = some token ∧ token.covers line column := by
  unfold Token.indexAt? at h
  obtain ⟨⟨token, number⟩, listed, rfl⟩ := List.mem_map.mp (List.mem_of_getLast? h)
  obtain ⟨numbered, covers⟩ := List.mem_filter.mp listed
  exact ⟨token, List.mem_zipIdx_iff_getElem?.mp numbered, covers⟩

/-- A token that covers a place is taken there if no later one covers it. -/
theorem indexAt?_append {earlier later : List Token} {token : Token} {line column : Nat}
    (covers : token.covers line column) (free : ∀ other ∈ later, ¬ other.covers line column) :
    Token.indexAt? (earlier ++ token :: later) line column = some earlier.length := by
  show (((earlier ++ token :: later).zipIdx.filter fun entry => entry.1.covers line column).map
    Prod.snd).getLast? = some earlier.length
  have nothing : (later.zipIdx (earlier.length + 1)).filter
      (fun entry => entry.1.covers line column) = [] := by
    rw [List.filter_eq_nil_iff]
    intro entry numbered
    exact free entry.1 (List.fst_mem_of_mem_zipIdx numbered)
  rw [List.zipIdx_append, List.zipIdx_cons, Nat.zero_add, List.filter_append, List.filter_cons,
    nothing]
  simp [covers]

section

variable {earlier later : List Token} {token next : Token}

/-- Right behind a token that token is taken, if the next one does not touch it. -/
theorem indexAt?_end_of_apart (ordered : (earlier ++ token :: later).Pairwise Token.EndsBefore)
    (solid : ∀ other ∈ later, other.lexeme ≠ "")
    (apart : ∀ next ∈ later.head?, ¬ token.Touches next) :
    Token.indexAt? (earlier ++ token :: later) token.line token.endColumn = some earlier.length := by
  obtain ⟨behind, orderedLater⟩ := List.pairwise_cons.mp (List.pairwise_append.mp ordered).2.1
  refine indexAt?_append token.covers_end fun other listed covers => ?_
  have touches := (Token.covers_end_iff_touches (behind other listed)).mp covers
  cases later with
  | nil => exact absurd listed List.not_mem_nil
  | cons next rest =>
    rcases List.mem_cons.mp listed with rfl | further
    · exact apart other rfl touches
    · -- Between the two there is the next token, which is not empty.
      exact Token.not_touches_of_between (behind next List.mem_cons_self)
        ((List.pairwise_cons.mp orderedLater).1 other further) (solid next List.mem_cons_self) touches

/-- Right behind a token the next one is taken, if it touches it. -/
theorem indexAt?_end_of_touches
    (ordered : (earlier ++ token :: next :: later).Pairwise Token.EndsBefore)
    (solid : next.lexeme ≠ "") (touches : token.Touches next) :
    Token.indexAt? (earlier ++ token :: next :: later) token.line token.endColumn =
      some (earlier.length + 1) := by
  obtain ⟨behind, orderedLater⟩ := List.pairwise_cons.mp (List.pairwise_append.mp ordered).2.1
  have split : earlier ++ token :: next :: later = (earlier ++ [token]) ++ next :: later := by simp
  have width : (earlier ++ [token]).length = earlier.length + 1 := by simp
  rw [split, ← width]
  refine indexAt?_append ?_ fun other listed covers => ?_
  · exact (Token.covers_end_iff_touches (behind next List.mem_cons_self)).mpr touches
  · have further := (Token.covers_end_iff_touches (behind other (List.mem_cons_of_mem _ listed))).mp
      covers
    exact Token.not_touches_of_between (behind next List.mem_cons_self)
      ((List.pairwise_cons.mp orderedLater).1 other listed) solid further

end

/-! ## Every place -/

section

variable {tokens : List Token} {token next : Token} {line column first second index : Nat}

/-- No token is taken exactly where no token covers the place. -/
theorem indexAt?_eq_none_iff :
    Token.indexAt? tokens line column = none ↔ ∀ token ∈ tokens, ¬ token.covers line column := by
  unfold Token.indexAt?
  rw [List.getLast?_eq_none_iff, List.map_eq_nil_iff, List.filter_eq_nil_iff]
  constructor
  · intro free token listed
    obtain ⟨index, here⟩ := List.mem_iff_getElem?.mp listed
    exact free (token, index) (List.mem_zipIdx_iff_getElem?.mpr here)
  · intro free entry numbered
    exact free entry.1 (List.fst_mem_of_mem_zipIdx numbered)

/-- A token that covers a place is taken there if none with a greater index covers it. -/
theorem indexAt?_of_last (here : tokens[index]? = some token) (covers : token.covers line column)
    (free : ∀ later other, index < later → tokens[later]? = some other →
      ¬ other.covers line column) : Token.indexAt? tokens line column = some index := by
  obtain ⟨bound, rfl⟩ := List.getElem?_eq_some_iff.mp here
  have split : tokens = tokens.take index ++ tokens[index] :: tokens.drop (index + 1) := by
    rw [List.getElem_cons_drop, List.take_append_drop]
  have width : (tokens.take index).length = index := List.length_take_of_le (Nat.le_of_lt bound)
  have freeBehind : ∀ other ∈ tokens.drop (index + 1), ¬ other.covers line column := by
    intro other listed
    obtain ⟨place, there⟩ := List.mem_iff_getElem?.mp listed
    rw [List.getElem?_drop] at there
    exact free _ other (by omega) there
  have taken : Token.indexAt? (tokens.take index ++ tokens[index] :: tokens.drop (index + 1)) line
      column = some (tokens.take index).length := indexAt?_append covers freeBehind
  rwa [← split, width] at taken

/-- A token ends before those with a greater index start. -/
theorem endsBefore_of_lt (ordered : tokens.Pairwise Token.EndsBefore)
    (here : tokens[first]? = some token) (there : tokens[second]? = some next)
    (before : first < second) : token.EndsBefore next := by
  obtain ⟨bound, rfl⟩ := List.getElem?_eq_some_iff.mp here
  obtain ⟨boundNext, rfl⟩ := List.getElem?_eq_some_iff.mp there
  exact List.pairwise_iff_getElem.mp ordered first second bound boundNext before

/-- Three tokens behind one another, the middle one of which is not empty, do not all cover a
place. -/
theorem Token.not_covers_third {last : Token} (apart : token.EndsBefore next)
    (apartNext : next.EndsBefore last) (solid : next.lexeme ≠ "") (covers : token.covers line column)
    (coversNext : next.covers line column) : ¬ last.covers line column := by
  intro coversLast
  have starts := (apart.eq_of_covers covers coversNext).2
  have ends := (apartNext.eq_of_covers coversNext coversLast).1
  grind

/-- At most two tokens cover a place. -/
theorem length_filter_covers_le_two (ordered : tokens.Pairwise Token.EndsBefore)
    (solid : ∀ token ∈ tokens, token.lexeme ≠ "") :
    (tokens.filter (·.covers line column)).length ≤ 2 := by
  have orderedCovering := ordered.filter (·.covers line column)
  have covering : ∀ token ∈ tokens.filter (·.covers line column),
      token ∈ tokens ∧ token.covers line column := fun token => List.mem_filter.mp
  -- A third token among them would have to cover the place as well.
  match found : tokens.filter (·.covers line column) with
  | [] | [_] | [_, _] => simp [found]
  | token :: next :: last :: rest =>
    rw [found] at orderedCovering covering
    simp only [List.forall_mem_cons] at covering
    obtain ⟨⟨-, covers⟩, ⟨listed, coversNext⟩, ⟨-, coversLast⟩, -⟩ := covering
    obtain ⟨behind, orderedRest⟩ := List.pairwise_cons.mp orderedCovering
    have apart := behind next List.mem_cons_self
    have apartNext := (List.pairwise_cons.mp orderedRest).1 last List.mem_cons_self
    exact absurd coversLast
      (Token.not_covers_third apart apartNext (solid next listed) covers coversNext)

/-- Of two tokens that cover a place the second one is taken; it follows the first one immediately and
starts where that one ends. -/
theorem indexAt?_of_covers_both (ordered : tokens.Pairwise Token.EndsBefore)
    (solid : ∀ token ∈ tokens, token.lexeme ≠ "") (before : first < second)
    (here : tokens[first]? = some token) (there : tokens[second]? = some next)
    (covers : token.covers line column) (coversNext : next.covers line column) :
    second = first + 1 ∧ token.Touches next ∧
      Token.indexAt? tokens line column = some second := by
  have apart := endsBefore_of_lt ordered here there before
  have touches : token.Touches next := by
    obtain ⟨ends, starts⟩ := apart.eq_of_covers covers coversNext
    exact ⟨(Token.covers_iff.mp coversNext).1.trans (Token.covers_iff.mp covers).1.symm,
      starts.trans ends.symm⟩
  refine ⟨?_, touches, indexAt?_of_last there coversNext fun later other behind found => ?_⟩
  · refine Classical.byContradiction fun distant => ?_
    have between : first + 1 < second := by omega
    have bound := (List.getElem?_eq_some_iff.mp there).1
    have middle : tokens[first + 1]? = some tokens[first + 1] := List.getElem?_eq_getElem _
    exact Token.not_touches_of_between
      (endsBefore_of_lt ordered here middle (Nat.lt_succ_self first))
      (endsBefore_of_lt ordered middle there between)
      (solid _ (List.mem_of_getElem? middle)) touches
  · exact Token.not_covers_third apart (endsBefore_of_lt ordered there found behind)
      (solid next (List.mem_of_getElem? there)) covers coversNext

/-- A token with a place on one of its characters is taken there. -/
theorem indexAt?_of_inside (ordered : tokens.Pairwise Token.EndsBefore)
    (here : tokens[index]? = some token) (onLine : token.line = line) (starts : token.column ≤ column)
    (inside : column < token.endColumn) : Token.indexAt? tokens line column = some index := by
  have covers : token.covers line column :=
    Token.covers_iff.mpr ⟨onLine, starts, Nat.le_of_lt inside⟩
  refine indexAt?_of_last here covers fun later other behind found coversOther => ?_
  have ends := ((endsBefore_of_lt ordered here found behind).eq_of_covers covers coversOther).1
  omega

end

/-- **The token at a place is exact.** At most two tokens of a source cover a place. If two do, the
second one starts where the first one ends, and it is taken. A token with the place on one of its
characters is always taken, and some token that covers the place is taken unless there is none. -/
theorem indexAt?_tokenize (source : String) (line column : Nat) :
    let tokens := tokenize source
    (tokens.filter (·.covers line column)).length ≤ 2 ∧
    (∀ (first second : Nat) (token next : Token), first < second →
      tokens[first]? = some token → tokens[second]? = some next →
      token.covers line column → next.covers line column →
        second = first + 1 ∧ token.Touches next ∧
          Token.indexAt? tokens line column = some second) ∧
    (∀ (index : Nat) (token : Token), tokens[index]? = some token → token.line = line →
      token.column ≤ column → column < token.endColumn →
        Token.indexAt? tokens line column = some index) ∧
    (Token.indexAt? tokens line column = none ↔ ∀ token ∈ tokens, ¬ token.covers line column) ∧
    ∀ index, Token.indexAt? tokens line column = some index →
      ∃ token, tokens[index]? = some token ∧ token.covers line column := by
  intro tokens
  have ordered : tokens.Pairwise Token.EndsBefore := pairwise_endsBefore_tokenize source
  have solid : ∀ token ∈ tokens, token.lexeme ≠ "" := fun token => lexeme_ne_of_mem_tokenize
  refine ⟨length_filter_covers_le_two ordered solid, ?_, ?_, indexAt?_eq_none_iff,
    fun index => Token.exists_of_indexAt?⟩
  · intro first second token next before here there covers coversNext
    exact indexAt?_of_covers_both ordered solid before here there covers coversNext
  · intro index token here onLine starts inside
    exact indexAt?_of_inside ordered here onLine starts inside

/-- A joined operator with another one right behind it, and a string with two escapes. -/
def foldedSource : String :=
  "a<<=\"\\t\\n\";"

/-- Where the joined operator ends, the next one is taken, and before that the joined one. The closing
quote stands behind the shortened content of the string and touches nothing before it. -/
theorem indexAt?_tokenize_foldedSource :
    let tokens := tokenize foldedSource
    (∃ token next, tokens[1]? = some token ∧ tokens[2]? = some next ∧ token.covers 1 3 ∧
      next.covers 1 3 ∧ token.Touches next ∧ Token.indexAt? tokens 1 3 = some 2) ∧
    (∃ token, tokens[1]? = some token ∧ token.endColumn = 3 ∧
      Token.indexAt? tokens 1 2 = some 1) ∧
    (∀ token ∈ tokens, ¬ token.covers 1 8) ∧ Token.indexAt? tokens 1 8 = none := by
  have read : tokenize foldedSource =
      [⟨.text, "a", 1, 0⟩, ⟨.shiftLeft, "<<", 1, 1⟩, ⟨.equalSign, "=", 1, 3⟩,
        ⟨.doubleQuote, "\"", 1, 4⟩, ⟨.text, "\t\n", 1, 5⟩, ⟨.doubleQuote, "\"", 1, 9⟩,
        ⟨.semicolon, ";", 1, 10⟩] := by decide +kernel
  have atEnd := (indexAt?_tokenize foldedSource 1 3).2.1
  have inside := (indexAt?_tokenize foldedSource 1 2).2.2.1
  have nowhere := (indexAt?_tokenize foldedSource 1 8).2.2.2.1
  rw [read] at atEnd inside nowhere ⊢
  obtain ⟨-, touches, taken⟩ :=
    atEnd 1 2 _ _ (by decide) rfl rfl (by decide) (by decide)
  have free : ∀ token ∈ [(⟨.text, "a", 1, 0⟩ : Token), ⟨.shiftLeft, "<<", 1, 1⟩,
      ⟨.equalSign, "=", 1, 3⟩, ⟨.doubleQuote, "\"", 1, 4⟩, ⟨.text, "\t\n", 1, 5⟩,
      ⟨.doubleQuote, "\"", 1, 9⟩, ⟨.semicolon, ";", 1, 10⟩], ¬ token.covers 1 8 := by decide
  exact ⟨⟨_, _, rfl, rfl, by decide, by decide, touches, taken⟩,
    ⟨_, rfl, by decide, inside 1 _ rfl rfl (by decide) (by decide)⟩, free, nowhere.mpr free⟩

end ScriptLens
