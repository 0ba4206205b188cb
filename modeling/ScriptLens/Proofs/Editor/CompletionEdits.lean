import ScriptLens.Proofs.Editor.NameOffers
import ScriptLens.Proofs.Editor.TokenRange
import ScriptLens.Proofs.Query.MemberAccess
import ScriptLens.Proofs.Text.Clamping

/-! # What an accepted offer changes
An offer replaces what has been typed of the token under the caret. The place of that token counts the
characters of its line, and so does the caret, so that on a line without backslashes the replaced text is
the beginning of the lexeme up to the caret.
Main definitions:
* `CompletionItem.IsWord`, `CompletionItem.IsSymbol`: the two sorts of offers.
* `Document.ReplacesTyped`: what a list of offers replaces.
Main statements:
* `between_editRange`: what an offer replaces.
* `exists_split_complete`: offers of reserved words come before those of symbols.
* `complete_replaces_typed`: what is offered, and what accepting an offer changes. -/

namespace ScriptLens

open Text (Position TextRange)

/-! ## The replaced stretch -/

/-- The token for which offers are made starts before the caret or at it. -/
theorem Document.column_completedAt_le (document : Document) (caret : Position) :
    (document.completedAt caret).current.column ≤ caret.character := by
  cases under : document.cursorAt? caret with
  | none =>
    rw [Document.completedAt_of_none under]
    exact le_refl caret.character
  | some cursor =>
    rw [Document.completedAt_of_some under]
    exact (Token.covers_iff.mp (Document.current_of_cursorAt? under).2).2.1

section

variable (token : Token) (caret : Position)

/-- The replaced stretch starts on the line of the caret. -/
@[simp] theorem editRange_start_line : (editRange token caret).start.line = caret.line := by
  unfold editRange
  split <;> rfl

/-- The replaced stretch ends at the caret. -/
@[simp] theorem editRange_stop : (editRange token caret).stop = caret := by
  unfold editRange
  split <;> rfl

/-- The replaced stretch does not end before it starts. -/
theorem editRange_start_le_stop (starts : token.column ≤ caret.character) :
    (editRange token caret).start ≤ (editRange token caret).stop := by
  unfold editRange
  split
  · exact le_refl caret
  · exact Text.Position.le_iff.mpr (Or.inr ⟨rfl, starts⟩)

end

/-- Nothing is replaced behind a dot, nor where there is no token. -/
theorem between_editRange_eq_nil {document : Document} {caret : Position} {cursor : Cursor}
    (completed : document.completedAt caret = cursor) (text : List Char)
    (empty : cursor.current.kind = .dot ∨ document.cursorAt? caret = none) :
    Text.between text (editRange cursor.current caret) = [] := by
  have atCaret : editRange cursor.current caret = ⟨caret, caret⟩ := by
    rcases empty with isDot | missing
    · exact if_pos isDot
    · rw [← completed, Document.completedAt_of_none missing]
      rfl
  simp [atCaret]

/-- On a line without backslashes, the characters of the token up to the caret are replaced. -/
theorem between_editRange_of_some {text : String} {caret : Position} {cursor : Cursor}
    (found : (Document.parse text).cursorAt? caret = some cursor)
    (free : '\\' ∉ lineAt text caret.line) (notDot : cursor.current.kind ≠ .dot) :
    Text.between text.toList (editRange cursor.current caret) <+: cursor.current.lexeme.toList ∧
      (Text.between text.toList (editRange cursor.current caret)).length =
        caret.character - cursor.current.column := by
  obtain ⟨listed, covers⟩ := Document.current_of_cursorAt? found
  obtain ⟨onLine, starts, ends⟩ := Token.covers_iff.mp covers
  have place : cursor.current.line - 1 = caret.line := by omega
  obtain ⟨line, start, rest, isLine, around, width⟩ :=
    exists_around_of_mem_tokenize listed (place ▸ free)
  rw [place] at isLine
  -- The caret cuts the lexeme in two, and the first part is what has been typed.
  obtain ⟨typed, later, lexeme, length⟩ : ∃ typed later,
      cursor.current.lexeme.toList = typed ++ later ∧
        typed.length = caret.character - cursor.current.column := by
    rw [Token.endColumn_eq] at ends
    exact ⟨_, _, (List.take_append_drop _ _).symm, List.length_take_of_le (by omega)⟩
  rw [lexeme, List.append_assoc] at around
  have upToCaret := Text.before_append_of_line isLine around
  rw [width, length, Nat.add_sub_cancel' starts] at upToCaret
  rw [editRange, if_neg notDot, Text.between_eq upToCaret]
  exact ⟨⟨later, lexeme.symm⟩, length⟩

/-- On a line without backslashes, a beginning of the token is replaced, and unless the token is a dot,
the beginning reaches up to the caret. -/
theorem between_editRange {text : String} {caret : Position} {cursor : Cursor}
    (completed : (Document.parse text).completedAt caret = cursor)
    (free : '\\' ∉ lineAt text caret.line) :
    Text.between text.toList (editRange cursor.current caret) <+: cursor.current.lexeme.toList ∧
      (cursor.current.kind ≠ .dot →
        (Text.between text.toList (editRange cursor.current caret)).length =
          caret.character - cursor.current.column) := by
  have empty := between_editRange_eq_nil completed text.toList
  by_cases isDot : cursor.current.kind = .dot
  · rw [empty (Or.inl isDot)]
    exact ⟨List.nil_prefix, fun notDot => absurd isDot notDot⟩
  · cases under : (Document.parse text).cursorAt? caret with
    | none =>
      rw [empty (Or.inr under), ← completed, Document.completedAt_of_none under]
      exact ⟨List.nil_prefix, fun _ => (Nat.sub_self caret.character).symm⟩
    | some found =>
      obtain rfl : found = cursor := (Document.completedAt_of_some under).symm.trans completed
      obtain ⟨isPrefix, length⟩ := between_editRange_of_some under free isDot
      exact ⟨isPrefix, fun _ => length⟩

/-! ## The two sorts of offers -/

/-- Whether an offer is that of a reserved word. -/
def CompletionItem.IsWord (item : CompletionItem) : Prop :=
  ∃ word kind, (word, kind) ∈ Vocabulary.keywords ∧ item.label = word ∧ item.detail = kind.name ∧
    item.category = if kind = .keyword then .keywordItem else .textItem

/-- Whether an offer is that of a symbol of an outline. -/
def CompletionItem.IsSymbol (outline : Outline) (item : CompletionItem) : Prop :=
  ∃ symbol ∈ outline.symbols, item.label = symbol.name ∧ item.detail = symbol.typeName ∧
    item.category = .ofKind symbol.kind

/-- What stands behind the dots of a chain are symbols of the outline. -/
theorem chainMembers_subset_symbols (outline : Outline) (chain : Chain) :
    outline.chainMembers chain ⊆ outline.symbols := by
  intro symbol listed
  unfold Outline.chainMembers at listed
  cases led : outline.resolve? chain.segments with
  | none =>
    rw [led] at listed
    exact absurd listed List.not_mem_nil
  | some container =>
    rw [led] at listed
    obtain ⟨member, among, rfl⟩ := List.mem_map.mp listed
    exact Forest.mem_toList_of_mem_subtrees ((Outline.isContainer_resolve? led).members_subset among)

/-- The symbols that may take the place of a token are symbols of the outline. -/
theorem completions_subset_symbols (outline : Outline) (cursor : Cursor) :
    outline.completions cursor ⊆ outline.symbols := by
  unfold Outline.completions
  cases Chain.at? cursor with
  | none => exact offered_subset_symbols outline _ _
  | some chain => exact chainMembers_subset_symbols outline chain

/-- Away from dots, the names of the symbols that may take the place of a token contain its lexeme. -/
theorem infix_of_mem_completions {outline : Outline} {cursor : Cursor} {symbol : Symbol}
    (undotted : Chain.at? cursor = none) (listed : symbol ∈ outline.completions cursor) :
    cursor.current.lexeme.toList <:+: symbol.name.toList := by
  unfold Outline.completions at listed
  rw [undotted] at listed
  exact Outline.infix_of_mem_offered listed

/-- A candidate among the reserved words starts with the lexeme of the token. -/
theorem exists_word_of_mem_keywordCandidates {token : Token} {candidate : Candidate}
    (listed : candidate ∈ keywordCandidates token) :
    ∃ word kind, (word, kind) ∈ Vocabulary.keywords ∧ token.lexeme.toList <+: word.toList ∧
      candidate = .ofToken { token with kind, lexeme := word } := by
  obtain ⟨⟨word, kind⟩, among, rfl⟩ := List.mem_map.mp listed
  obtain ⟨known, starts⟩ := List.mem_filter.mp among
  exact ⟨word, kind, known, List.isPrefixOf_iff_prefix.mp starts, rfl⟩

/-- The candidates are some reserved words, of which there are none behind a dot, before the symbols. -/
theorem exists_candidates_eq (document : Document) (cursor : Cursor) :
    ∃ words ⊆ keywordCandidates cursor.current,
      document.candidates cursor = words ++ (document.outline.completions cursor).map .ofSymbol ∧
      ((Chain.at? cursor).isSome → words = []) := by
  refine ⟨_, ?_, rfl, fun dotted => if_neg ?_⟩
  · intro candidate listed
    exact (List.mem_ite_nil_right.mp listed).2
  · simp [Option.ne_none_iff_isSome.mpr dotted]

/-- The offers of reserved words come before those of symbols. There are none of them behind a dot, and
elsewhere every label contains the lexeme of the token. -/
theorem exists_split_complete (document : Document) (caret : Position) (trigger : Option Int) :
    ∃ words symbols, document.complete caret trigger = words ++ symbols ∧
      ((Chain.at? (document.completedAt caret)).isSome → words = []) ∧
      (∀ item ∈ words, item.IsWord ∧
        (document.completedAt caret).current.lexeme.toList <+: item.label.toList) ∧
      ∀ item ∈ symbols, item.IsSymbol document.outline ∧
        (Chain.at? (document.completedAt caret) = none →
          (document.completedAt caret).current.lexeme.toList <:+: item.label.toList) := by
  obtain ⟨words, areWords, split, undotted⟩ :=
    exists_candidates_eq document (document.completedAt caret)
  rw [Document.complete_eq, split, List.filter_append, List.map_append]
  refine ⟨_, _, rfl, fun dotted => ?_, ?_, ?_⟩
  · rw [undotted dotted]
    rfl
  · intro item listed
    obtain ⟨candidate, fits, rfl⟩ := List.mem_map.mp listed
    obtain ⟨word, kind, known, starts, rfl⟩ :=
      exists_word_of_mem_keywordCandidates (areWords (List.mem_of_mem_filter fits))
    exact ⟨⟨word, kind, known, rfl, rfl, rfl⟩, starts⟩
  · intro item listed
    obtain ⟨candidate, fits, rfl⟩ := List.mem_map.mp listed
    obtain ⟨symbol, isSymbol, rfl⟩ := List.mem_map.mp (List.mem_of_mem_filter fits)
    exact ⟨⟨symbol, completions_subset_symbols _ _ isSymbol, rfl, rfl, rfl⟩,
      fun undotted => infix_of_mem_completions undotted isSymbol⟩

/-- Behind a dot every label starts with what stands there. -/
theorem typed_prefix_of_mem_complete {document : Document} {caret : Position} {trigger : Option Int}
    {chain : Chain} {item : CompletionItem}
    (dotted : Chain.at? (document.completedAt caret) = some chain)
    (offered : item ∈ document.complete caret trigger) :
    chain.typed.toList <+: item.label.toList := by
  rw [Document.complete_eq, dotted] at offered
  obtain ⟨candidate, fits, rfl⟩ := List.mem_map.mp offered
  exact List.isPrefixOf_iff_prefix.mp (List.mem_filter.mp fits).2

/-! ## Accepted offers -/

/-- What a list of offers at a caret replaces, where all of them replace the same range. -/
structure Document.ReplacesTyped (document : Document) (caret : Position) (range : TextRange)
    (items : List CompletionItem) : Prop where
  /-- Every offer replaces the range. -/
  inserts : ∀ item ∈ items, item.insertion = .replacing range
  /-- The range lies on the line of the caret. -/
  start_line : range.start.line = caret.line
  /-- The range ends at the caret. -/
  stop_eq : range.stop = caret
  /-- The range does not end before it starts. -/
  start_le_stop : range.start ≤ range.stop
  /-- An accepted offer changes nothing outside of the range. -/
  frame : ∃ left right,
    document.text.toList = left ++ (Text.between document.text.toList range ++ right) ∧
      ∀ item ∈ items, Text.splice document.text.toList range item.label.toList =
        left ++ (item.label.toList ++ right)
  /-- On a line without backslashes, a beginning of the token is replaced. -/
  typed : '\\' ∉ lineAt document.text caret.line →
    Text.between document.text.toList range <+: (document.completedAt caret).current.lexeme.toList
  /-- On a line without backslashes, the beginning of a token that is no dot reaches up to the caret. -/
  typed_length : '\\' ∉ lineAt document.text caret.line →
    (document.completedAt caret).current.kind ≠ .dot →
      (Text.between document.text.toList range).length =
        caret.character - (document.completedAt caret).current.column
  /-- Behind a dot, or where there is no token, nothing is replaced. -/
  typed_nil : (document.completedAt caret).current.kind = .dot ∨ document.cursorAt? caret = none →
    Text.between document.text.toList range = []
  /-- Behind a dot every label starts with what stands there. -/
  dotted : ∀ item ∈ items, ∀ chain, Chain.at? (document.completedAt caret) = some chain →
    chain.typed.toList <+: item.label.toList
  /-- Elsewhere every label contains the lexeme of the token. -/
  undotted : ∀ item ∈ items, Chain.at? (document.completedAt caret) = none →
    (document.completedAt caret).current.lexeme.toList <:+: item.label.toList
  /-- Reserved words are offered before symbols, and not behind a dot. -/
  words_first : ∃ words symbols, items = words ++ symbols ∧ (∀ item ∈ words, item.IsWord) ∧
    (∀ item ∈ symbols, item.IsSymbol document.outline) ∧
    ((Chain.at? (document.completedAt caret)).isSome → words = [])

/-- **Offers replace only typed text.** Unless a typed character has asked for them, all offers replace
one stretch, which lies on the line of the caret and ends at the caret, and nothing outside of the
stretch is changed by accepting an offer. If the line has no backslash, then the stretch is the
beginning of the token up to the caret, and behind a dot or without a token it is empty. Behind a dot
every label starts with what stands there, and elsewhere it contains the lexeme of the token. Reserved
words are offered before symbols, and not behind a dot. -/
theorem complete_replaces_typed (text : String) (caret : Position) (trigger : Option Int)
    (asked : trigger ≠ some typedCharacter) :
    (Document.parse text).ReplacesTyped caret
      (editRange ((Document.parse text).completedAt caret).current caret)
      ((Document.parse text).complete caret trigger) := by
  have forward := editRange_start_le_stop _ caret ((Document.parse text).column_completedAt_le caret)
  obtain ⟨words, symbols, split, undotted, ofWords, ofSymbols⟩ :=
    exists_split_complete (Document.parse text) caret trigger
  exact
    { inserts := fun item offered => Document.insertion_eq_of_mem_complete asked offered
      start_line := editRange_start_line _ caret
      stop_eq := editRange_stop _ caret
      start_le_stop := forward
      frame := by
        obtain ⟨left, right, whole, spliced⟩ := Text.exists_around_between text.toList forward
        exact ⟨left, right, whole, fun item _ => spliced item.label.toList⟩
      typed := fun free => (between_editRange rfl free).1
      typed_length := fun free => (between_editRange rfl free).2
      typed_nil := between_editRange_eq_nil rfl text.toList
      dotted := fun item offered chain dotted => typed_prefix_of_mem_complete dotted offered
      undotted := by
        intro item offered noChain
        rcases List.mem_append.mp (split ▸ offered) with isWord | isSymbol
        · exact (ofWords item isWord).2.isInfix
        · exact (ofSymbols item isSymbol).2 noChain
      words_first := ⟨words, symbols, split, fun item listed => (ofWords item listed).1,
        fun item listed => (ofSymbols item listed).1, undotted⟩ }

/-- A variable, and the start of its name behind a tab. -/
def heightSource : String :=
  "var h\u00f6he;\n\tx = h\u00f6h"

/-- The start of the name. -/
def heightStart : Token where
  kind := .text
  lexeme := "h\u00f6h"
  line := 2
  column := 5

/-- The tokens of `heightSource`. -/
def heightTokens : List Token :=
  [⟨.keyword, "var", 1, 0⟩, ⟨.text, "h\u00f6he", 1, 4⟩, ⟨.semicolon, ";", 1, 8⟩, ⟨.text, "x", 2, 1⟩,
    ⟨.equalSign, "=", 2, 3⟩, heightStart]

/-- With the caret before its last character, the first two characters of the start are replaced by the
offered name. -/
theorem complete_replaces_typed_height :
    '\\' ∉ lineAt heightSource 1 ∧
      ∃ item ∈ (Document.parse heightSource).complete ⟨1, 7⟩ none, item.label = "h\u00f6he" ∧
        item.insertion = .replacing ⟨⟨1, 5⟩, ⟨1, 7⟩⟩ ∧
        Text.between heightSource.toList ⟨⟨1, 5⟩, ⟨1, 7⟩⟩ <+: heightStart.lexeme.toList ∧
        (Text.between heightSource.toList ⟨⟨1, 5⟩, ⟨1, 7⟩⟩).length = 2 ∧
        heightStart.lexeme.toList <:+: item.label.toList := by
  have free : '\\' ∉ lineAt heightSource 1 := by decide +kernel
  have read : tokenize heightSource = heightTokens := by decide +kernel
  -- The caret is on the start of the name, which is not behind a dot.
  have under : (Document.parse heightSource).cursorAt? ⟨1, 7⟩ =
      some { tokens := heightTokens, position := 5 } := by
    rw [Document.parse, read]
    decide
  have undotted : Chain.at? { tokens := heightTokens, position := 5 } = none := by decide
  have shown : (Document.parse heightSource).outline.symbols.any fun symbol =>
      symbol.isVisibleOn 2 && symbol.name = "h\u00f6he" := by
    rw [Document.parse, read]
    cbv
  obtain ⟨symbol, declared, isShown⟩ := List.any_eq_true.mp shown
  obtain ⟨visible, named⟩ := Bool.and_eq_true_iff.mp isShown
  have name := of_decide_eq_true named
  obtain ⟨item, listed, label, -⟩ : ∃ item ∈ (Document.parse heightSource).complete ⟨1, 7⟩ none,
      item.label = symbol.name ∧ item.category = _ ∧ item.detail = _ :=
    Document.exists_mem_complete under undotted
      (symbol_mem_candidates undotted declared visible (name ▸ by decide))
  have replaces := complete_replaces_typed heightSource ⟨1, 7⟩ none (by decide)
  have typed := replaces.typed free
  have length := replaces.typed_length free
  have contained := replaces.undotted item listed
  rw [Document.completedAt_of_some under] at replaces typed length contained
  exact ⟨free, item, listed, label.trans name, replaces.inserts item listed, typed,
    length (by decide), contained undotted⟩

end ScriptLens
