import ScriptLens.Editor.Completion
import ScriptLens.Proofs.Query.Offered
import ScriptLens.Proofs.Token.Caret

/-! # Offers behind a name
With the caret right behind a name, the reserved words that start with it and the visible symbols whose
names contain it are offered, and an offer replaces the name. This holds as long as no token starts at
the caret. A token that touches the name is taken in its place, and then nothing that is offered
replaces the name.
Main definitions:
* `Document.completedAt`: the token for which offers are made.
* `Candidate.offer`: the offer that a candidate makes.
Main statements:
* `Document.complete_eq`, `Document.mem_complete_iff`: the offers for a caret.
* `keyword_mem_candidates`, `symbol_mem_candidates`: what is offered for a name.
* `cursorAt?_end_of_apart`, `cursorAt?_end_of_touches`: the token that is completed behind a name.
* `complete_behind_name`: what is offered there, and what the offers replace. -/

namespace ScriptLens

open Text (Position TextRange)

/-! ## Cursors on a token of a list -/

section

variable {earlier later : List Token} {token : Token}

/-- The token under a cursor that stands behind as many tokens as there are before it. -/
theorem Cursor.current_append :
    Cursor.current { tokens := earlier ++ token :: later, position := earlier.length } = token := by
  simp [Cursor.current, Cursor.get]

/-- The token right before such a cursor is the last one before it. -/
theorem Cursor.previous_append :
    Cursor.previous { tokens := earlier ++ token :: later, position := earlier.length } =
      earlier.getLast?.getD .missing := by
  rcases List.eq_nil_or_concat earlier with rfl | ⟨start, last, rfl⟩
  · rfl
  · simp [Cursor.previous, Cursor.get]

/-- A name without a dot before it is not the end of a chain. -/
theorem at?_append_eq_none (isText : token.kind = .text)
    (undotted : ∀ previous ∈ earlier.getLast?, previous.kind ≠ .dot) :
    Chain.at? { tokens := earlier ++ token :: later, position := earlier.length } = none := by
  refine Chain.at?_eq_none ?_ ?_
  · rw [Cursor.current_append, isText]
    decide
  · rw [Cursor.previous_append]
    cases last : earlier.getLast? with
    | none => decide
    | some previous => exact undotted previous last

end

/-! ## Offers -/

/-- A cursor on the token for which offers are made: the one under the caret, or else an empty name. -/
def Document.completedAt (document : Document) (caret : Position) : Cursor :=
  (document.cursorAt? caret).getD (emptyName caret)

/-- Where there is no token, offers are made for the empty name at the caret. -/
theorem Document.completedAt_of_none {document : Document} {caret : Position}
    (missing : document.cursorAt? caret = none) :
    document.completedAt caret = emptyName caret := by
  rw [Document.completedAt, missing, Option.getD_none]

/-- Where there is a token, offers are made for it. -/
theorem Document.completedAt_of_some {document : Document} {caret : Position} {cursor : Cursor}
    (found : document.cursorAt? caret = some cursor) : document.completedAt caret = cursor := by
  rw [Document.completedAt, found, Option.getD_some]

/-- The offer that a candidate makes. -/
def Candidate.offer (insertion : Insertion) (candidate : Candidate) : CompletionItem where
  label := candidate.describe.name
  category := candidate.describe.category
  detail := candidate.describe.typeName
  insertion := insertion

/-- The offers are those of the candidates that fit what stands behind the last dot. Accepting one of
them replaces what has been typed of the token, unless a typed character has asked for it. -/
theorem Document.complete_eq (document : Document) (caret : Position) (trigger : Option Int) :
    document.complete caret trigger =
      ((document.candidates (document.completedAt caret)).filter fun candidate =>
        Chain.admits (Chain.at? (document.completedAt caret)) candidate.describe.name).map
      (Candidate.offer (if trigger = some typedCharacter then .atCaret
        else .replacing (editRange (document.completedAt caret).current caret))) := by
  unfold Document.complete Document.completedAt
  dsimp only
  rw [List.filter_map, List.map_map]
  rfl

/-- The offers for a caret on a token are the candidates for that token that fit what stands behind the
last dot, and accepting one of them replaces what has been typed of the token, unless a typed character
has asked for it. -/
theorem Document.mem_complete_iff {document : Document} {caret : Position} {trigger : Option Int}
    {cursor : Cursor} {item : CompletionItem} (found : document.cursorAt? caret = some cursor) :
    item ∈ document.complete caret trigger ↔
      ∃ candidate ∈ document.candidates cursor,
        Chain.admits (Chain.at? cursor) candidate.describe.name ∧
          item = candidate.offer (if trigger = some typedCharacter then .atCaret
            else .replacing (editRange cursor.current caret)) := by
  rw [Document.complete_eq, Document.completedAt_of_some found]
  constructor
  · intro listed
    obtain ⟨candidate, fits, rfl⟩ := List.mem_map.mp listed
    obtain ⟨isCandidate, admitted⟩ := List.mem_filter.mp fits
    exact ⟨candidate, isCandidate, admitted, rfl⟩
  · rintro ⟨candidate, isCandidate, admitted, rfl⟩
    exact List.mem_map_of_mem (List.mem_filter.mpr ⟨isCandidate, admitted⟩)

/-- What an offer replaces, unless a typed character has asked for it. -/
theorem Document.insertion_eq_of_mem_complete {document : Document} {caret : Position}
    {trigger : Option Int} {item : CompletionItem} (asked : trigger ≠ some typedCharacter)
    (offered : item ∈ document.complete caret trigger) :
    item.insertion = .replacing (editRange (document.completedAt caret).current caret) := by
  rw [Document.complete_eq] at offered
  obtain ⟨candidate, -, rfl⟩ := List.mem_map.mp offered
  exact if_neg asked

/-- What an offer for a caret on a token replaces, unless a typed character has asked for it. -/
theorem Document.insertion_of_mem_complete {document : Document} {caret : Position}
    {trigger : Option Int} {cursor : Cursor} {item : CompletionItem}
    (found : document.cursorAt? caret = some cursor) (asked : trigger ≠ some typedCharacter)
    (offered : item ∈ document.complete caret trigger) :
    item.insertion = .replacing (editRange cursor.current caret) := by
  rw [Document.insertion_eq_of_mem_complete asked offered, Document.completedAt_of_some found]

/-- Behind a name that is not the end of a chain every candidate is offered. -/
theorem Document.exists_mem_complete {document : Document} {caret : Position} {trigger : Option Int}
    {cursor : Cursor} {candidate : Candidate} (found : document.cursorAt? caret = some cursor)
    (undotted : Chain.at? cursor = none) (isCandidate : candidate ∈ document.candidates cursor) :
    ∃ item ∈ document.complete caret trigger, item.label = candidate.describe.name ∧
      item.category = candidate.describe.category ∧ item.detail = candidate.describe.typeName := by
  have admitted : Chain.admits (Chain.at? cursor) candidate.describe.name := by
    rw [undotted]
    rfl
  exact ⟨_, (Document.mem_complete_iff found).mpr ⟨candidate, isCandidate, admitted, rfl⟩, rfl, rfl,
    rfl⟩

/-- Every reserved word that starts with a name is a candidate for it. -/
theorem keyword_mem_candidates {document : Document} {cursor : Cursor} {word : String}
    {kind : Token.Kind} (undotted : Chain.at? cursor = none) (solid : cursor.current.lexeme ≠ "")
    (listed : (word, kind) ∈ Vocabulary.keywords)
    (starts : cursor.current.lexeme.toList <+: word.toList) :
    .ofToken { cursor.current with kind, lexeme := word } ∈ document.candidates cursor := by
  have among : (word, kind) ∈ Vocabulary.keywordsStarting cursor.current.lexeme :=
    List.mem_filter.mpr ⟨listed, List.isPrefixOf_iff_prefix.mpr starts⟩
  have asked : ((Chain.at? cursor).isNone && !cursor.current.lexeme.isEmpty) = true := by
    simp [undotted, solid]
  unfold Document.candidates
  rw [if_pos asked]
  exact List.mem_append_left _ (List.mem_map.mpr ⟨(word, kind), among, rfl⟩)

/-- Every visible symbol whose name contains a name is a candidate for it. -/
theorem symbol_mem_candidates {text : String} {cursor : Cursor} {symbol : Symbol}
    (undotted : Chain.at? cursor = none) (found : symbol ∈ (Document.parse text).outline.symbols)
    (visible : symbol.isVisibleOn cursor.current.line)
    (contains : cursor.current.lexeme.toList <:+: symbol.name.toList) :
    .ofSymbol symbol ∈ (Document.parse text).candidates cursor := by
  have offered : symbol ∈ (Document.parse text).outline.completions cursor := by
    unfold Outline.completions
    rw [undotted]
    show symbol ∈ (Outline.ofTokens (tokenize text)).offered _ _
    rw [offered_ofTokens (inLineOrder_tokenize text), List.mem_filter,
      (Outline.membersFirst_perm _).mem_iff, Bool.and_eq_true, Text.occurs_iff]
    exact ⟨found, visible, contains⟩
  exact List.mem_append_right _ (List.mem_map_of_mem offered)

/-! ## The caret behind a name -/

/-- The place right behind a token, as an editor counts it. -/
def caretBehind (token : Token) : Position where
  line := token.line - 1
  character := token.endColumn

section

variable {text : String} {earlier later : List Token} {token next : Token}

/-- Behind a token the cursor stands on the token that is taken at its end. -/
theorem cursorAt?_caretBehind (listed : token ∈ tokenize text) :
    (Document.parse text).cursorAt? (caretBehind token) =
      (Token.indexAt? (tokenize text) token.line token.endColumn).map fun index =>
        { tokens := tokenize text, position := index } := by
  have line : token.line - 1 + 1 = token.line := by
    obtain ⟨number, -, -, -, -, -, line⟩ := exists_line_of_mem_tokenize listed
    omega
  unfold Document.cursorAt? Document.tokenIndex? caretBehind Document.parse
  dsimp only
  rw [line]

/-- Behind a token that the next one does not touch, that token is completed. -/
theorem cursorAt?_end_of_apart (read : tokenize text = earlier ++ token :: later)
    (apart : ∀ next ∈ later.head?, ¬ token.Touches next) :
    (Document.parse text).cursorAt? (caretBehind token) =
      some { tokens := earlier ++ token :: later, position := earlier.length } := by
  have solid : ∀ other ∈ later, other.lexeme ≠ "" := fun other found =>
    lexeme_ne_of_mem_tokenize (read ▸ List.mem_append_right _ (List.mem_cons_of_mem _ found))
  have ordered := pairwise_endsBefore_tokenize text
  rw [cursorAt?_caretBehind (by simp [read])]
  rw [read] at ordered ⊢
  rw [indexAt?_end_of_apart ordered solid apart, Option.map_some]

/-- Behind a token that the next one touches, the next one is completed. -/
theorem cursorAt?_end_of_touches (read : tokenize text = earlier ++ token :: next :: later)
    (touches : token.Touches next) :
    (Document.parse text).cursorAt? (caretBehind token) =
      some { tokens := earlier ++ token :: next :: later, position := earlier.length + 1 } := by
  have solid : next.lexeme ≠ "" := by
    have listed : next ∈ tokenize text := by simp [read]
    exact lexeme_ne_of_mem_tokenize listed
  have ordered := pairwise_endsBefore_tokenize text
  rw [cursorAt?_caretBehind (by simp [read])]
  rw [read] at ordered ⊢
  rw [indexAt?_end_of_touches ordered solid touches, Option.map_some]

/-- Behind a name that has no dot before it and that the next token does not touch, the name is
completed, and not as the end of a chain. -/
theorem exists_cursor_behind_name (read : tokenize text = earlier ++ token :: later)
    (isText : token.kind = .text) (undotted : ∀ previous ∈ earlier.getLast?, previous.kind ≠ .dot)
    (apart : ∀ next ∈ later.head?, ¬ token.Touches next) :
    ∃ cursor : Cursor, (Document.parse text).cursorAt? (caretBehind token) = some cursor ∧
      cursor.current = token ∧ Chain.at? cursor = none :=
  ⟨_, cursorAt?_end_of_apart read apart, Cursor.current_append, at?_append_eq_none isText undotted⟩

/-- Behind a token that the next one touches, an offer replaces nothing. -/
theorem editRange_of_touches (touches : token.Touches next) :
    editRange next (caretBehind token) = { start := caretBehind token, stop := caretBehind token } := by
  unfold editRange
  split
  · rfl
  · -- The range starts where the next token starts, and that is the caret.
    rw [touches.2]
    rfl

end

/-- **Completing a name.** With the caret right behind a name that has no dot before it, and with no
token right behind the caret, every reserved word that starts with the name is offered, and every symbol
that is visible on its line and whose name contains it; and unless a typed character has asked for the
offers, each of them replaces exactly the name. With a token right behind the caret, that token is
completed instead, and no offer replaces any of the name. -/
theorem complete_behind_name (text : String) (trigger : Option Int) (earlier later : List Token)
    (token : Token) (read : tokenize text = earlier ++ token :: later) (isText : token.kind = .text)
    (undotted : ∀ previous ∈ earlier.getLast?, previous.kind ≠ .dot) :
    let document := Document.parse text
    let caret := caretBehind token
    let items := document.complete caret trigger
    ((∀ next ∈ later.head?, ¬ token.Touches next) →
      (∀ word kind, (word, kind) ∈ Vocabulary.keywords → token.lexeme.toList <+: word.toList →
        ∃ item ∈ items, item.label = word ∧ item.detail = kind.name) ∧
      (∀ symbol ∈ document.outline.symbols, symbol.isVisibleOn token.line →
        token.lexeme.toList <:+: symbol.name.toList →
          ∃ item ∈ items, item.label = symbol.name ∧ item.category = .ofKind symbol.kind ∧
            item.detail = symbol.typeName) ∧
      (trigger ≠ some typedCharacter → ∀ item ∈ items, item.insertion =
        .replacing { start := { caret with character := token.column }, stop := caret })) ∧
    (∀ next ∈ later.head?, token.Touches next →
      document.cursorAt? caret =
        some { tokens := tokenize text, position := earlier.length + 1 } ∧
      (trigger ≠ some typedCharacter → ∀ item ∈ items, item.insertion =
        .replacing { start := caret, stop := caret })) := by
  intro document caret items
  have listed : token ∈ tokenize text := read ▸ List.mem_append_right _ List.mem_cons_self
  constructor
  · intro apart
    obtain ⟨cursor, under, rfl, noChain⟩ := exists_cursor_behind_name read isText undotted apart
    refine ⟨?_, ?_, ?_⟩
    · intro word kind known starts
      have solid := lexeme_ne_of_mem_tokenize listed
      obtain ⟨item, offered, label, -, detail⟩ := Document.exists_mem_complete under noChain
        (keyword_mem_candidates noChain solid known starts)
      exact ⟨item, offered, label, detail⟩
    · intro symbol declared visible contains
      exact Document.exists_mem_complete under noChain
        (symbol_mem_candidates noChain declared visible contains)
    · intro asked item offered
      have noDot : cursor.current.kind ≠ .dot := by simp [isText]
      rw [Document.insertion_of_mem_complete under asked offered, editRange, if_neg noDot]
  · intro next isNext touches
    obtain ⟨rest, rfl⟩ : ∃ rest, later = next :: rest := by
      cases later with
      | nil => cases isNext
      | cons other rest => exact ⟨rest, by rw [Option.some.inj isNext]⟩
    have found := cursorAt?_end_of_touches read touches
    refine ⟨read ▸ found, ?_⟩
    intro asked item offered
    have current : Cursor.current
        { tokens := earlier ++ token :: next :: rest, position := earlier.length + 1 } = next := by
      simp [Cursor.current, Cursor.get]
    rw [Document.insertion_of_mem_complete found asked offered, current,
      editRange_of_touches touches]

/-- A variable, and the start of its name on a line of its own, with some text behind it. -/
def counterSource (behind : String) : String :=
  "var counter;\ncou" ++ behind

/-- The tokens before that start of a name. -/
def counterTokens : List Token :=
  [⟨.keyword, "var", 1, 0⟩, ⟨.text, "counter", 1, 4⟩, ⟨.semicolon, ";", 1, 11⟩]

/-- The start of the name. -/
def counterStart : Token where
  kind := .text
  lexeme := "cou"
  line := 2
  column := 0

/-- The variable. -/
def counterVariable : Symbol where
  id := 0
  declaration := .ofVariable "var" {} ⟨.text, "counter", 1, 4⟩
  owners := []

/-- The variable is the only symbol of that document. -/
theorem symbols_counterSource {behind : String} {column : Nat}
    (read : tokenize (counterSource behind) =
      counterTokens ++ counterStart :: [⟨.semicolon, ";", 2, column⟩]) :
    (Outline.ofTokens (tokenize (counterSource behind))).symbols = [counterVariable] := by
  rw [read]
  cbv

/-- With a blank behind it, the start of the name is replaced by the offered name. -/
theorem complete_behind_name_counter :
    tokenize (counterSource " ;") = counterTokens ++ counterStart :: [⟨.semicolon, ";", 2, 4⟩] ∧
      ∃ item ∈ (Document.parse (counterSource " ;")).complete ⟨1, 3⟩ none,
        item.label = "counter" ∧ item.insertion = .replacing { start := ⟨1, 0⟩, stop := ⟨1, 3⟩ } := by
  have read : tokenize (counterSource " ;") =
      counterTokens ++ counterStart :: [⟨.semicolon, ";", 2, 4⟩] := by decide +kernel
  have declared : counterVariable ∈ (Document.parse (counterSource " ;")).outline.symbols :=
    (symbols_counterSource read).symm ▸ List.mem_cons_self
  have apart : ∀ next ∈ [(⟨.semicolon, ";", 2, 4⟩ : Token)].head?, ¬ counterStart.Touches next := by
    rintro next ⟨⟩ ⟨-, column⟩
    exact absurd column (by decide)
  obtain ⟨offers, -⟩ := complete_behind_name (counterSource " ;") none _ _ _ read rfl
    (by simp [counterTokens])
  obtain ⟨-, symbols, replaces⟩ := offers apart
  obtain ⟨item, offered, label, -, -⟩ :=
    symbols counterVariable declared (by decide) (by decide)
  exact ⟨read, item, offered, label, replaces (by decide) item offered⟩

/-- With a semicolon right behind it, the name is not offered. -/
theorem complete_behind_name_semicolon :
    tokenize (counterSource ";") = counterTokens ++ counterStart :: [⟨.semicolon, ";", 2, 3⟩] ∧
      counterVariable ∈ (Document.parse (counterSource ";")).outline.symbols ∧
      counterVariable.isVisibleOn counterStart.line ∧
      counterStart.lexeme.toList <:+: counterVariable.name.toList ∧
      (Document.parse (counterSource ";")).complete (caretBehind counterStart) none = [] := by
  have read : tokenize (counterSource ";") =
      counterTokens ++ counterStart :: [⟨.semicolon, ";", 2, 3⟩] := by decide +kernel
  have symbols := symbols_counterSource read
  refine ⟨read, symbols.symm ▸ List.mem_cons_self, by decide, by decide, ?_⟩
  let cursor : Cursor :=
    { tokens := counterTokens ++ counterStart :: [⟨.semicolon, ";", 2, 3⟩]
      position := counterTokens.length + 1 }
  have under : (Document.parse (counterSource ";")).cursorAt? (caretBehind counterStart) =
      some cursor := cursorAt?_end_of_touches read ⟨rfl, rfl⟩
  rw [List.eq_nil_iff_forall_not_mem]
  intro item offered
  obtain ⟨candidate, listed, -⟩ := (Document.mem_complete_iff under).mp offered
  -- The semicolon starts no reserved word, and the name of the variable does not contain it.
  rcases List.mem_append.mp listed with keyword | symbol
  · have none : keywordCandidates cursor.current = [] := by decide +kernel
    rw [none, ite_self] at keyword
    exact absurd keyword List.not_mem_nil
  · obtain ⟨found, completes, rfl⟩ := List.mem_map.mp symbol
    have noChain : Chain.at? cursor = none := by decide
    unfold Outline.completions at completes
    rw [noChain] at completes
    have shown := (offered_ofTokens (inLineOrder_tokenize (counterSource ";")) ";" 2) ▸ completes
    obtain ⟨among, seen⟩ := List.mem_filter.mp shown
    rw [(Outline.membersFirst_perm _).mem_iff, symbols, List.mem_singleton] at among
    subst among
    exact absurd seen (by decide)

end ScriptLens
