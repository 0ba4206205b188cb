import Mathlib.Data.List.Permutation
import ScriptLens.Proofs.Symbol.ClassNames
import ScriptLens.Proofs.Symbol.Completeness
import ScriptLens.Proofs.Token.StringContent

/-! # String contents and declarations
The content of a string is classified as if it were code, so it may be taken for a bracket, a
keyword or a directive. Contents that are none of these leave the outline as it is.
Main definitions:
* `telling`: the contents that are taken for code.
* `Silent`, `Alike`: contents that are passed over, and tokens that differ in such contents only.
* `Resumes`, `StepAlike`: where reading goes on, and what a step amounts to, in alike tokens.
* `SilentContent`: the characters of a content that is passed over.
Main statements:
* `Alike.step`: a step amounts to the same before alike tokens.
* `Resumes.read_eq`: the same is read off alike tokens.
* `ofTokens_eq_of_silentContent`: silent contents of the same length can be exchanged.
* `ofTokens_statementSource_brace`: a bracket in a string changes the outline. -/

namespace ScriptLens.Reader

/-! ## Silent contents -/

/-- The kinds that bound a bracket, a parameter or a default value. -/
def boundaries : List Token.Kind :=
  [.parenthesisOpen, .parenthesisClose, .bracketOpen, .bracketClose, .braceOpen, .braceClose,
    .comma, .equalSign]

/-- The contents of strings that are taken for code. -/
def telling : List String :=
  ["(", ")", "[", "]", "\x7b", "\x7d", ",", "=", "var", "constructor", "static", "public",
    "protected", "private"]

/-- The content of a string that is passed over, where `names` are those of the classes. -/
structure Silent (names : List String) (content : Token) : Prop where
  /-- It bounds nothing. -/
  plain : content.kind ∉ boundaries
  /-- It is no word that starts a declaration on its own or changes the next one. -/
  noWord : content.lexeme ∉ telling
  /-- It gives no type to a variable. -/
  noDirective : content.directedType? = none
  /-- It does not name a class. -/
  noClass : content.lexeme ∉ names

/-- Two lists of tokens are alike if they differ in silent contents of strings only. -/
inductive Alike (names : List String) : List Token → List Token → Prop where
  /-- There are no tokens. -/
  | nil : Alike names [] []
  /-- The first tokens are the same. -/
  | cons (token : Token) {tokens tokens' : List Token} (later : Alike names tokens tokens') :
      Alike names (token :: tokens) (token :: tokens')
  /-- A string stands first. -/
  | string (line column lineAfter columnAfter : Nat) {content content' : Token}
      {tokens tokens' : List Token} (silent : Silent names content)
      (silent' : Silent names content') (later : Alike names tokens tokens') :
      Alike names (quoteAt line column :: content :: quoteAt lineAfter columnAfter :: tokens)
        (quoteAt line column :: content' :: quoteAt lineAfter columnAfter :: tokens')

section Alike

variable {names : List String} {tokens tokens' : List Token}

/-! ### Lists -/

/-- Tokens are like themselves. -/
theorem Alike.refl (names : List String) (tokens : List Token) : Alike names tokens tokens := by
  induction tokens with
  | nil => exact .nil
  | cons token tokens ih => exact .cons token ih

/-- Alike parts make up alike wholes. -/
theorem Alike.append {others others' : List Token} (h : Alike names tokens tokens')
    (later : Alike names others others') : Alike names (tokens ++ others) (tokens' ++ others') := by
  induction h with
  | nil => exact later
  | cons token _ ih => exact .cons token ih
  | string line column lineAfter columnAfter silent silent' _ ih =>
    exact .string line column lineAfter columnAfter silent silent' ih

/-- Reversed tokens are alike, since a string reversed is a string. -/
theorem Alike.reverse (h : Alike names tokens tokens') :
    Alike names tokens.reverse tokens'.reverse := by
  induction h with
  | nil => exact .nil
  | cons token _ ih =>
    rw [List.reverse_cons, List.reverse_cons]
    exact ih.append (.refl names [token])
  | string line column lineAfter columnAfter silent silent' _ ih =>
    simpa using ih.append (.string lineAfter columnAfter line column silent silent' .nil)

/-- Alike tokens start with the same one. -/
theorem Alike.head?_eq (h : Alike names tokens tokens') : tokens.head? = tokens'.head? := by
  cases h <;> rfl

/-- Alike tokens end with the same one. -/
theorem Alike.getLast?_eq (h : Alike names tokens tokens') :
    tokens.getLast? = tokens'.getLast? := by
  rw [← List.head?_reverse, ← List.head?_reverse]
  exact h.reverse.head?_eq

/-- Alike spans end on the same line. -/
theorem Alike.through_eq (h : Alike names tokens tokens') (declaration : Declaration) :
    declaration.through tokens = declaration.through tokens' := by
  rw [Declaration.through, Declaration.through, h.getLast?_eq]

/-! ### Spans -/

/-- A quote bounds nothing. -/
theorem quoteAt_plain (line column : Nat) : (quoteAt line column).kind ∉ boundaries := by
  have plain : Token.Kind.doubleQuote ∉ boundaries := by decide
  exact plain

/-- A token that bounds nothing does not count as a bracket. -/
theorem depthAfter_of_plain {bracket : Bracket} {kind : Token.Kind} (plain : kind ∉ boundaries)
    (opening : bracket.opening ∈ boundaries) (closing : bracket.closing ∈ boundaries)
    (depth : Nat) : bracket.depthAfter kind depth = depth := by
  have noOpening : kind ≠ bracket.opening := fun eq => plain (eq ▸ opening)
  have noClosing : kind ≠ bracket.closing := fun eq => plain (eq ▸ closing)
  rw [Bracket.depthAfter, if_neg noOpening, if_neg noClosing]

/-- Two spans are alike: both are closed or neither, with alike tokens inside and behind. -/
structure SpanAlike (names : List String) (span span' : Bracket.Span) : Prop where
  /-- The tokens inside are alike. -/
  inside : Alike names span.inside span'.inside
  /-- The tokens behind are alike. -/
  rest : Alike names span.rest span'.rest
  /-- Both are closed or neither. -/
  closed : span.closed = span'.closed

/-- Alike tokens have alike spans. -/
theorem Alike.span {bracket : Bracket} (opening : bracket.opening ∈ boundaries)
    (closing : bracket.closing ∈ boundaries) (h : Alike names tokens tokens') (depth : Nat) :
    SpanAlike names (bracket.span depth tokens) (bracket.span depth tokens') := by
  induction h generalizing depth with
  | nil => exact ⟨.nil, .nil, rfl⟩
  | cons token later ih =>
    by_cases ended : depth = 0
    · subst ended
      exact ⟨.nil, .cons token later, rfl⟩
    · obtain ⟨inside, rest, closed⟩ := ih (bracket.depthAfter token.kind depth)
      rw [span_cons ended, span_cons ended]
      exact ⟨.cons token inside, rest, closed⟩
  | string line column lineAfter columnAfter silent silent' later ih =>
    by_cases ended : depth = 0
    · subst ended
      exact ⟨.nil, .string line column lineAfter columnAfter silent silent' later, rfl⟩
    · -- Neither the quotes nor the content count, so the span takes the string in as a whole.
      obtain ⟨inside, rest, closed⟩ := ih depth
      have quotes (line column : Nat) :
          bracket.depthAfter (quoteAt line column).kind depth = depth :=
        depthAfter_of_plain (quoteAt_plain line column) opening closing depth
      simp only [span_cons ended, quotes, depthAfter_of_plain silent.plain opening closing,
        depthAfter_of_plain silent'.plain opening closing]
      exact ⟨.string line column lineAfter columnAfter silent silent' inside, rest, closed⟩

/-- Alike tokens enclose alike spans. -/
theorem Alike.enclosed? (h : Alike names tokens tokens') (bracket : Bracket)
    (opening : bracket.opening ∈ boundaries) (closing : bracket.closing ∈ boundaries) :
    Option.Rel (SpanAlike names) (bracket.enclosed? tokens) (bracket.enclosed? tokens') := by
  cases h with
  | nil => exact .none
  | cons token later =>
    unfold Bracket.enclosed?
    dsimp only
    split
    · exact .some (later.span opening closing 1)
    · exact .none
  | string line column lineAfter columnAfter silent silent' later =>
    have noOpening : (quoteAt line column).kind ≠ bracket.opening := by
      intro eq
      exact quoteAt_plain line column (eq ▸ opening)
    rw [Bracket.enclosed?, Bracket.enclosed?, if_neg noOpening, if_neg noOpening]
    exact .none

/-! ### Parameters -/

/-- A token that bounds nothing joins the parameter being read. -/
theorem splitParameters_of_plain {token : Token} (plain : token.kind ∉ boundaries) (depth : Nat)
    (reversed tokens : List Token) :
    splitParameters depth reversed (token :: tokens) =
      splitParameters depth (token :: reversed) tokens := by
  simp only [boundaries, List.mem_cons, List.not_mem_nil, or_false, not_or] at plain
  rw [splitParameters]
  split
  · next opens => simp_all [opensBracket]
  · split
    · next outside =>
      subst outside
      split
      · next ends => simp_all [endsParameter]
      · rfl
    · split
      · next closes => simp_all [closesBracket]
      · rfl

/-- The tokens before the default value of a parameter are alike. -/
theorem Alike.takeWhile (h : Alike names tokens tokens') :
    Alike names (tokens.takeWhile (·.kind ≠ .equalSign))
      (tokens'.takeWhile (·.kind ≠ .equalSign)) := by
  induction h with
  | nil => exact .nil
  | cons token _ ih =>
    rw [List.takeWhile_cons, List.takeWhile_cons]
    split
    · exact .cons token ih
    · exact .nil
  | string line column lineAfter columnAfter silent silent' _ ih =>
    have apart {content : Token} (silent : Silent names content) : content.kind ≠ .equalSign := by
      intro eq
      exact silent.plain (eq ▸ by decide)
    simpa [List.takeWhile_cons, quoteAt, apart silent, apart silent'] using
      Alike.string line column lineAfter columnAfter silent silent' ih

/-- Alike tokens declare the same parameter. -/
theorem Alike.parameter?_eq (h : Alike names tokens tokens') :
    parameter? tokens = parameter? tokens' := by
  have heads := h.takeWhile.reverse
  unfold parameter?
  -- The name is the last token before the default value, and it is no content of a string.
  generalize (tokens.takeWhile (·.kind ≠ .equalSign)).reverse = reversed at heads ⊢
  generalize (tokens'.takeWhile (·.kind ≠ .equalSign)).reverse = reversed' at heads ⊢
  cases heads with
  | nil => rfl
  | cons name later =>
    dsimp only
    rw [later.head?_eq]
  | string line column lineAfter columnAfter silent silent' later => rfl

/-- Alike parameter lists declare the same parameters. -/
theorem Alike.filterMap_splitParameters {reversed reversed' : List Token}
    (h : Alike names tokens tokens') (depth : Nat) (earlier : Alike names reversed reversed') :
    (splitParameters depth reversed tokens).filterMap parameter? =
      (splitParameters depth reversed' tokens').filterMap parameter? := by
  induction h generalizing depth reversed reversed' with
  | nil => rfl
  | cons token _ ih =>
    unfold splitParameters
    split
    · exact ih _ (.cons token earlier)
    · split
      · split
        · rw [List.filterMap_cons, List.filterMap_cons, earlier.reverse.parameter?_eq, ih 0 .nil]
        · exact ih 0 (.cons token earlier)
      · split
        · exact ih _ (.cons token earlier)
        · exact ih _ (.cons token earlier)
  | string line column lineAfter columnAfter silent silent' _ ih =>
    have quotes (line column : Nat) := quoteAt_plain line column
    rw [splitParameters_of_plain (quotes _ _), splitParameters_of_plain silent.plain,
      splitParameters_of_plain (quotes _ _), splitParameters_of_plain (quotes _ _),
      splitParameters_of_plain silent'.plain, splitParameters_of_plain (quotes _ _)]
    exact ih depth (.string lineAfter columnAfter line column silent silent' earlier)

/-- Alike parameter lists declare the same parameters. -/
theorem Alike.parameters_eq (h : Alike names tokens tokens') :
    parameters tokens = parameters tokens' :=
  h.filterMap_splitParameters 0 .nil

/-! ### Steps -/

/-- Where reading goes on in alike tokens: at the same place outside strings, or at the content of a
string whose first quote has been taken for something else. -/
inductive Resumes (names : List String) : List Token → List Token → Prop where
  /-- Reading goes on outside strings. -/
  | outside {tokens tokens' : List Token} (h : Alike names tokens tokens') :
      Resumes names tokens tokens'
  /-- Reading goes on at the content of a string. -/
  | inside (line column : Nat) {content content' : Token} {tokens tokens' : List Token}
      (silent : Silent names content) (silent' : Silent names content')
      (later : Alike names tokens tokens') :
      Resumes names (content :: quoteAt line column :: tokens)
        (content' :: quoteAt line column :: tokens')

/-- Two found declarations are the same but for their bodies, which are alike. -/
structure FoundAlike (names : List String) (found found' : Found) : Prop where
  /-- The declarations are the same. -/
  declaration : found.declaration = found'.declaration
  /-- The parameters are the same. -/
  parameters : found.parameters = found'.parameters
  /-- The bodies are read in the same way. -/
  region : found.region = found'.region
  /-- The bodies are alike. -/
  body : Alike names found.body found'.body

/-- Two steps are the same but for the tokens left to be read, which are alike. -/
structure StepAlike (names : List String) (next next' : Step) : Prop where
  /-- The declarations found are the same but for their bodies. -/
  found : Option.Rel (FoundAlike names) next.found next'.found
  /-- The contexts are the same. -/
  context : next.context = next'.context
  /-- The access of the next member is the same. -/
  access : next.access = next'.access
  /-- Reading goes on at the same place. -/
  rest : Resumes names next.rest next'.rest

/-- The type written in alike tokens is the same, with alike tokens behind it. -/
theorem Alike.takeWrittenType (h : Alike names tokens tokens') :
    (takeWrittenType tokens).1 = (takeWrittenType tokens').1 ∧
      Alike names (takeWrittenType tokens).2 (takeWrittenType tokens').2 := by
  cases h with
  | nil => exact ⟨rfl, .nil⟩
  | cons written later =>
    cases later with
    | nil => exact ⟨rfl, .refl names [written]⟩
    | cons next later =>
      unfold Reader.takeWrittenType
      dsimp only
      split
      · exact ⟨rfl, .cons next later⟩
      · exact ⟨rfl, .cons written (.cons next later)⟩
    | string line column lineAfter columnAfter silent silent' later =>
      have noEnd : endsHead (quoteAt line column) = false := rfl
      simp only [Reader.takeWrittenType, noEnd, Bool.and_false, Bool.false_eq_true, if_false]
      exact ⟨trivial,
        .cons written (.string line column lineAfter columnAfter silent silent' later)⟩
  | string line column lineAfter columnAfter silent silent' later =>
    exact ⟨rfl, .string line column lineAfter columnAfter silent silent' later⟩

/-- Alike tokens declare the same variable. -/
theorem Alike.readVariable (h : Alike names tokens tokens') (context : Context) (access : Access)
    (start : Token) :
    StepAlike names (readVariable context access start tokens)
      (readVariable context access start tokens') := by
  cases h with
  | nil => exact ⟨.none, rfl, rfl, .outside .nil⟩
  | cons name later =>
    obtain ⟨written, rest⟩ := later.takeWrittenType
    unfold Reader.readVariable
    dsimp only
    rw [← written, ← rest.head?_eq]
    split
    · split
      · exact ⟨.some ⟨rfl, rfl, rfl, .nil⟩, rfl, rfl, .outside rest⟩
      · exact ⟨.none, rfl, rfl, .outside rest⟩
    · exact ⟨.none, rfl, rfl, .outside later⟩
  | string line column lineAfter columnAfter silent silent' later =>
    -- The first quote stands in the place of the name.
    exact ⟨.none, rfl, rfl, .inside lineAfter columnAfter silent silent' later⟩

/-- Alike tokens declare the same function. -/
theorem Alike.readFunction (h : Alike names tokens tokens') (context : Context) (access : Access)
    (name : Token) :
    StepAlike names (readFunction context access name tokens)
      (readFunction context access name tokens') := by
  have lists := h.enclosed? .parentheses (by decide) (by decide)
  unfold Reader.readFunction
  dsimp only
  generalize Bracket.parentheses.enclosed? tokens = list at lists ⊢
  generalize Bracket.parentheses.enclosed? tokens' = list' at lists ⊢
  cases lists with
  | none => exact ⟨.some ⟨rfl, rfl, rfl, .nil⟩, rfl, rfl, .outside h⟩
  | @some list list' spans =>
    have bodies := spans.rest.enclosed? .braces (by decide) (by decide)
    have reach := spans.inside.through_eq (.ofFunction access name)
    dsimp only
    rw [← spans.closed, ← spans.inside.parameters_eq, ← reach]
    generalize Bracket.braces.enclosed? list.rest = body at bodies ⊢
    generalize Bracket.braces.enclosed? list'.rest = body' at bodies ⊢
    split
    · cases bodies with
      | none => exact ⟨.some ⟨rfl, rfl, rfl, .nil⟩, rfl, rfl, .outside spans.rest⟩
      | some inner =>
        dsimp only
        rw [← inner.closed, ← inner.inside.through_eq]
        split
        · exact ⟨.some ⟨rfl, rfl, rfl, inner.inside⟩, rfl, rfl, .outside inner.rest⟩
        · exact ⟨.some ⟨rfl, rfl, rfl, .nil⟩, rfl, rfl, .outside inner.rest⟩
    · exact ⟨.some ⟨rfl, rfl, rfl, .nil⟩, rfl, rfl, .outside spans.rest⟩

/-- Alike tokens declare the same container. -/
theorem Alike.readContainer (h : Alike names tokens tokens') (context : Context) (access : Access)
    (declaration : Declaration) (region : Region) :
    StepAlike names (readContainer context access declaration region tokens)
      (readContainer context access declaration region tokens') := by
  have bodies := h.enclosed? .braces (by decide) (by decide)
  unfold Reader.readContainer
  generalize Bracket.braces.enclosed? tokens = body at bodies ⊢
  generalize Bracket.braces.enclosed? tokens' = body' at bodies ⊢
  cases bodies with
  | none => exact ⟨.some ⟨rfl, rfl, rfl, .nil⟩, rfl, rfl, .outside h⟩
  | some inner =>
    dsimp only
    rw [← inner.closed, ← inner.inside.through_eq]
    split
    · exact ⟨.some ⟨rfl, rfl, rfl, inner.inside⟩, rfl, rfl, .outside inner.rest⟩
    · exact ⟨.some ⟨rfl, rfl, rfl, .nil⟩, rfl, rfl, .outside inner.rest⟩

/-- Alike tokens name the same declaration. -/
theorem Alike.readNamed (h : Alike names tokens tokens') (context : Context) (access : Access)
    {readRest : Token → List Token → Step}
    (named : ∀ name later later', Alike names later later' →
      StepAlike names (readRest name later) (readRest name later')) :
    StepAlike names (readNamed context access tokens readRest)
      (readNamed context access tokens' readRest) := by
  cases h with
  | nil => exact ⟨.none, rfl, rfl, .outside .nil⟩
  | cons name later =>
    unfold Reader.readNamed
    dsimp only
    split
    · exact named name _ _ later
    · exact ⟨.none, rfl, rfl, .outside later⟩
  | string line column lineAfter columnAfter silent silent' later =>
    -- Here too the first quote stands in the place of the name.
    exact ⟨.none, rfl, rfl, .inside lineAfter columnAfter silent silent' later⟩

/-- Alike tokens without a colon at their start are alike. -/
theorem Alike.dropColon (h : Alike names tokens tokens') :
    Alike names (dropColon tokens) (dropColon tokens') := by
  cases h with
  | nil => exact .nil
  | cons token later =>
    unfold Reader.dropColon
    dsimp only
    split
    · exact later
    · exact .cons token later
  | string line column lineAfter columnAfter silent silent' later =>
    exact .string line column lineAfter columnAfter silent silent' later

/-- A keyword amounts to the same before alike tokens. -/
theorem Alike.readKeyword (h : Alike names tokens tokens') (region : Region) (context : Context)
    (access : Access) (keyword : Token) :
    StepAlike names (readKeyword region context access keyword tokens)
      (readKeyword region context access keyword tokens') := by
  have passed (access : Access) : StepAlike names { context, access, rest := tokens }
      { context, access, rest := tokens' } := ⟨.none, rfl, rfl, .outside h⟩
  unfold Reader.readKeyword
  split
  · exact h.readNamed context access fun name _ _ later => later.readFunction context access name
  split
  · exact h.readFunction context access keyword
  split
  · exact h.readNamed context access fun name _ _ later => later.readContainer _ access _ _
  split
  · exact h.readNamed context access fun name _ _ later => later.readContainer context access _ _
  split
  · split
    · exact passed _
    · split
      · exact ⟨.none, rfl, rfl, .outside h.dropColon⟩
      · exact passed access
  · exact passed access

/-- A token amounts to the same before alike tokens. -/
theorem Alike.step (h : Alike names tokens tokens') (region : Region) (context : Context)
    (access : Access) (token : Token) :
    StepAlike names (step region context access token tokens)
      (step region context access token tokens') := by
  unfold Reader.step
  split
  · exact ⟨.none, rfl, rfl, .outside h⟩
  split
  · exact h.readVariable context access token
  split
  · exact h.readKeyword region context access token
  · exact ⟨.none, rfl, rfl, .outside h⟩

/-! ### Runs -/

/-- A quote is passed over. -/
@[simp] theorem read_quoteAt (region : Region) (context : Context) (access : Access)
    (line column : Nat) (tokens : List Token) :
    read region context access (quoteAt line column :: tokens) =
      read region context access tokens := by
  have inert : Grammar.Inert (quoteAt line column) :=
    ⟨by simp [quoteAt, Grammar.reserved], Grammar.directedType?_of_ne_text nofun⟩
  exact Grammar.read_cons_of_inert inert fun _ isText => nomatch isText

/-- A silent keyword is passed over, alone or with the quote behind it. -/
theorem Silent.readKeyword {content : Token} (silent : Silent names content) (region : Region)
    (context : Context) (access : Access) (line column : Nat) (tokens : List Token) :
    readKeyword region context access content (quoteAt line column :: tokens) =
        { context, access, rest := tokens } ∨
      readKeyword region context access content (quoteAt line column :: tokens) =
        { context, access, rest := quoteAt line column :: tokens } := by
  have free := silent.noWord
  simp only [telling, List.mem_cons, List.not_mem_nil, or_false, not_or] at free
  obtain ⟨-, -, -, -, -, -, -, -, -, noConstructor, noStatic, noPublic, noProtected, noPrivate⟩ :=
    free
  have noModifier : Visibility.ofKeyword? content.lexeme = none := by
    unfold Visibility.ofKeyword?
    split <;> simp_all
  unfold Reader.readKeyword
  simp only [noConstructor, false_and, if_false, noStatic, noModifier]
  split
  · exact .inl rfl
  split
  · exact .inl rfl
  split
  · exact .inl rfl
  · split <;> exact .inr rfl

/-- The silent content of a string is passed over together with the quote behind it. -/
theorem Silent.read_eq {content : Token} (silent : Silent names content) {context : Context}
    (known : context.classNames ⊆ names) (region : Region) (access : Access) (line column : Nat)
    (tokens : List Token) :
    read region context access (content :: quoteAt line column :: tokens) =
      read region context access tokens := by
  have noVariable : startsVariable region context content = false := by
    have noType : content.lexeme ≠ "var" := fun eq => silent.noWord (eq ▸ by decide)
    have unknown : content.lexeme ∉ context.classNames :=
      fun listed => silent.noClass (known listed)
    simp [startsVariable, Vocabulary.isDataType, Vocabulary.dataTypes, noType, unknown]
  have next : step region context access content (quoteAt line column :: tokens) =
        { context, access, rest := tokens } ∨
      step region context access content (quoteAt line column :: tokens) =
        { context, access, rest := quoteAt line column :: tokens } := by
    rw [step, silent.noDirective]
    simp only [noVariable, Bool.false_eq_true, if_false]
    split
    · exact silent.readKeyword region context access line column tokens
    · exact .inr rfl
  rcases next with both | alone
  · exact Grammar.read_of_step_none both
  · simp [Grammar.read_of_step_none alone]

/-- What is read from a step on: the body of what it has found, and the tokens behind it. -/
def readOn (region : Region) (next : Step) : Forest Declaration × Context :=
  match next.found with
  | none => read region next.context next.access next.rest
  | some found =>
    let inner := read found.region next.context {} found.body
    Grammar.found found.declaration (inner.1.withLeaves found.parameters)
      (read region inner.2 next.access next.rest)

/-- Reading goes on from the step of the first token. -/
theorem read_cons_eq_readOn (region : Region) (context : Context) (access : Access) (token : Token)
    (tokens : List Token) :
    read region context access (token :: tokens) =
      readOn region (step region context access token tokens) := by
  rw [read, readOn]
  cases h : (step region context access token tokens).found with
  | none => rfl
  | some found =>
    dsimp only
    rw [Step.body, h]
    rfl

/-- Classes once known stay known. -/
theorem classNames_subset_read (region : Region) (context : Context) (access : Access)
    (tokens : List Token) :
    context.classNames ⊆ (read region context access tokens).2.classNames := by
  rw [classNames_read]
  exact List.subset_append_right _ _

/-- The same is read from alike steps on, if this holds of the tokens they leave. -/
theorem StepAlike.readOn_eq {region : Region} {next next' : Step}
    (alike : StepAlike names next next')
    (bodies : ∀ region context body', Alike names next.body body' →
      (read region context {} next.body).2.classNames ⊆ names →
      read region context {} next.body = read region context {} body')
    (rests : ∀ context access rest', Resumes names next.rest rest' →
      (read region context access next.rest).2.classNames ⊆ names →
      read region context access next.rest = read region context access rest')
    (known : (readOn region next).2.classNames ⊆ names) :
    readOn region next = readOn region next' := by
  obtain ⟨found, context, access, rest⟩ := next
  obtain ⟨found', context', access', rest'⟩ := next'
  obtain ⟨sameFound, rfl, rfl, resumes⟩ := alike
  cases sameFound with
  | none => exact rests context access rest' resumes known
  | @some found found' same =>
    obtain ⟨declaration, parameters, inside, body⟩ := found
    obtain ⟨declaration', parameters', inside', body'⟩ := found'
    obtain ⟨rfl, rfl, rfl, alikeBodies⟩ := same
    -- The classes of the body are known behind it, so they are among those of the whole.
    have knownInner : (read inside context {} body).2.classNames ⊆ names :=
      List.Subset.trans (classNames_subset_read _ _ _ _) known
    have inner : read inside context {} body = read inside context {} body' :=
      bodies inside context body' alikeBodies knownInner
    have beside := rests _ access rest' resumes known
    unfold readOn
    dsimp only
    rw [← inner]
    exact congrArg _ beside

/-- The same is read off alike tokens, if all classes they declare are among `names`. -/
theorem Resumes.read_eq (region : Region) (context : Context) (access : Access)
    (h : Resumes names tokens tokens')
    (known : (read region context access tokens).2.classNames ⊆ names) :
    read region context access tokens = read region context access tokens' := by
  -- A step leaves fewer tokens, for the body of what it finds as well as behind it.
  induction hlength : tokens.length using Nat.strong_induction_on
    generalizing region context access tokens tokens' with
  | _ length ih =>
    subst hlength
    have before : context.classNames ⊆ names :=
      List.Subset.trans (classNames_subset_read region context access tokens) known
    cases h with
    | inside line column silent silent' later =>
      rw [silent.read_eq before] at known ⊢
      rw [silent'.read_eq before]
      refine ih _ ?_ region context access (.outside later) known rfl
      simp only [List.length_cons]
      omega
    | outside h =>
      cases h with
      | nil => rfl
      | @cons token tokens tokens' later =>
        have taken := (body_append_rest_suffix region context access token tokens).length_le
        rw [List.length_append] at taken
        rw [read_cons_eq_readOn] at known ⊢
        rw [read_cons_eq_readOn]
        refine (later.step region context access token).readOn_eq ?_ ?_ known
        · intro inside context body' alike knownBody
          refine ih _ ?_ inside context {} (.outside alike) knownBody rfl
          simp only [List.length_cons]
          omega
        · intro context access rest' resumes knownRest
          refine ih _ ?_ region context access resumes knownRest rfl
          simp only [List.length_cons]
          omega
      | string line column lineAfter columnAfter silent silent' later =>
        rw [read_quoteAt, silent.read_eq before] at known ⊢
        rw [read_quoteAt, silent'.read_eq before]
        refine ih _ ?_ region context access (.outside later) known rfl
        simp only [List.length_cons]
        omega

end Alike

/-! ## Contents -/

/-- The content of a string is passed over in a document with a given outline: it is none of the
texts that are taken for code, holds no directive, and names no class. -/
structure SilentContent (outline : Outline) (content : List Char) : Prop where
  /-- It is not taken for code. -/
  noCode : String.ofList content ∉ telling
  /-- It gives no type to a variable. -/
  noDirective : ∀ text, Resolves content text →
    (Text.afterFirst? Token.directive text).bind Text.firstWord? = none
  /-- It does not name a class. -/
  noClass : ∀ text, Resolves content text → ∀ symbol ∈ outline.symbols,
    symbol.kind = .classDecl → symbol.name ≠ String.ofList text

/-- A single character that is read as a boundary is taken for code. -/
theorem mem_telling_of_loneKind {c : Char} (bounds : loneKind c ∈ boundaries) :
    String.ofList [c] ∈ telling := by
  have noNumber : Token.Kind.number ∉ boundaries := by decide
  have noText : Token.Kind.text ∉ boundaries := by decide
  have marked : ∀ entry ∈ Vocabulary.marks, entry.2 ∈ boundaries →
      String.ofList [entry.1] ∈ telling := by decide
  unfold loneKind at bounds
  split at bounds
  · exact absurd bounds noNumber
  · cases known : Vocabulary.mark? c with
    | none =>
      rw [known] at bounds
      exact absurd bounds noText
    | some kind =>
      rw [known] at bounds
      exact marked _ (mem_of_lookup_eq_some known) bounds

/-- A content that is read as a boundary is taken for code. -/
theorem mem_telling_of_classify {line column : Nat} {content : List Char} {token : Token}
    (h : classify line column content = .ok token) (bounds : token.kind ∈ boundaries) :
    token.lexeme ∈ telling := by
  rcases classify_cases h with ⟨c, -, rfl⟩ | ⟨kind, known, rfl⟩ | ⟨-, rfl⟩ | ⟨resolved, -, rfl⟩
  · exact mem_telling_of_loneKind bounds
  · have reserved : ∀ entry ∈ Vocabulary.keywords, entry.2 ∉ boundaries := by decide
    exact absurd bounds (reserved _ (mem_of_lookup_eq_some known))
  · exact absurd bounds (by decide : Token.Kind.number ∉ boundaries)
  · exact absurd bounds (by decide : Token.Kind.text ∉ boundaries)

/-- The classes that are read are symbols of the outline. -/
theorem exists_symbol_of_mem_classesOf {tokens : List Token} {name : String}
    (h : name ∈ classesOf (read .outer {} {} tokens).1.toList) :
    ∃ symbol ∈ (Outline.ofTokens tokens).symbols,
      symbol.kind = .classDecl ∧ symbol.name = name := by
  obtain ⟨declaration, listed, named⟩ := List.mem_filterMap.mp h
  obtain ⟨isClass, rfl⟩ : declaration.kind = .classDecl ∧ declaration.name = name := by
    simpa [className?] using named
  rw [← Forest.map_declaration_number [] 0] at listed
  obtain ⟨symbol, found, rfl⟩ := List.mem_map.mp listed
  exact ⟨symbol, found, isClass, rfl⟩

/-- The token of a silent content is silent. -/
theorem SilentContent.silent {tokens : List Token} {line column : Nat} {content : List Char}
    {token : Token} (silent : SilentContent (Outline.ofTokens tokens) content)
    (h : classify line column content = .ok token) :
    Silent (classesOf (read .outer {} {} tokens).1.toList) token := by
  have resolves := (resolves_of_classify h).2
  have noWord : token.lexeme ∉ telling := by
    intro told
    have free : ∀ text ∈ telling, ∀ entry ∈ Vocabulary.escapes, entry.2 ∉ text.toList := by
      decide
    have same : content = token.lexeme.toList := resolves.eq_of_free (free _ told)
    exact silent.noCode (by rwa [same, String.ofList_toList])
  refine ⟨fun bounds => noWord (mem_telling_of_classify h bounds), noWord, ?_, ?_⟩
  · unfold Token.directedType?
    rw [silent.noDirective _ resolves]
    split <;> rfl
  · intro listed
    obtain ⟨symbol, found, isClass, named⟩ := exists_symbol_of_mem_classesOf listed
    refine silent.noClass _ resolves symbol found isClass ?_
    rw [named, String.ofList_toList]

/-- Alike tokens have the same outline. -/
theorem Alike.ofTokens_eq {tokens tokens' : List Token}
    (h : Alike (classesOf (read .outer {} {} tokens).1.toList) tokens tokens') :
    Outline.ofTokens tokens = Outline.ofTokens tokens' := by
  have known : (read .outer {} {} tokens).2.classNames ⊆
      classesOf (read .outer {} {} tokens).1.toList := by
    rw [classNames_read, List.append_nil]
    exact List.reverse_subset.mpr (List.Subset.refl _)
  rw [Outline.ofTokens, Outline.ofTokens, (Resumes.outside h).read_eq .outer {} {} known]

end ScriptLens.Reader

namespace ScriptLens

open Reader

/-- Replacing the content of a string by another one of the same length leaves the outline as it is,
if neither is taken for code, gives a type to a variable or names a class. -/
theorem ofTokens_eq_of_silentContent {gap : StringGap} {content content' : List Char}
    {source source' : String} (fills : gap.Fills content source)
    (fills' : gap.Fills content' source') (sameLength : content.length = content'.length)
    (silent : SilentContent (Outline.ofTokens (tokenize source)) content)
    (silent' : SilentContent (Outline.ofTokens (tokenize source)) content') :
    Outline.ofTokens (tokenize source) = Outline.ofTokens (tokenize source') := by
  obtain ⟨kind, lexeme, classified⟩ := exists_classify_of_isContent fills.isContent
  obtain ⟨kind', lexeme', classified'⟩ := exists_classify_of_isContent fills'.isContent
  rcases StringGap.tokenize_cases fills fills' sameLength (classified _ _) (classified' _ _) with
    same | ⟨before, after, column, read, read'⟩
  · rw [same]
  · have alike : Alike (classesOf (Reader.read .outer {} {} (tokenize source)).1.toList)
        (tokenize source) (tokenize source') := by
      have first := silent.silent (classified gap.number (gap.start.length + 1))
      have second := silent'.silent (classified' gap.number (gap.start.length + 1))
      rw [read']
      nth_rewrite 2 [read]
      exact (Alike.refl _ before).append (.string _ _ _ _ first second (.refl _ after))
    exact alike.ofTokens_eq

/-- A gap in a statement of a function, with a variable behind it. -/
def statementGap : StringGap where
  earlier := ["function f() \x7b".toList]
  start := "  x = ".toList
  rest := ";".toList
  later := ["  var y;".toList, "\x7d".toList, []]
  isCode := by decide
  outside := by decide

/-- A document with some content in that gap. -/
def statementSource (content : String) : String :=
  "function f() \x7b\n  x = \"" ++ content ++ "\";\n  var y;\n\x7d\n"

/-- The tokens of that document, where the content takes up `width` columns. -/
def statementTokens (width : Nat) (kind : Token.Kind) (lexeme : String) : List Token :=
  [⟨.keyword, "function", 1, 0⟩, ⟨.text, "f", 1, 9⟩, ⟨.parenthesisOpen, "(", 1, 10⟩,
    ⟨.parenthesisClose, ")", 1, 11⟩, ⟨.braceOpen, "\x7b", 1, 13⟩, ⟨.text, "x", 2, 2⟩,
    ⟨.equalSign, "=", 2, 4⟩, quoteAt 2 6, ⟨kind, lexeme, 2, 7⟩, quoteAt 2 (7 + width),
    ⟨.semicolon, ";", 2, 8 + width⟩, ⟨.keyword, "var", 3, 2⟩, ⟨.text, "y", 3, 6⟩,
    ⟨.semicolon, ";", 3, 7⟩, ⟨.braceClose, "\x7d", 4, 0⟩]

/-- A keyword of declarations and brackets in a longer content are passed over. -/
theorem ofTokens_statementSource_class :
    statementGap.Fills "class".toList (statementSource "class") ∧
      statementGap.Fills "\x7d\x7b)(;".toList (statementSource "\x7d\x7b)(;") ∧
      Outline.ofTokens (tokenize (statementSource "class")) =
        Outline.ofTokens (tokenize (statementSource "\x7d\x7b)(;")) := by
  have fills : statementGap.Fills "class".toList (statementSource "class") :=
    ⟨by decide +kernel, by decide, by decide⟩
  have fills' : statementGap.Fills "\x7d\x7b)(;".toList (statementSource "\x7d\x7b)(;") :=
    ⟨by decide +kernel, by decide, by decide⟩
  have read : tokenize (statementSource "class") = statementTokens 5 .keyword "class" := by
    decide +kernel
  have noClasses : (Outline.ofTokens (tokenize (statementSource "class"))).symbols.all
      (·.kind ≠ .classDecl) := by
    rw [read]
    cbv
  have silent (content : List Char) (noCode : String.ofList content ∉ telling)
      (free : '\\' ∉ content)
      (noDirective : (Text.afterFirst? Token.directive content).bind Text.firstWord? = none) :
      SilentContent (Outline.ofTokens (tokenize (statementSource "class"))) content := by
    refine ⟨noCode, fun text resolves => ?_, fun text resolves symbol found isClass => ?_⟩
    · rw [resolves.eq_of_notMem free]
      exact noDirective
    · exact absurd isClass (by simpa using List.all_eq_true.mp noClasses symbol found)
  have silentWord := silent "class".toList (by decide +kernel) (by decide) (by decide +kernel)
  have silentMarks :=
    silent "\x7d\x7b)(;".toList (by decide +kernel) (by decide) (by decide +kernel)
  exact ⟨fills, fills', ofTokens_eq_of_silentContent fills fills' (by decide +kernel) silentWord
    silentMarks⟩

/-- A bracket alone in a string is taken for code: here it ends the function, and the variable
behind it is one of the document. -/
theorem ofTokens_statementSource_brace :
    statementGap.Fills ['}'] (statementSource "\x7d") ∧
      statementGap.Fills ['a'] (statementSource "a") ∧
      Outline.ofTokens (tokenize (statementSource "\x7d")) ≠
        Outline.ofTokens (tokenize (statementSource "a")) := by
  have read : tokenize (statementSource "\x7d") = statementTokens 1 .braceClose "\x7d" := by
    decide +kernel
  have readPlain : tokenize (statementSource "a") = statementTokens 1 .text "a" := by
    decide +kernel
  have roots : (Outline.ofTokens (statementTokens 1 .braceClose "\x7d")).roots.length = 2 := by cbv
  have rootsPlain : (Outline.ofTokens (statementTokens 1 .text "a")).roots.length = 1 := by cbv
  refine ⟨⟨by decide +kernel, by decide, by decide⟩, ⟨by decide +kernel, by decide, by decide⟩, ?_⟩
  rw [read, readPlain]
  intro same
  rw [same, rootsPlain] at roots
  cases roots

end ScriptLens
