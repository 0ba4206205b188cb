import Mathlib.Data.List.Forall2
import ScriptLens.Symbol.Reader

/-! # What reading can find
Reading is a loop of steps. Here is said once what a step can find, so that a fact about everything
that is ever read follows from a fact about one step.
Main definitions:
* `Opens`: the ways in which a step can come upon a declaration.
* `Region.holds`, `Found.Coherent`: the kinds of declarations of a region, and how the parts of a
  found declaration go together.
* `Layout`: how a found declaration lies in the tokens.
* `Finds`: a step finds a declaration, whatever has been settled before.
Main statements:
* `Finds.holds_and_coherent`, `Finds.layout`: what a step can find.
* `read_induction`: what every step keeps holds of everything that is read. -/

namespace ScriptLens.Reader

/-! ## Ways to find a declaration -/

/-- The ways in which a step can come upon a declaration, each with the step it amounts to. -/
inductive Opens (region : Region) (context : Context) (access : Access) (token : Token) :
    List Token → Step → Prop where
  /-- A token that names a type starts a variable. -/
  | variable {tokens : List Token} (starts : startsVariable region context token) :
      Opens region context access token tokens (readVariable context access token tokens)
  /-- The keyword of functions stands before the name of a function. -/
  | function {name : Token} {tokens : List Token} (keyword : token.kind = .keyword)
      (word : token.lexeme = "function") (allowed : region ≠ .functionBody)
      (named : name.kind = .text) :
      Opens region context access token (name :: tokens) (readFunction context access name tokens)
  /-- The keyword of constructors is a name itself. -/
  | construct {tokens : List Token} (keyword : token.kind = .keyword)
      (word : token.lexeme = "constructor") (allowed : region = .classBody) :
      Opens region context access token tokens (readFunction context access token tokens)
  /-- The keyword of classes stands before the name of a class, which is a type from there on. -/
  | classBody {name : Token} {tokens : List Token} (keyword : token.kind = .keyword)
      (word : token.lexeme = "class") (allowed : region = .outer) (named : name.kind = .text) :
      Opens region context access token (name :: tokens)
        (readContainer { context with classNames := name.lexeme :: context.classNames } access
          (.ofClass name) .classBody tokens)
  /-- The keyword of namespaces stands before the name of a namespace. -/
  | namespaceBody {name : Token} {tokens : List Token} (keyword : token.kind = .keyword)
      (word : token.lexeme = "namespace") (allowed : region = .outer) (named : name.kind = .text) :
      Opens region context access token (name :: tokens)
        (readContainer context access (.ofNamespace name) .outer tokens)

/-- A named declaration is found only behind a name. -/
theorem readNamed_found {context : Context} {access : Access} {tokens : List Token}
    {readRest : Token → List Token → Step} {found : Found}
    (h : (readNamed context access tokens readRest).found = some found) :
    ∃ name later, tokens = name :: later ∧ name.kind = .text ∧
      readNamed context access tokens readRest = readRest name later := by
  cases tokens with
  | nil => simp [readNamed] at h
  | cons name later =>
    by_cases named : name.kind = .text
    · exact ⟨name, later, rfl, named, by simp [readNamed, named]⟩
    · simp [readNamed, named] at h

/-- A keyword finds a declaration in four ways. -/
theorem opens_of_readKeyword {region : Region} {context : Context} {access : Access}
    {token : Token} {tokens : List Token} {found : Found} (keyword : token.kind = .keyword)
    (h : (readKeyword region context access token tokens).found = some found) :
    Opens region context access token tokens (readKeyword region context access token tokens) := by
  unfold readKeyword at h ⊢
  -- The tests are taken in the order of the definition; a failed one is rewritten away in the goal.
  split at h
  · next case =>
    rw [if_pos case]
    obtain ⟨name, later, rfl, named, eq⟩ := readNamed_found h
    rw [eq]
    exact .function keyword case.1 case.2 named
  · next noFunction =>
    rw [if_neg noFunction]
    split at h
    · next case =>
      rw [if_pos case]
      exact .construct keyword case.1 case.2
    · next noConstructor =>
      rw [if_neg noConstructor]
      split at h
      · next case =>
        rw [if_pos case]
        obtain ⟨name, later, rfl, named, eq⟩ := readNamed_found h
        rw [eq]
        exact .classBody keyword case.1 case.2 named
      · next noClass =>
        rw [if_neg noClass]
        split at h
        · next case =>
          rw [if_pos case]
          obtain ⟨name, later, rfl, named, eq⟩ := readNamed_found h
          rw [eq]
          exact .namespaceBody keyword case.1 case.2 named
        · exfalso
          -- Modifiers and all other keywords find nothing.
          split at h
          · split at h
            · simp at h
            · split at h <;> simp at h
          · simp at h

/-- A keyword that names no type is read as a keyword. -/
theorem step_of_keyword {token : Token} (isKeyword : token.kind = .keyword)
    (noType : ¬ Vocabulary.isDataType token.lexeme) (region : Region) (context : Context)
    (access : Access) (tokens : List Token) :
    step region context access token tokens = readKeyword region context access token tokens := by
  have plain : token.directedType? = none := by
    rw [Token.directedType?, if_neg (by simp [isKeyword])]
  have starts : ¬ startsVariable region context token := by
    simp [startsVariable, noType, isKeyword]
  rw [step, plain]
  dsimp only
  rw [if_neg starts, if_pos isKeyword]

/-- Whatever a step finds, it has come upon it in one of these ways. -/
theorem opens_of_found {region : Region} {context : Context} {access : Access} {token : Token}
    {tokens : List Token} {found : Found}
    (h : (step region context access token tokens).found = some found) :
    Opens region context access token tokens (step region context access token tokens) := by
  unfold step at h ⊢
  split at h
  · simp at h
  · split at h
    · next starts =>
      rw [if_pos starts]
      exact .variable starts
    · next noVariable =>
      rw [if_neg noVariable]
      split at h
      · next keyword =>
        rw [if_pos keyword]
        exact opens_of_readKeyword keyword h
      · simp at h

/-! ## Kinds -/

/-- The kinds of the declarations that a region may hold directly. -/
def Region.holds : Region → Declaration.Kind → Bool
  | .outer, kind => kind ≠ .parameterDecl
  | .classBody, kind => kind = .functionDecl || kind = .variableDecl
  | .functionBody, kind => kind = .variableDecl

/-- The parts of a found declaration go together: its kind says how its body is read, only functions
have parameters, and variables have no body. -/
def Found.Coherent (found : Found) : Prop :=
  match found.declaration.kind with
  | .namespaceDecl => found.region = .outer ∧ found.parameters = []
  | .classDecl => found.region = .classBody ∧ found.parameters = []
  | .functionDecl => found.region = .functionBody
  | .parameterDecl => False
  | .variableDecl => found.body = [] ∧ found.parameters = []

/-- Behind the start of a variable nothing but a variable is found. -/
theorem readVariable_found {context : Context} {access : Access} {start : Token}
    {tokens : List Token} {found : Found}
    (h : (readVariable context access start tokens).found = some found) :
    ∃ name later typeName, tokens = name :: later ∧
      found = { declaration := .ofVariable typeName access name } ∧
      (readVariable context access start tokens).rest = (takeWrittenType later).2 := by
  unfold readVariable at h ⊢
  cases tokens with
  | nil => simp at h
  | cons name later =>
    dsimp only at h ⊢
    split at h
    · next named =>
      rw [if_pos named]
      split at h
      · next ended => exact ⟨name, later, _, rfl, (Option.some.inj h).symm, by rw [if_pos ended]⟩
      · simp at h
    · simp at h

/-- Behind the name of a function a function is found. -/
theorem readFunction_kind {context : Context} {access : Access} {name : Token}
    {tokens : List Token} {found : Found}
    (h : (readFunction context access name tokens).found = some found) :
    found.declaration.kind = .functionDecl ∧ found.region = .functionBody := by
  unfold readFunction at h
  dsimp only at h
  split at h
  · cases h
    exact ⟨rfl, rfl⟩
  · split at h
    · split at h
      · cases h
        exact ⟨Declaration.kind_through _ _, rfl⟩
      · split at h
        · cases h
          exact ⟨Declaration.kind_through _ _, rfl⟩
        · cases h
          exact ⟨Declaration.kind_through _ _, rfl⟩
    · cases h
      exact ⟨rfl, rfl⟩

/-- Behind the name of a container that container is found, without parameters. -/
theorem readContainer_kind {context : Context} {access : Access} {declaration : Declaration}
    {region : Region} {tokens : List Token} {found : Found}
    (h : (readContainer context access declaration region tokens).found = some found) :
    found.declaration.kind = declaration.kind ∧ found.region = region ∧ found.parameters = [] := by
  unfold readContainer at h
  split at h
  · cases h
    exact ⟨rfl, rfl, rfl⟩
  · split at h
    · cases h
      exact ⟨Declaration.kind_through _ _, rfl, rfl⟩
    · cases h
      exact ⟨rfl, rfl, rfl⟩

/-- What a step finds is of a kind that the region holds, and its parts go together. -/
theorem Opens.holds_and_coherent {region : Region} {context : Context} {access : Access}
    {token : Token} {tokens : List Token} {next : Step} {found : Found}
    (opened : Opens region context access token tokens next) (h : next.found = some found) :
    region.holds found.declaration.kind ∧ found.Coherent := by
  cases opened with
  | «variable» starts =>
    obtain ⟨name, later, typeName, -, rfl, -⟩ := readVariable_found h
    exact ⟨by cases region <;> rfl, rfl, rfl⟩
  | function keyword word allowed named =>
    obtain ⟨kind, inner⟩ := readFunction_kind h
    refine ⟨?_, by simpa only [Found.Coherent, kind] using inner⟩
    cases region with
    | outer => rw [kind]; rfl
    | classBody => rw [kind]; rfl
    | functionBody => exact absurd rfl allowed
  | construct keyword word allowed =>
    obtain ⟨kind, inner⟩ := readFunction_kind h
    refine ⟨by rw [allowed, kind]; rfl, ?_⟩
    simpa only [Found.Coherent, kind] using inner
  | classBody keyword word allowed named =>
    obtain ⟨kind, inner, plain⟩ := readContainer_kind h
    have isClass : found.declaration.kind = .classDecl := kind
    refine ⟨by rw [allowed, isClass]; rfl, ?_⟩
    simpa only [Found.Coherent, isClass] using ⟨inner, plain⟩
  | namespaceBody keyword word allowed named =>
    obtain ⟨kind, inner, plain⟩ := readContainer_kind h
    have isNamespace : found.declaration.kind = .namespaceDecl := kind
    exact ⟨by rw [allowed, isNamespace]; rfl,
      by simpa only [Found.Coherent, isNamespace] using ⟨inner, plain⟩⟩

/-! ## Places -/

/-- How a declaration lies in the tokens it is read off: its name, its parameter list and its body,
in this order, with other tokens before and between them. -/
structure Layout where
  /-- The tokens before the name. -/
  lead : List Token
  /-- The name. -/
  name : Token
  /-- The tokens between the name and the parameter list. -/
  gap : List Token
  /-- The parameter list with its closing bracket; empty where there is none. -/
  window : List Token
  /-- The tokens between the parameter list and the body. -/
  bridge : List Token

/-- A layout is that of a declaration found in `tokens`, with `rest` behind it. The lines of the
declaration reach from its name to the last token of the parameter list and the body. -/
structure Layout.Fits (layout : Layout) (tokens : List Token) (found : Found) (rest : List Token) :
    Prop where
  /-- The parts make up the tokens. -/
  tokens_eq : tokens = layout.lead ++ layout.name ::
    (layout.gap ++ (layout.window ++ (layout.bridge ++ (found.body ++ rest))))
  /-- The parameters are those of the parameter list. -/
  parameters_eq : found.parameters = parameters layout.window
  /-- The lines end where the declaration ends. -/
  lines_eq : found.declaration.lines =
    .between layout.name.line ((layout.window ++ found.body).getLastD layout.name).line

/-- The name, the parameter list, the body and the rest lie in the tokens in this order. -/
theorem Layout.Fits.name_window_body_rest_sublist {layout : Layout} {tokens rest : List Token}
    {found : Found} (fits : layout.Fits tokens found rest) :
    (layout.name :: (layout.window ++ found.body ++ rest)).Sublist tokens := by
  rw [fits.tokens_eq, List.append_assoc]
  refine (List.Sublist.cons_cons _ ?_).trans (List.sublist_append_right _ _)
  refine List.Sublist.trans ?_ (List.sublist_append_right _ _)
  exact (List.sublist_append_right _ _).append_left _

/-- A declaration stretched through a span reaches to the last token of that span. -/
theorem lines_through (kind : Declaration.Kind) (typeName : String) (access : Access) (name : Token)
    (span : List Token) :
    ((Declaration.ofName kind typeName access name).through span).lines =
      .between name.line (span.getLastD name).line := by
  unfold Declaration.through
  cases h : span.getLast? with
  | none => rw [List.getLastD_eq_getLast?, h]; rfl
  | some closing => rw [List.getLastD_eq_getLast?, h]; rfl

/-- The last token of two parts is that of the second one, unless that one is empty. -/
theorem getLastD_append {name : Token} {window body : List Token} (h : body ≠ []) :
    (window ++ body).getLastD name = body.getLastD name := by
  have last : body.getLast? = some (body.getLast h) := List.getLast?_eq_some_getLast h
  rw [List.getLastD_eq_getLast?, List.getLastD_eq_getLast?, List.getLast?_append, last]
  rfl

/-- The layout of what is found behind the name of a function. -/
theorem readFunction_layout (lead : List Token) {context : Context} {access : Access}
    {name : Token} {tokens : List Token} {found : Found}
    (h : (readFunction context access name tokens).found = some found) :
    ∃ layout : Layout, layout.Fits (lead ++ name :: tokens) found
      (readFunction context access name tokens).rest := by
  unfold readFunction at h ⊢
  dsimp only at h ⊢
  cases hlist : Bracket.parentheses.enclosed? tokens with
  | none =>
    -- Without a parameter list the function is its name alone.
    rw [hlist] at h
    cases h
    exact ⟨⟨lead, name, [], [], []⟩, rfl, rfl, rfl⟩
  | some list =>
    obtain ⟨opening, -, rfl⟩ := Bracket.enclosed?_eq_some hlist
    rw [hlist] at h
    dsimp only at h ⊢
    by_cases listClosed : list.closed
    · rw [if_pos listClosed] at h ⊢
      cases hbody : Bracket.braces.enclosed? list.rest with
      | none =>
        -- The function ends with its parameter list.
        rw [hbody] at h
        cases h
        refine ⟨⟨lead, name, [opening], list.inside, []⟩, rfl, rfl, ?_⟩
        rw [List.append_nil]
        exact lines_through _ _ _ _ _
      | some body =>
        obtain ⟨brace, -, hrest⟩ := Bracket.enclosed?_eq_some hbody
        rw [hbody] at h
        dsimp only at h ⊢
        by_cases bodyClosed : body.closed
        · -- The function ends with its body, which holds at least the closing bracket.
          rw [if_pos bodyClosed] at h ⊢
          cases h
          refine ⟨⟨lead, name, [opening], list.inside, [brace]⟩, ?_, rfl, ?_⟩
          · rw [hrest]
            rfl
          · rw [getLastD_append (Bracket.enclosed?_inside_ne_nil hbody bodyClosed)]
            exact lines_through _ _ _ _ _
        · -- A body that never closes is passed over; it lies between the list and the rest.
          rw [if_neg bodyClosed] at h ⊢
          cases h
          refine ⟨⟨lead, name, [opening], list.inside, brace :: body.inside⟩, ?_, rfl, ?_⟩
          · rw [hrest]
            rfl
          · rw [List.append_nil]
            exact lines_through _ _ _ _ _
    · -- A list that never closes is passed over as well.
      rw [if_neg listClosed] at h ⊢
      cases h
      exact ⟨⟨lead, name, opening :: list.inside, [], []⟩, rfl, rfl, rfl⟩

/-- The layout of what is found behind the name of a container. -/
theorem readContainer_layout (lead : List Token) {context : Context} {access : Access}
    {kind : Declaration.Kind} {typeName : String} {owned : Access} {region : Region} {name : Token}
    {tokens : List Token} {found : Found}
    (h : (readContainer context access (.ofName kind typeName owned name) region tokens).found =
      some found) :
    ∃ layout : Layout, layout.Fits (lead ++ name :: tokens) found
      (readContainer context access (.ofName kind typeName owned name) region tokens).rest := by
  unfold readContainer at h ⊢
  cases hbody : Bracket.braces.enclosed? tokens with
  | none =>
    rw [hbody] at h
    cases h
    exact ⟨⟨lead, name, [], [], []⟩, rfl, rfl, rfl⟩
  | some body =>
    obtain ⟨brace, -, rfl⟩ := Bracket.enclosed?_eq_some hbody
    rw [hbody] at h
    dsimp only at h ⊢
    by_cases closed : body.closed
    · rw [if_pos closed] at h ⊢
      cases h
      exact ⟨⟨lead, name, [], [], [brace]⟩, rfl, rfl, lines_through _ _ _ _ _⟩
    · -- A body that never closes is passed over; the lines are then those of the name.
      rw [if_neg closed] at h ⊢
      cases h
      exact ⟨⟨lead, name, [], [], brace :: body.inside⟩, rfl, rfl, rfl⟩

/-- The layout of whatever a step finds. -/
theorem Opens.layout {region : Region} {context : Context} {access : Access} {token : Token}
    {tokens : List Token} {next : Step} {found : Found}
    (opened : Opens region context access token tokens next) (h : next.found = some found) :
    ∃ layout : Layout, layout.Fits (token :: tokens) found next.rest := by
  cases opened with
  | «variable» starts =>
    obtain ⟨name, later, typeName, rfl, rfl, hrest⟩ := readVariable_found h
    obtain ⟨gap, hgap⟩ := takeWrittenType_suffix later
    refine ⟨⟨[token], name, gap, [], []⟩, ?_, rfl, rfl⟩
    rw [hrest]
    simp [hgap]
  | function keyword word allowed named => exact readFunction_layout [token] h
  | construct keyword word allowed => exact readFunction_layout [] h
  | classBody keyword word allowed named => exact readContainer_layout [token] h
  | namespaceBody keyword word allowed named => exact readContainer_layout [token] h

/-! ## Parameters -/

/-- A parameter is declared by one of its tokens. -/
theorem parameter?_eq_some {tokens : List Token} {declaration : Declaration}
    (h : parameter? tokens = some declaration) :
    ∃ typeName name, name ∈ tokens ∧ declaration = .ofParameter typeName name := by
  unfold parameter? at h
  split at h
  · simp at h
  · next name earlier reversed =>
    split at h
    · cases h
      have listed : name ∈ (tokens.takeWhile (·.kind ≠ .equalSign)).reverse := by
        rw [reversed]
        exact List.mem_cons_self
      exact ⟨_, name, (List.takeWhile_prefix _).subset (List.mem_reverse.mp listed), rfl⟩
    · simp at h

/-- The parts of a parameter list lie in it one after the other. -/
theorem flatten_splitParameters_sublist (depth : Nat) (reversed tokens : List Token) :
    (splitParameters depth reversed tokens).flatten.Sublist (reversed.reverse ++ tokens) := by
  induction tokens generalizing depth reversed with
  | nil => exact List.nil_sublist _
  | cons token tokens ih =>
    -- Whatever becomes of the depth, a token that ends nothing joins the part being read.
    have kept (depth : Nat) : (splitParameters depth (token :: reversed) tokens).flatten.Sublist
        (reversed.reverse ++ token :: tokens) := by
      have step := ih depth (token :: reversed)
      rwa [List.reverse_cons, List.append_assoc] at step
    unfold splitParameters
    split
    · exact kept _
    · split
      · split
        · exact ((ih 0 []).trans (List.sublist_cons_self _ _)).append_left _
        · exact kept _
      · split
        · exact kept _
        · exact kept _

/-- The parameters of a parameter list are declared by tokens of it, in the order of these. -/
theorem exists_parameters_names (window : List Token) :
    ∃ names : List Token, names.Sublist window ∧
      List.Forall₂ (fun declaration name => ∃ typeName, declaration = .ofParameter typeName name)
        (parameters window) names := by
  have lies : (splitParameters 0 [] window).flatten.Sublist window :=
    flatten_splitParameters_sublist 0 [] window
  unfold parameters
  -- How the list was cut no longer matters, so the induction is on its parts.
  generalize splitParameters 0 [] window = segments at lies
  suffices h : ∃ names : List Token, names.Sublist segments.flatten ∧
      List.Forall₂ (fun declaration name => ∃ typeName, declaration = .ofParameter typeName name)
        (segments.filterMap parameter?) names by
    obtain ⟨names, within, declared⟩ := h
    exact ⟨names, within.trans lies, declared⟩
  clear lies
  induction segments with
  | nil => exact ⟨[], List.nil_sublist _, List.Forall₂.nil⟩
  | cons segment segments ih =>
    obtain ⟨names, within, declared⟩ := ih
    rw [List.flatten_cons]
    cases h : parameter? segment with
    | none =>
      rw [List.filterMap_cons_none h]
      exact ⟨names, within.trans (List.sublist_append_right _ _), declared⟩
    | some declaration =>
      rw [List.filterMap_cons_some h]
      obtain ⟨typeName, name, listed, rfl⟩ := parameter?_eq_some h
      refine ⟨name :: names, ?_, List.Forall₂.cons ⟨typeName, rfl⟩ declared⟩
      exact (List.singleton_sublist.mpr listed).append within

/-! ## Runs -/

/-- Reading goes on behind a step that finds nothing. -/
theorem read_of_found_eq_none {region : Region} {context : Context} {access : Access}
    {token : Token} {tokens : List Token}
    (h : (step region context access token tokens).found = none) :
    read region context access (token :: tokens) =
      read region (step region context access token tokens).context
        (step region context access token tokens).access
        (step region context access token tokens).rest := by
  rw [read, h]

/-- A found declaration is read with its body, before the tokens behind it. -/
theorem read_of_found_eq_some {region : Region} {context : Context} {access : Access}
    {token : Token} {tokens : List Token} {found : Found}
    (h : (step region context access token tokens).found = some found) :
    let next := step region context access token tokens
    let inner := read found.region next.context {} found.body
    let beside := read region inner.2 next.access next.rest
    read region context access (token :: tokens) =
      (.cons found.declaration (inner.1.withLeaves found.parameters) beside.1, beside.2) := by
  intro next inner beside
  rw [read, h]
  dsimp only
  rw [Step.body, h]

/-- A step on `tokens` can find a declaration and leave `rest`, in some context. -/
def Finds (region : Region) (tokens : List Token) (found : Found) (rest : List Token) : Prop :=
  ∃ context access token later, tokens = token :: later ∧
    (step region context access token later).found = some found ∧
    (step region context access token later).rest = rest

/-- What a step finds is of a kind that the region holds, and its parts go together. -/
theorem Finds.holds_and_coherent {region : Region} {tokens rest : List Token} {found : Found}
    (h : Finds region tokens found rest) :
    region.holds found.declaration.kind ∧ found.Coherent := by
  obtain ⟨context, access, token, later, -, hfound, -⟩ := h
  exact (opens_of_found hfound).holds_and_coherent hfound

/-- Whatever a step finds has a layout. -/
theorem Finds.layout {region : Region} {tokens rest : List Token} {found : Found}
    (h : Finds region tokens found rest) : ∃ layout : Layout, layout.Fits tokens found rest := by
  obtain ⟨context, access, token, later, rfl, hfound, rfl⟩ := h
  exact (opens_of_found hfound).layout hfound

/-- What a step leaves is a final part of the tokens. -/
theorem Finds.rest_suffix {region : Region} {tokens rest : List Token} {found : Found}
    (h : Finds region tokens found rest) : rest <:+ tokens := by
  obtain ⟨context, access, token, later, rfl, -, rfl⟩ := h
  have taken := body_append_rest_suffix region context access token later
  exact ((List.suffix_append _ _).trans taken).trans (List.suffix_cons token later)

/-- Induction over everything that is read: a statement about regions, their tokens and the forests
read off them holds if it holds of no tokens, if it survives tokens that are passed over, and if it
goes from the body of a found declaration and the tokens behind it to the whole. -/
theorem read_induction {motive : Region → List Token → Forest Declaration → Prop}
    (empty : ∀ region, motive region [] .nil)
    (pass : ∀ region tokens rest forest, rest <:+ tokens → motive region rest forest →
      motive region tokens forest)
    (found : ∀ region tokens found rest inner beside, Finds region tokens found rest →
      (found.body = [] → inner = .nil) → motive found.region found.body inner →
      motive region rest beside →
      motive region tokens
        (.cons found.declaration (inner.withLeaves found.parameters) beside))
    (region : Region) (context : Context) (access : Access) (tokens : List Token) :
    motive region tokens (read region context access tokens).1 := by
  fun_induction read region context access tokens with
  | case1 region context access => exact empty region
  | case2 region context access token tokens next nothing ih =>
    -- Nothing is found, and the step leaves a final part of the tokens.
    have taken := body_append_rest_suffix region context access token tokens
    have suffix := ((List.suffix_append _ _).trans taken).trans (List.suffix_cons token tokens)
    exact pass region (token :: tokens) next.rest _ suffix ih
  | case3 region context access token tokens next declared hfound inner beside innerIh _ besideIh =>
    have body : next.body = declared.body := by simp only [Step.body, hfound]
    have below : motive declared.region declared.body inner.1 := body ▸ innerIh
    refine found region (token :: tokens) declared next.rest _ _ ?_ ?_ below besideIh
    · exact ⟨context, access, token, tokens, rfl, hfound, rfl⟩
    · intro none
      simp only [inner, body, none, read]

end ScriptLens.Reader
