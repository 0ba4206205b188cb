import ScriptLens.Proofs.Symbol.BracketErrors
import ScriptLens.Proofs.Symbol.NameTokens
import ScriptLens.Proofs.Token.Tiling

/-! # The tokens behind the symbols
No symbol comes from nowhere: around the token that names it stand the tokens of a declaration of
its kind. Bodies are read as lists of their own, so what stands next to a token in a body has to be
shown to stand next to it in the document as well.
Main definitions:
* `Backed`: the tokens that a declaration needs around its name.
* `Forest.Linked`: a relation between every element of a forest and the one it lies in.
Main statements:
* `Reader.Opens.backed`: whatever a step finds is backed.
* `Reader.linked_read`: whatever is read is backed.
* `symbols_backed`: all symbols are backed, in the order of the source. -/

namespace ScriptLens

/-! ## Tokens of declarations -/

/-- The token at an index has a kind and a text of some sort. -/
def ReadsAt (tokens : List Token) (index : Nat) (sort : Token.Kind → String → Prop) : Prop :=
  ∃ token, tokens[index]? = some token ∧ sort token.kind token.lexeme

/-- The head of a variable stands at an index: its name is a text, and an equal sign or a semicolon
follows it, either directly or behind exactly one more text. -/
def VariableAt (tokens : List Token) (index : Nat) : Prop :=
  ReadsAt tokens index (fun kind _ => kind = .text) ∧
    (ReadsAt tokens (index + 1) (fun kind _ => kind = .equalSign ∨ kind = .semicolon) ∨
      ReadsAt tokens (index + 1) (fun kind _ => kind = .text) ∧
        ReadsAt tokens (index + 2) (fun kind _ => kind = .equalSign ∨ kind = .semicolon))

/-- A declaration of some kind whose name stands at an index has the tokens that it needs. Here
`classAt` says where the names of classes stand, and `owner` is the kind of the scope around the
declaration with the index of its name. -/
inductive Backed (tokens : List Token) (classAt : String → Nat → Prop)
    (owner : Option (Declaration.Kind × Nat)) : Declaration.Kind → Nat → Prop where
  /-- Directly before the name of a scope stands the keyword of its kind. -/
  | scope {kind : Declaration.Kind} {word : String} {before : Nat}
      (isScope : kind.scopeWord? = some word)
      (keyword : ReadsAt tokens before fun kind text => kind = .keyword ∧ text = word)
      (name : ReadsAt tokens (before + 1) fun kind _ => kind = .text) :
      Backed tokens classAt owner kind (before + 1)
  /-- The name of a constructor is its keyword, and it lies in a class. -/
  | construct {index scope : Nat} (inside : owner = some (.classDecl, scope))
      (keyword : ReadsAt tokens index fun kind text => kind = .keyword ∧ text = "constructor") :
      Backed tokens classAt owner .functionDecl index
  /-- Directly before the name of a variable stands `var`. -/
  | «variable» {before : Nat} (start : ReadsAt tokens before fun _ text => text = "var")
      (head : VariableAt tokens (before + 1)) :
      Backed tokens classAt owner .variableDecl (before + 1)
  /-- In a function the name of a class declared earlier may stand there. -/
  | typed {before scope : Nat} (inside : owner = some (.functionDecl, scope))
      (start : ReadsAt tokens before fun kind text =>
        kind = .text ∧ ∃ declared, classAt text declared ∧ declared < before)
      (head : VariableAt tokens (before + 1)) :
      Backed tokens classAt owner .variableDecl (before + 1)
  /-- A parameter is a text between the parentheses behind the name of its function. -/
  | parameter {index scope : Nat} {list : Bracket.Span}
      (inside : owner = some (.functionDecl, scope))
      (enclosed : Bracket.parentheses.enclosed? (tokens.drop (scope + 1)) = some list)
      (closed : list.closed) (name : ReadsAt tokens index fun kind _ => kind = .text)
      (behind : scope + 2 ≤ index) (before : index < scope + 2 + list.inside.length) :
      Backed tokens classAt owner .parameterDecl index

section

variable {document : List Token}

/-- A token has the same kind and the same text in any column. -/
theorem ReadsAt.of_indexed {index : Nat} {sort : Token.Kind → String → Prop}
    (reads : ReadsAt (indexed document) index sort) : ReadsAt document index sort := by
  obtain ⟨token, found, sorted⟩ := reads
  exact ⟨_, getElem?_of_indexed found, sorted⟩

/-- The head of a variable is one in any columns. -/
theorem VariableAt.of_indexed {index : Nat} (head : VariableAt (indexed document) index) :
    VariableAt document index := by
  obtain ⟨name, direct | ⟨written, ended⟩⟩ := head
  · exact ⟨name.of_indexed, Or.inl direct.of_indexed⟩
  · exact ⟨name.of_indexed, Or.inr ⟨written.of_indexed, ended.of_indexed⟩⟩

/-- A declaration has its tokens in any columns. -/
theorem Backed.of_indexed {classAt : String → Nat → Prop}
    {owner : Option (Declaration.Kind × Nat)} {kind : Declaration.Kind} {index : Nat}
    (backed : Backed (indexed document) classAt owner kind index) :
    Backed document classAt owner kind index := by
  cases backed with
  | scope isScope keyword name => exact .scope isScope keyword.of_indexed name.of_indexed
  | construct inside keyword => exact .construct inside keyword.of_indexed
  | «variable» start head => exact .variable start.of_indexed head.of_indexed
  | typed inside start head => exact .typed inside start.of_indexed head.of_indexed
  | @parameter index scope list inside enclosed closed name behind before =>
    -- The list is that of the indexed tokens, with the columns put back.
    have back := Reader.enclosed?_moved (columnsOf document) Bracket.parentheses
      ((indexed document).drop (scope + 1))
    rw [enclosed, List.map_drop, map_moved_indexed] at back
    refine .parameter inside back closed name.of_indexed behind ?_
    simpa only [Bracket.Span.moved, List.length_map] using before

/-! ## Parts of a document -/

/-- A part of the indexed tokens starts at the index of its first token. -/
theorem exists_drop_of_part {token : Token} {later : List Token}
    (lies : token :: later <:+: indexed document) :
    ∃ beyond, (indexed document).drop token.column = token :: (later ++ beyond) := by
  obtain ⟨earlier, beyond, parts⟩ := lies
  have here : (indexed document)[earlier.length]? = some token := by
    rw [← parts]
    simp
  refine ⟨beyond, ?_⟩
  rw [column_of_getElem? here, ← parts, List.append_assoc, List.drop_left]
  rfl

/-- What stands next to a token in a part stands next to it in the document. -/
theorem getElem?_of_part {token other : Token} {later : List Token}
    (lies : token :: later <:+: indexed document) (offset : Nat)
    (here : (token :: later)[offset]? = some other) :
    (indexed document)[token.column + offset]? = some other := by
  obtain ⟨beyond, parts⟩ := exists_drop_of_part lies
  rw [← List.getElem?_drop, parts, ← List.cons_append]
  obtain ⟨bound, -⟩ := List.getElem?_eq_some_iff.mp here
  rwa [List.getElem?_append_left bound]

/-- The next token in a part has the next index. -/
theorem column_of_part {token other : Token} {later : List Token}
    (lies : token :: other :: later <:+: indexed document) : other.column = token.column + 1 :=
  column_of_getElem? (getElem?_of_part lies 1 rfl)

/-- A token of a part stands in the document. -/
theorem readsAt_of_part {token other : Token} {later : List Token}
    (lies : token :: later <:+: indexed document) (offset : Nat)
    (here : (token :: later)[offset]? = some other) {sort : Token.Kind → String → Prop}
    (sorted : sort other.kind other.lexeme) :
    ReadsAt (indexed document) (token.column + offset) sort :=
  ⟨other, getElem?_of_part lies offset here, sorted⟩

end

/-- A closed span stays the same when more tokens follow. -/
theorem Bracket.span_append {bracket : Bracket} {depth : Nat} {tokens : List Token}
    (closed : (bracket.span depth tokens).closed) (more : List Token) :
    bracket.span depth (tokens ++ more) =
      { bracket.span depth tokens with rest := (bracket.span depth tokens).rest ++ more } := by
  induction tokens generalizing depth with
  | nil =>
    have ended : depth = 0 := by simpa [span] using closed
    cases more <;> simp [span, ended]
  | cons token tokens ih =>
    by_cases ended : depth = 0
    · simp [span, ended]
    · simp only [span, ended, ↓reduceIte] at closed
      simp [span, ended, ih closed]

/-- A closed list stays the same when more tokens follow. -/
theorem Bracket.enclosed?_append {bracket : Bracket} {tokens : List Token} {list : Span}
    (enclosed : bracket.enclosed? tokens = some list) (closed : list.closed) (more : List Token) :
    bracket.enclosed? (tokens ++ more) = some { list with rest := list.rest ++ more } := by
  cases tokens with
  | nil => simp [enclosed?] at enclosed
  | cons token tokens =>
    simp only [enclosed?, Option.ite_none_right_eq_some, Option.some.injEq] at enclosed
    obtain ⟨opens, rfl⟩ := enclosed
    simp [enclosed?, opens, span_append closed more]

namespace Reader

/-! ## Steps -/

/-- A parameter is named by a text of the parameter list. -/
theorem exists_text_of_mem_parameters {window : List Token} {declaration : Declaration}
    (found : declaration ∈ parameters window) :
    ∃ name ∈ window, name.kind = .text ∧ declaration.NamedBy name := by
  obtain ⟨segment, cut, read⟩ := List.mem_filterMap.mp found
  have within : segment ⊆ window := fun token listed =>
    (flatten_splitParameters_sublist 0 [] window).subset (List.mem_flatten_of_mem cut listed)
  unfold parameter? at read
  split at read
  · simp at read
  · next name earlier reversed =>
    split at read
    · next text =>
      cases read
      have listed : name ∈ (segment.takeWhile (·.kind ≠ .equalSign)).reverse := by
        rw [reversed]
        exact List.mem_cons_self
      refine ⟨name, within ?_, text, Declaration.namedBy_ofName _ _ _ _⟩
      exact (List.takeWhile_prefix _).subset (List.mem_reverse.mp listed)
    · simp at read

/-- The head of a variable that is found ends directly behind its name, or behind one more text. -/
theorem readVariable_head {context : Context} {access : Access} {start name : Token}
    {later : List Token} {found : Found}
    (h : (readVariable context access start (name :: later)).found = some found) :
    name.kind = .text ∧ ((∃ last rest, later = last :: rest ∧ endsHead last) ∨
      ∃ written last rest, later = written :: last :: rest ∧ written.kind = .text ∧
        endsHead last) := by
  unfold readVariable at h
  dsimp only at h
  split at h
  · next named =>
    refine ⟨named, ?_⟩
    split at h
    · next ended =>
      rcases later with - | ⟨first, - | ⟨second, rest⟩⟩
      · simp [takeWrittenType] at ended
      · exact Or.inl ⟨first, [], rfl, by simpa [takeWrittenType] using ended⟩
      · by_cases annotated : first.kind = .text && endsHead second
        · rw [Bool.and_eq_true, decide_eq_true_eq] at annotated
          exact Or.inr ⟨first, second, rest, rfl, annotated⟩
        · rw [takeWrittenType, if_neg annotated] at ended
          exact Or.inl ⟨first, second :: rest, rfl, by simpa using ended⟩
    · simp at h
  · simp at h

/-- A token that ends the head of a variable is an equal sign or a semicolon. -/
theorem kind_of_endsHead {token : Token} (ends : endsHead token) :
    token.kind = .equalSign ∨ token.kind = .semicolon := by
  simpa [endsHead] using ends

/-- A region is read inside a scope of the kind that has such a body. -/
def Region.LiesIn : Region → Option (Declaration.Kind × Nat) → Prop
  | .outer, _ => True
  | .classBody, owner => ∃ scope, owner = some (.classDecl, scope)
  | .functionBody, owner => ∃ scope, owner = some (.functionDecl, scope)

/-- The classes known by some names are declared before some tokens. -/
def Declares (classAt : String → Nat → Prop) (classNames : List String) (tokens : List Token) :
    Prop :=
  ∀ name ∈ classNames, ∃ declared, classAt name declared ∧ ∀ token ∈ tokens, declared < token.column

section

variable {document : List Token} {classAt : String → Nat → Prop}
  {owner : Option (Declaration.Kind × Nat)} {region : Region} {context : Context} {access : Access}
  {token : Token} {tokens : List Token} {next : Step} {found : Found}

/-- The head of a variable that is found stands in the document. -/
theorem variableAt_of_found {start name : Token} {later : List Token}
    (h : (readVariable context access start (name :: later)).found = some found)
    (lies : start :: name :: later <:+: indexed document) :
    VariableAt (indexed document) (start.column + 1) := by
  obtain ⟨named, ⟨last, rest, rfl, ended⟩ | ⟨written, last, rest, rfl, isText, ended⟩⟩ :=
    readVariable_head h
  · refine ⟨readsAt_of_part lies 1 rfl named, Or.inl ?_⟩
    exact readsAt_of_part lies 2 rfl (kind_of_endsHead ended)
  · refine ⟨readsAt_of_part lies 1 rfl named, Or.inr ⟨readsAt_of_part lies 2 rfl isText, ?_⟩⟩
    exact readsAt_of_part lies 3 rfl (kind_of_endsHead ended)

/-- A scope that is found behind its keyword is backed. -/
theorem backed_of_keyword {kind : Declaration.Kind} {word : String} {name : Token}
    {later rest : List Token} (lies : token :: name :: later <:+: indexed document)
    (behind : found.LiesBehind name later rest) (isKind : found.declaration.kind = kind)
    (isScope : kind.scopeWord? = some word) (keyword : token.kind = .keyword)
    (spelt : token.lexeme = word) (named : name.kind = .text) :
    Backed (indexed document) classAt owner found.declaration.kind
      found.declaration.column := by
  rw [isKind, behind.named.column, column_of_part lies]
  exact .scope isScope (readsAt_of_part lies 0 rfl ⟨keyword, spelt⟩)
    (readsAt_of_part lies 1 rfl named)

/-- **One step.** Whatever a step finds is backed. -/
theorem Opens.backed (opened : Opens region context access token tokens next)
    (h : next.found = some found) (lies : token :: tokens <:+: indexed document)
    (inside : region.LiesIn owner) (known : Declares classAt context.classNames (token :: tokens)) :
    Backed (indexed document) classAt owner found.declaration.kind
      found.declaration.column := by
  cases opened with
  | «variable» starts =>
    obtain ⟨name, later, typeName, rfl, rfl, -⟩ := readVariable_found h
    have head := variableAt_of_found h lies
    show Backed _ _ _ .variableDecl name.column
    rw [column_of_part lies]
    simp only [startsVariable, Bool.or_eq_true, Bool.and_eq_true, decide_eq_true_eq,
      List.contains_eq_mem] at starts
    rcases starts with builtIn | ⟨⟨inFunction, isText⟩, isClass⟩
    · have isVar : token.lexeme = "var" := by
        simpa [Vocabulary.isDataType, Vocabulary.dataTypes] using builtIn
      exact .variable (readsAt_of_part lies 0 rfl isVar) head
    · -- A class serves as a type inside functions only, and it is known by an earlier declaration.
      rw [inFunction] at inside
      obtain ⟨scope, inside⟩ := inside
      obtain ⟨declared, isClass, before⟩ := known _ isClass
      refine .typed inside (readsAt_of_part lies 0 rfl ⟨isText, declared, isClass, ?_⟩) head
      exact before token List.mem_cons_self
  | function keyword spelt allowed named =>
    exact backed_of_keyword lies (readFunction_liesBehind h) (readFunction_kind h).1 rfl keyword
      spelt named
  | construct keyword spelt allowed =>
    rw [(readFunction_kind h).1, (readFunction_liesBehind h).named.column]
    rw [allowed] at inside
    obtain ⟨scope, inside⟩ := inside
    exact .construct inside (readsAt_of_part lies 0 rfl ⟨keyword, spelt⟩)
  | classBody keyword spelt allowed named =>
    exact backed_of_keyword lies (readContainer_liesBehind (Declaration.namedBy_ofName ..) h)
      (readContainer_kind h).1 rfl keyword spelt named
  | namespaceBody keyword spelt allowed named =>
    exact backed_of_keyword lies (readContainer_liesBehind (Declaration.namedBy_ofName ..) h)
      (readContainer_kind h).1 rfl keyword spelt named

/-- The parameters of a function that is found are backed. -/
theorem Found.LiesBehind.parameters_backed {name : Token} {later rest : List Token}
    (behind : found.LiesBehind name later rest) (lies : name :: later <:+: indexed document)
    {parameter : Declaration} (listed : parameter ∈ found.parameters) :
    Backed (indexed document) classAt (some (.functionDecl, found.declaration.column))
      parameter.kind parameter.column := by
  rw [behind.named.column]
  cases behind with
  | plain named none body =>
    rw [none] at listed
    exact absurd listed List.not_mem_nil
  | @listed list named enclosed closed declared body =>
    rw [declared] at listed
    obtain ⟨token, inside, isText, named⟩ := exists_text_of_mem_parameters listed
    obtain ⟨opening, -, rfl⟩ := Bracket.enclosed?_eq_some enclosed
    rw [kind_of_mem_parameters listed, named.column]
    obtain ⟨beyond, parts⟩ := exists_drop_of_part lies
    obtain ⟨offset, here⟩ := List.getElem?_of_mem inside
    obtain ⟨bound, -⟩ := List.getElem?_eq_some_iff.mp here
    have found : (name :: opening :: (list.inside ++ list.rest))[offset + 2]? = some token := by
      simp [List.getElem?_append_left bound, here]
    rw [column_of_getElem? (getElem?_of_part lies _ found)]
    -- In the document more tokens may follow, but the list is closed before them.
    have window := Bracket.enclosed?_append enclosed closed beyond
    have next : (indexed document).drop (name.column + 1) =
        opening :: (list.inside ++ list.rest) ++ beyond := by
      rw [← List.drop_drop, parts]
      rfl
    rw [← next] at window
    refine .parameter rfl window closed (readsAt_of_part lies _ found isText) ?_ ?_
    · omega
    · show _ < _ + list.inside.length
      omega

end

end Reader

/-! ## Runs -/

/-- A relation holds between every element of a forest and the element it lies in, where `owner`
lies around the forest. -/
def Forest.Linked {α : Type} (related : Option α → α → Prop) (owner : Option α) : Forest α → Prop
  | nil => True
  | cons element below beside =>
    related owner element ∧ Linked related (some element) below ∧ Linked related owner beside

/-- Leaves in front of a forest are linked if each of them is related to what lies around them. -/
theorem Forest.Linked.withLeaves {α : Type} {related : Option α → α → Prop} {owner : Option α}
    {leaves : List α} {forest : Forest α} (linked : forest.Linked related owner)
    (each : ∀ leaf ∈ leaves, related owner leaf) :
    (forest.withLeaves leaves).Linked related owner := by
  induction leaves with
  | nil => exact linked
  | cons leaf leaves ih =>
    refine ⟨each leaf List.mem_cons_self, trivial, ih fun other listed => ?_⟩
    exact each other (List.mem_cons_of_mem _ listed)

/-- Every symbol of a linked forest is related to its owner. -/
theorem Forest.related_of_mem {related : Option Declaration → Declaration → Prop}
    {forest : Forest Declaration} {owners : List Entry} {first : Nat} {symbol : Symbol}
    (found : symbol ∈ (forest.number owners first).toList)
    (linked : forest.Linked related (owners.head?.map (·.declaration))) :
    related (symbol.owners.head?.map (·.declaration)) symbol.declaration := by
  induction forest generalizing owners first with
  | nil => exact absurd found List.not_mem_nil
  | cons declaration below beside belowInduction besideInduction =>
    obtain ⟨root, inside, outside⟩ := linked
    rcases mem_toList_cons.mp found with rfl | lower | later
    · exact root
    · exact belowInduction lower inside
    · exact besideInduction later outside

namespace Reader

section

variable {classAt : String → Nat → Prop} {classNames more : List String} {tokens later : List Token}

/-- Classes declared before some tokens are declared before each part of them. -/
theorem Declares.of_subset (declares : Declares classAt classNames tokens)
    (within : later ⊆ tokens) : Declares classAt classNames later := by
  intro name listed
  obtain ⟨declared, isClass, before⟩ := declares name listed
  exact ⟨declared, isClass, fun token mem => before token (within mem)⟩

/-- Some classes and some more. -/
theorem Declares.append (declares : Declares classAt classNames tokens)
    (further : Declares classAt more tokens) : Declares classAt (classNames ++ more) tokens := by
  intro name listed
  rcases List.mem_append.mp listed with here | there
  · exact declares name here
  · exact further name there

/-- The classes among some declarations are declared before the tokens that follow their names. -/
theorem declares_classesOf {declarations : List Declaration}
    (isClass : ∀ declaration ∈ declarations, ∀ name, className? declaration = some name →
      classAt name declaration.column)
    (before : ∀ declaration ∈ declarations, ∀ token ∈ tokens, declaration.column < token.column) :
    Declares classAt (classesOf declarations) tokens := by
  intro name listed
  obtain ⟨declaration, found, named⟩ := List.mem_filterMap.mp listed
  exact ⟨declaration.column, isClass declaration found name named, before declaration found⟩

/-- The classes known after a body are declared before the tokens behind it. -/
theorem declares_read {document body rest : List Token} {context : Context} (region : Region)
    (access : Access) (lies : body ++ rest <:+: indexed document)
    (isClass : ∀ declaration ∈ (read region context access body).1.toList, ∀ name,
      className? declaration = some name → classAt name declaration.column)
    (known : Declares classAt context.classNames rest) :
    Declares classAt (read region context access body).2.classNames rest := by
  have ordered := (pairwise_indexed document).sublist lies.sublist
  have bodyFirst := (List.pairwise_append.mp ordered).2.2
  rw [classNames_read]
  refine Declares.append ?_ known
  rw [classesOf, ← List.filterMap_reverse]
  refine declares_classesOf (fun declaration found => isClass declaration ?_) ?_
  · exact List.mem_reverse.mp found
  · intro declaration found token behind
    obtain ⟨names, within, named⟩ := exists_names_read region context access body
    obtain ⟨name, listed, named⟩ := exists_name_of_mem named (List.mem_reverse.mp found)
    rw [named.column]
    exact bodyFirst name (within.subset listed) token behind

end

/-- A found declaration has nothing below it, or it has the kind that its body asks for, and only
functions have parameters. -/
theorem Found.Coherent.liesIn {found : Found} (coherent : found.Coherent) (index : Nat) :
    found.body = [] ∧ found.parameters = [] ∨
      found.region.LiesIn (some (found.declaration.kind, index)) ∧
        (found.parameters ≠ [] → found.declaration.kind = .functionDecl) := by
  unfold Found.Coherent at coherent
  split at coherent
  · next kind =>
    rw [coherent.1]
    exact Or.inr ⟨trivial, fun some => absurd coherent.2 some⟩
  · next kind =>
    rw [coherent.1, kind]
    exact Or.inr ⟨⟨index, rfl⟩, fun some => absurd coherent.2 some⟩
  · next kind =>
    rw [coherent, kind]
    exact Or.inr ⟨⟨index, rfl⟩, fun _ => rfl⟩
  · exact coherent.elim
  · exact Or.inl coherent

/-- The body of a found declaration and the rest lie behind its name. -/
theorem Found.LiesBehind.body_rest_suffix {name : Token} {later rest : List Token} {found : Found}
    (behind : found.LiesBehind name later rest) : found.body ++ rest <:+ later := by
  cases behind with
  | plain _ _ body => exact body
  | listed _ enclosed _ _ body =>
    exact body.trans ((List.suffix_append _ _).trans (enclosed?_suffix enclosed))

/-- The classes known after a step are declared before the tokens that are still to be read. -/
theorem declares_step {document : List Token} {classAt : String → Nat → Prop} {context : Context}
    {next : Step} {found : Found} {name : Token} {tokens later : List Token}
    (accounts : next.Accounts context) (h : next.found = some found)
    (behind : found.LiesBehind name later next.rest) (suffix : name :: later <:+ tokens)
    (lies : tokens <:+: indexed document)
    (isClass : ∀ name, className? found.declaration = some name →
      classAt name found.declaration.column)
    (known : Declares classAt context.classNames tokens) :
    Declares classAt next.context.classNames (found.body ++ next.rest) := by
  have after := behind.body_rest_suffix
  have ordered := (pairwise_indexed document).sublist (suffix.isInfix.trans lies).sublist
  have nameFirst := (List.pairwise_cons.mp ordered).1
  rw [Step.Accounts, h, Option.bind_some] at accounts
  have only : (className? found.declaration).toList = classesOf [found.declaration] := by
    rw [classesOf_cons, classesOf, List.filterMap_nil, List.append_nil]
  rw [accounts, only]
  refine Declares.append (declares_classesOf ?_ ?_) ?_
  · exact List.forall_mem_singleton.mpr isClass
  · refine List.forall_mem_singleton.mpr fun token listed => ?_
    rw [behind.named.column]
    exact nameFirst token (after.subset listed)
  · exact known.of_subset (after.trans ((List.suffix_cons _ _).trans suffix)).subset

/-- **Reading.** Whatever is read off a part of a document is backed by the tokens of the document,
if the classes known before are declared before that part. -/
theorem linked_read {document : List Token} {classAt : String → Nat → Prop} (region : Region)
    (context : Context) (access : Access) (tokens : List Token) (owner : Option Declaration)
    (lies : tokens <:+: indexed document)
    (isClass : ∀ declaration ∈ (read region context access tokens).1.toList, ∀ name,
      className? declaration = some name → classAt name declaration.column)
    (inside : region.LiesIn (owner.map fun scope => (scope.kind, scope.column)))
    (known : Declares classAt context.classNames tokens) :
    (read region context access tokens).1.Linked (fun owner declaration =>
      Backed (indexed document) classAt (owner.map fun scope => (scope.kind, scope.column))
        declaration.kind declaration.column) owner := by
  -- That the part lies in the document and that the known classes are declared before it goes over
  -- to the body of whatever is found and to the tokens behind it.
  fun_induction read region context access tokens generalizing owner with
  | case1 region context access => trivial
  | case2 region context access token tokens next nothing ih =>
    have taken := body_append_rest_suffix region context access token tokens
    have suffix : next.rest <:+ token :: tokens :=
      ((List.suffix_append _ _).trans taken).trans (List.suffix_cons token tokens)
    have accounts : next.Accounts context := step_accounts region context access token tokens
    rw [Step.Accounts, nothing] at accounts
    refine ih owner (suffix.isInfix.trans lies) isClass inside ?_
    rw [accounts]
    exact known.of_subset suffix.subset
  | case3 region context access token tokens next found hfound inner beside innerIh _ besideIh =>
    have body : next.body = found.body := by simp only [Step.body, hfound]
    have opened := opens_of_found hfound
    obtain ⟨name, _, suffix, behind⟩ := opened.liesBehind hfound
    have after : found.body ++ next.rest <:+: indexed document :=
      (behind.body_rest_suffix.trans ((List.suffix_cons _ _).trans suffix)).isInfix.trans lies
    simp only [Forest.toList, Forest.toList_withLeaves, List.mem_cons, List.mem_append, or_imp,
      forall_and, forall_eq] at isClass
    obtain ⟨isClass, ⟨-, innerClass⟩, besideClass⟩ := isClass
    have later := declares_step (step_accounts region context access token tokens) hfound behind
      suffix lies isClass known
    refine ⟨opened.backed hfound lies inside known, ?_, ?_⟩
    · -- Members are backed by induction, parameters by the list behind the name.
      rcases (opened.holds_and_coherent hfound).2.liesIn found.declaration.column with
        ⟨noBody, noParameters⟩ | ⟨bodyInside, onlyFunctions⟩
      · have nothing : inner.1 = .nil := by simp only [inner, body, noBody, read]
        rw [nothing, noParameters]
        trivial
      · refine Forest.Linked.withLeaves (innerIh _ ?_ innerClass bodyInside ?_) ?_
        · rw [body]
          exact (List.prefix_append _ _).isInfix.trans after
        · rw [body]
          exact later.of_subset (List.subset_append_left _ _)
        · intro parameter listed
          show Backed _ _ (some (found.declaration.kind, found.declaration.column)) _ _
          rw [onlyFunctions (List.ne_nil_of_mem listed)]
          exact behind.parameters_backed (suffix.isInfix.trans lies) listed
    · -- The classes of the body are known now, and they are declared before the rest.
      refine besideIh owner ?_ besideClass inside ?_
      · exact (List.suffix_append _ _).isInfix.trans after
      · rw [← body] at after later
        exact declares_read _ _ after innerClass (later.of_subset (List.subset_append_right _ _))

end Reader

/-! ## Outlines -/

/-- A class of some name is declared, and its name stands at an index. -/
def ClassAt (tokens : List Token) (name : String) (index : Nat) : Prop :=
  ∃ symbol ∈ (Outline.ofTokens tokens).symbols,
    symbol.kind = .classDecl ∧ symbol.name = name ∧ nameIndex tokens symbol.id = index

section

variable {tokens : List Token}

/-- The classes read off the indexed tokens are declared. -/
theorem classAt_of_mem_read {declaration : Declaration}
    (found : declaration ∈ (Reader.read .outer {} {} (indexed tokens)).1.toList) {name : String}
    (isClass : Reader.className? declaration = some name) :
    ClassAt tokens name declaration.column := by
  rw [← Forest.map_declaration_number [] 0] at found
  obtain ⟨origin, listed, rfl⟩ := List.mem_map.mp found
  unfold Reader.className? at isClass
  split at isClass
  · next kind =>
    refine ⟨origin.mapEntries (·.moved (columnsOf tokens)), ?_, kind, Option.some.inj isClass,
      nameIndex_id listed⟩
    rw [ofTokens_eq_map_indexed, Outline.symbols, Forest.toList_map]
    exact List.mem_map_of_mem listed
  · simp at isClass

/-- The owner of a symbol, and where its name stands. -/
theorem map_owner?_indexed {origin : Symbol}
    (found : origin ∈ (Outline.ofTokens (indexed tokens)).symbols) :
    ((origin.mapEntries (·.moved (columnsOf tokens))).owner?.map
        fun owner => (owner.kind, nameIndex tokens owner.id)) =
      (origin.owners.head?.map (·.declaration)).map fun scope => (scope.kind, scope.column) := by
  unfold Symbol.owner? Symbol.mapEntries
  cases owners : origin.owners with
  | nil => rfl
  | cons entry entries =>
    have owned : Symbol.Owns { entry with owners := entries } origin := Symbol.owns_iff.mpr owners
    have index := nameIndex_id (owned.mem_and_id_lt found).1
    show some (entry.declaration.kind, nameIndex tokens entry.id) =
      some (entry.declaration.kind, entry.declaration.column)
    rw [index]

/-- Every symbol is backed. -/
theorem backed_symbol {symbol : Symbol} (found : symbol ∈ (Outline.ofTokens tokens).symbols) :
    Backed tokens (ClassAt tokens)
      (symbol.owner?.map fun owner => (owner.kind, nameIndex tokens owner.id)) symbol.kind
      (nameIndex tokens symbol.id) := by
  obtain ⟨origin, listed, rfl⟩ := exists_indexed_symbol found
  have linked := Reader.linked_read .outer {} {} (indexed tokens) none (List.infix_refl _)
    (fun _ listed _ isClass => classAt_of_mem_read listed isClass) trivial
    (fun _ listed => absurd listed List.not_mem_nil)
  have backed := Forest.related_of_mem listed linked
  rw [map_owner?_indexed listed]
  show Backed _ _ _ origin.kind (nameIndex tokens origin.id)
  rw [nameIndex_id listed]
  exact backed.of_indexed

end

/-- The symbols of a source stand in rising places. -/
theorem pairwise_places_tokenize (source : String) :
    (Outline.ofTokens (tokenize source)).symbols.Pairwise fun left right =>
      left.declaration.line < right.declaration.line ∨
        left.declaration.line = right.declaration.line ∧
          left.declaration.column < right.declaration.column := by
  have ordered : (tokenize source).Pairwise Token.Precedes :=
    pairwise_tokenize (fun _ _ _ read => (ordered_of_lineTokens read).1)
      (fun _ _ earlier => Or.inl earlier) source
  refine pairwise_symbols ordered (S := fun left right => left.line < right.line ∨
    left.line = right.line ∧ left.column < right.column) ?_
  intro left right name other named namedOther before
  rwa [named.line, namedOther.line, named.column, namedOther.column]

/-- **Symbols are backed by tokens**, in the order of the source. The symbols of every list of
tokens are named by tokens at rising indexes, and the tokens around these are those of a declaration.
The symbols of a source therefore stand in rising places, no two of them in the same one. -/
theorem symbols_backed :
    (∀ tokens,
      ((Outline.ofTokens tokens).symbols.Pairwise fun left right =>
        left.id < right.id ∧ nameIndex tokens left.id < nameIndex tokens right.id) ∧
      ∀ symbol ∈ (Outline.ofTokens tokens).symbols,
        (∃ name, tokens[nameIndex tokens symbol.id]? = some name ∧
          symbol.declaration.NamedBy name) ∧
        Backed tokens (ClassAt tokens)
          (symbol.owner?.map fun owner => (owner.kind, nameIndex tokens owner.id)) symbol.kind
          (nameIndex tokens symbol.id)) ∧
    ∀ source,
      ((Outline.ofTokens (tokenize source)).symbols.Pairwise fun left right =>
        left.id < right.id ∧ (left.declaration.line < right.declaration.line ∨
          left.declaration.line = right.declaration.line ∧
            left.declaration.column < right.declaration.column)) ∧
      ((Outline.ofTokens (tokenize source)).symbols.map fun symbol =>
        (symbol.declaration.line, symbol.declaration.column)).Nodup := by
  refine ⟨fun tokens => ⟨?_, ?_⟩, fun source => ?_⟩
  · exact (pairwise_id_symbols _).and (pairwise_nameIndex tokens)
  · exact fun symbol found => ⟨exists_name_symbol found, backed_symbol found⟩
  · have rising := pairwise_places_tokenize source
    refine ⟨(pairwise_id_symbols _).and rising, List.pairwise_map.mpr ?_⟩
    refine rising.imp fun {left right} before same => ?_
    obtain ⟨sameLine, sameColumn⟩ := Prod.mk.inj same
    omega

/-- A class with a constructor, then a function with a variable of that class. -/
def nodeTokens : List Token :=
  [⟨.keyword, "class", 1, 0⟩, ⟨.text, "Node", 1, 6⟩, ⟨.braceOpen, "\x7b", 1, 11⟩,
    ⟨.keyword, "constructor", 2, 2⟩, ⟨.parenthesisOpen, "(", 2, 13⟩, ⟨.text, "next", 2, 14⟩,
    ⟨.parenthesisClose, ")", 2, 18⟩, ⟨.braceOpen, "\x7b", 2, 20⟩, ⟨.braceClose, "\x7d", 2, 21⟩,
    ⟨.braceClose, "\x7d", 3, 0⟩, ⟨.keyword, "function", 4, 0⟩, ⟨.text, "make", 4, 9⟩,
    ⟨.parenthesisOpen, "(", 4, 13⟩, ⟨.parenthesisClose, ")", 4, 14⟩, ⟨.braceOpen, "\x7b", 4, 16⟩,
    ⟨.text, "Node", 5, 2⟩, ⟨.text, "first", 5, 7⟩, ⟨.equalSign, "=", 5, 13⟩,
    ⟨.text, "made", 5, 15⟩, ⟨.semicolon, ";", 5, 19⟩, ⟨.braceClose, "\x7d", 6, 0⟩]

/-- The variable is backed by the tokens around its name, behind that of the function. -/
theorem symbols_backed_nodeTokens :
    (Outline.ofTokens nodeTokens).symbols.map (nameIndex nodeTokens ·.id) = [1, 3, 5, 11, 16] ∧
      ∃ symbol ∈ (Outline.ofTokens nodeTokens).symbols, symbol.name = "first" ∧
        Backed nodeTokens (ClassAt nodeTokens) (some (.functionDecl, 11)) .variableDecl 16 := by
  have declared : (Outline.ofTokens nodeTokens).symbols.any fun symbol =>
      symbol.name = "first" && symbol.kind = .variableDecl && nameIndex nodeTokens symbol.id = 16 &&
        (symbol.owner?.map fun owner => (owner.kind, nameIndex nodeTokens owner.id)) =
          some (.functionDecl, 11) := by decide +kernel
  obtain ⟨symbol, found, facts⟩ := List.any_eq_true.mp declared
  simp only [Bool.and_eq_true, decide_eq_true_eq] at facts
  obtain ⟨⟨⟨named, kind⟩, index⟩, owner⟩ := facts
  have backed := ((symbols_backed.1 nodeTokens).2 symbol found).2
  rw [kind, index, owner] at backed
  exact ⟨by decide +kernel, symbol, found, named, backed⟩

end ScriptLens
