import ScriptLens.Proofs.Symbol.Holders
import ScriptLens.Proofs.Symbol.ClassNames
import ScriptLens.Token.Source

/-! # What a directive reaches
A directive gives a type to the next variable. Until then the type is pending, through the bodies of
classes, functions and namespaces and across their ends. Reading with a pending type is compared
here with reading the same tokens without one: both take the same steps, and they differ in the type
of the first variable at most.
Main definitions:
* `Reader.Context.directed`: a context in which a type is pending.
* `Reader.StepDirected`, `Reader.ReadDirected`: what a pending type does to a step, and to all that
  is read.
* `Forest.Retyped`: the first variable of a forest gets another type.
* `Symbol.retyped`: a symbol with a given number gets another type.
Main statements:
* `Reader.step_directed`, `Reader.read_directed`: one step, and all of them.
* `ofTokens_directive`: a directive overrides the type of the first variable at most. -/

namespace ScriptLens

namespace Reader

/-! ## Steps -/

/-- The context in which a type is pending, and which is otherwise the same. -/
def Context.directed (typeName : String) (context : Context) : Context :=
  { context with pendingType := some typeName }

/-- What becomes of a step when a type is pending: `bare` is the step without it. -/
inductive StepDirected (typeName : String) (bare : Step) : Step → Prop where
  /-- No variable starts there, and the type stays pending. -/
  | kept (noVariable : ∀ found ∈ bare.found, found.declaration.kind ≠ .variableDecl) :
      StepDirected typeName bare { bare with context := bare.context.directed typeName }
  /-- The type is gone without a trace: another directive comes next, or the head of a variable that
  is never declared. -/
  | dropped : StepDirected typeName bare bare
  /-- A variable is declared, and it gets the type. -/
  | used {written : String} {access : Access} {name : Token}
      (found : bare.found = some { declaration := .ofVariable written access name }) :
      StepDirected typeName bare
        { bare with found := some { declaration := .ofVariable typeName access name } }

section

variable (typeName : String) (context : Context) (access : Access)

/-- Whatever starts like a variable uses up the pending type. -/
theorem readVariable_directed (start : Token) (tokens : List Token) :
    StepDirected typeName (readVariable context access start tokens)
      (readVariable (context.directed typeName) access start tokens) := by
  cases tokens with
  | nil => exact .dropped
  | cons name tokens =>
    unfold readVariable
    dsimp only
    split
    · split
      · exact .used rfl
      · exact .dropped
    · exact .dropped

/-- A function is read in the same way in every context. -/
theorem readFunction_eq_with (other : Context) (name : Token) (tokens : List Token) :
    readFunction other access name tokens =
      { readFunction context access name tokens with context := other } := by
  unfold readFunction
  dsimp only
  split
  · rfl
  · split
    · split
      · rfl
      · split <;> rfl
    · rfl

/-- A container is read in the same way in every context. -/
theorem readContainer_eq_with (other : Context) (declaration : Declaration) (region : Region)
    (tokens : List Token) :
    readContainer other access declaration region tokens =
      { readContainer context access declaration region tokens with context := other } := by
  unfold readContainer
  split
  · rfl
  · split <;> rfl

/-- A function leaves the pending type alone. -/
theorem readFunction_directed (name : Token) (tokens : List Token) :
    StepDirected typeName (readFunction context access name tokens)
      (readFunction (context.directed typeName) access name tokens) := by
  have kept : StepDirected typeName (readFunction context access name tokens) _ :=
    .kept fun found here => by
      rw [(readFunction_kind here).1]
      nofun
  rw [context_readFunction] at kept
  rwa [readFunction_eq_with context access (context.directed typeName)]

/-- A container leaves the pending type alone. -/
theorem readContainer_directed {declaration : Declaration}
    (noVariable : declaration.kind ≠ .variableDecl) (region : Region) (tokens : List Token) :
    StepDirected typeName (readContainer context access declaration region tokens)
      (readContainer (context.directed typeName) access declaration region tokens) := by
  have kept : StepDirected typeName (readContainer context access declaration region tokens) _ :=
    .kept fun found here => by
      rw [(readContainer_kind here).1]
      exact noVariable
  rw [(readContainer_context_class context access declaration region tokens).1] at kept
  rwa [readContainer_eq_with context access (context.directed typeName)]

/-- A token that declares nothing leaves the pending type alone. -/
theorem passed_directed (rest : List Token) :
    StepDirected typeName { context, access, rest }
      { context := context.directed typeName, access, rest } := by
  have nothing : ∀ found ∈ (none : Option Found), found.declaration.kind ≠ .variableDecl :=
    fun _ none => absurd none (Option.not_mem_none _)
  exact .kept nothing

/-- A named declaration treats the pending type as its rest does. -/
theorem readNamed_directed (tokens : List Token) {readRest directed : Token → List Token → Step}
    (h : ∀ name later, StepDirected typeName (readRest name later) (directed name later)) :
    StepDirected typeName (readNamed context access tokens readRest)
      (readNamed (context.directed typeName) access tokens directed) := by
  cases tokens with
  | nil => exact passed_directed typeName context access []
  | cons name tokens =>
    unfold readNamed
    dsimp only
    split
    · exact h name tokens
    · exact passed_directed typeName context access tokens

/-- What follows a keyword leaves the pending type alone. -/
theorem readKeyword_directed (region : Region) (keyword : Token) (tokens : List Token) :
    StepDirected typeName (readKeyword region context access keyword tokens)
      (readKeyword region (context.directed typeName) access keyword tokens) := by
  unfold readKeyword
  split
  · exact readNamed_directed typeName context access tokens
      (readFunction_directed typeName context access)
  split
  · exact readFunction_directed typeName context access keyword tokens
  split
  · refine readNamed_directed typeName context access tokens fun name later => ?_
    have isClass : (Declaration.ofClass name).kind ≠ .variableDecl := by
      simp [Declaration.ofClass, Declaration.ofName]
    exact readContainer_directed typeName
      { context with classNames := name.lexeme :: context.classNames } access isClass _ later
  split
  · refine readNamed_directed typeName context access tokens fun name later => ?_
    have isNamespace : (Declaration.ofNamespace name).kind ≠ .variableDecl := by
      simp [Declaration.ofNamespace, Declaration.ofName]
    exact readContainer_directed typeName context access isNamespace _ later
  split
  · split
    · exact passed_directed typeName context _ tokens
    · split
      · exact passed_directed typeName context _ _
      · exact passed_directed typeName context access tokens
  · exact passed_directed typeName context access tokens

/-- **One step.** A pending type stays pending, or is gone, or goes to a variable. It never changes
which tokens are read next. -/
theorem step_directed (region : Region) (token : Token) (tokens : List Token) :
    StepDirected typeName (step region context access token tokens)
      (step region (context.directed typeName) access token tokens) := by
  have starts : startsVariable region (context.directed typeName) token =
      startsVariable region context token := rfl
  unfold step
  rw [starts]
  split
  · exact .dropped
  split
  · exact readVariable_directed typeName context access token tokens
  split
  · exact readKeyword_directed typeName context access region token tokens
  · exact passed_directed typeName context access tokens

end

end Reader

/-! ## Forests -/

namespace Forest

/-- There is no variable in a forest; parameters do not count. -/
def NoVariable (forest : Forest Declaration) : Prop :=
  ∀ declaration ∈ forest.toList, declaration.kind ≠ .variableDecl

/-- The first variable of a forest, in the order of reading, gets another type, and everything else
stays as it is. -/
inductive Retyped (typeName : String) : Forest Declaration → Forest Declaration → Prop where
  /-- The variable comes first. -/
  | first {written : String} {access : Access} {name : Token} {beside : Forest Declaration} :
      Retyped typeName (cons (.ofVariable written access name) nil beside)
        (cons (.ofVariable typeName access name) nil beside)
  /-- The variable lies in the first declaration. -/
  | inside {declaration : Declaration} {below below' beside : Forest Declaration}
      (other : declaration.kind ≠ .variableDecl) (inner : Retyped typeName below below') :
      Retyped typeName (cons declaration below beside) (cons declaration below' beside)
  /-- The variable lies beside the first declaration, which holds none. -/
  | behind {declaration : Declaration} {below beside beside' : Forest Declaration}
      (other : declaration.kind ≠ .variableDecl) (free : below.NoVariable)
      (later : Retyped typeName beside beside') :
      Retyped typeName (cons declaration below beside) (cons declaration below beside')

/-- An empty forest holds no variables. -/
theorem noVariable_nil : (nil : Forest Declaration).NoVariable :=
  fun _ listed => absurd listed List.not_mem_nil

/-- A tree without variables beside others without variables. -/
theorem noVariable_cons {declaration : Declaration} {below beside : Forest Declaration}
    (other : declaration.kind ≠ .variableDecl) (free : below.NoVariable)
    (later : beside.NoVariable) : (cons declaration below beside).NoVariable := by
  intro element listed
  rcases mem_toList_cons.mp listed with rfl | inside | outside
  · exact other
  · exact free element inside
  · exact later element outside

/-- Parameters in front are no variables. -/
theorem NoVariable.withLeaves {leaves : List Declaration} {forest : Forest Declaration}
    (free : forest.NoVariable) (others : ∀ leaf ∈ leaves, leaf.kind ≠ .variableDecl) :
    (forest.withLeaves leaves).NoVariable := by
  induction leaves with
  | nil => exact free
  | cons leaf leaves ih =>
    obtain ⟨other, others⟩ := List.forall_mem_cons.mp others
    exact noVariable_cons other noVariable_nil (ih others)

/-- Behind parameters in front, the first variable is still the same. -/
theorem Retyped.withLeaves {typeName : String} {leaves : List Declaration}
    {forest forest' : Forest Declaration} (retyped : Retyped typeName forest forest')
    (others : ∀ leaf ∈ leaves, leaf.kind ≠ .variableDecl) :
    Retyped typeName (forest.withLeaves leaves) (forest'.withLeaves leaves) := by
  induction leaves with
  | nil => exact retyped
  | cons leaf leaves ih =>
    obtain ⟨other, others⟩ := List.forall_mem_cons.mp others
    exact .behind other noVariable_nil (ih others)

end Forest

namespace Reader

/-! ## Runs -/

/-- What becomes of everything that is read when a type is pending: `bare` is what is read without
it. -/
inductive ReadDirected (typeName : String) (bare : Forest Declaration × Context) :
    Forest Declaration × Context → Prop where
  /-- There is no variable, and the type is still pending at the end. -/
  | kept (free : bare.1.NoVariable) :
      ReadDirected typeName bare (bare.1, bare.2.directed typeName)
  /-- The type is gone without a trace. -/
  | dropped : ReadDirected typeName bare bare
  /-- The first variable gets the type. -/
  | used {forest : Forest Declaration} (retyped : Forest.Retyped typeName bare.1 forest) :
      ReadDirected typeName bare (forest, bare.2)

/-- The parameters that a step finds are no variables. -/
theorem kind_of_mem_found_parameters {region : Region} {context : Context} {access : Access}
    {token : Token} {tokens : List Token} {found : Found}
    (h : (step region context access token tokens).found = some found) :
    ∀ parameter ∈ found.parameters, parameter.kind ≠ .variableDecl := by
  obtain ⟨layout, fits⟩ := (opens_of_found h).layout h
  intro parameter listed
  rw [fits.parameters_eq] at listed
  rw [kind_of_mem_parameters listed]
  nofun

/-- A declaration other than a variable hands a pending type on: to its body, and from there to the
tokens behind it. -/
theorem ReadDirected.found {typeName : String} {region : Region} {access : Access}
    {declaration : Declaration} {parameters : List Declaration} {rest : List Token}
    {inner inner' : Forest Declaration × Context} (other : declaration.kind ≠ .variableDecl)
    (others : ∀ parameter ∈ parameters, parameter.kind ≠ .variableDecl)
    (within : ReadDirected typeName inner inner')
    (after : ReadDirected typeName (read region inner.2 access rest)
      (read region (inner.2.directed typeName) access rest)) :
    ReadDirected typeName
      (.cons declaration (inner.1.withLeaves parameters) (read region inner.2 access rest).1,
        (read region inner.2 access rest).2)
      (.cons declaration (inner'.1.withLeaves parameters) (read region inner'.2 access rest).1,
        (read region inner'.2 access rest).2) := by
  cases within with
  | kept free =>
    -- The body has not used the type, so that the tokens behind it decide.
    dsimp only
    generalize read region (inner.2.directed typeName) access rest = beside' at after
    cases after with
    | kept later => exact .kept (Forest.noVariable_cons other (free.withLeaves others) later)
    | dropped => exact .dropped
    | used retyped => exact .used (.behind other (free.withLeaves others) retyped)
  | dropped => exact .dropped
  | used retyped => exact .used (.inside other (retyped.withLeaves others))

/-- **All steps.** Reading with a pending type finds what reading without it finds, up to the type
of the first variable. -/
theorem read_directed (typeName : String) (region : Region) (context : Context) (access : Access)
    (tokens : List Token) :
    ReadDirected typeName (read region context access tokens)
      (read region (context.directed typeName) access tokens) := by
  fun_induction read region context access tokens with
  | case1 region context access =>
    rw [read]
    exact .kept Forest.noVariable_nil
  | case2 region context access token tokens next nothing ih =>
    have stepped : StepDirected typeName next _ :=
      step_directed typeName context access region token tokens
    rw [read]
    generalize step region (context.directed typeName) access token tokens = directed at stepped
    cases stepped with
    | kept noVariable => simpa only [nothing] using ih
    | dropped =>
      simp only [nothing]
      exact .dropped
    | used declared => simp [nothing] at declared
  | case3 region context access token tokens next found hfound inner beside innerIh _ besideIh =>
    have stepped : StepDirected typeName next _ :=
      step_directed typeName context access region token tokens
    have body : next.body = found.body := by simp only [Step.body, hfound]
    rw [read]
    generalize step region (context.directed typeName) access token tokens = directed at stepped
    cases stepped with
    | kept noVariable =>
      have within : ReadDirected typeName inner
          (read found.region (next.context.directed typeName) {} found.body) := body ▸ innerIh
      simp only [hfound]
      exact .found (noVariable found hfound) (kind_of_mem_found_parameters hfound) within besideIh
    | dropped =>
      simp only [hfound]
      exact .dropped
    | used declared =>
      -- A variable has no body, so that both go on in the context behind it.
      obtain rfl := Option.some.inj (hfound.symm.trans declared)
      have bare : inner = (.nil, next.context) := by simp only [inner, body, read]
      simp only [Step.body, read]
      simp only [beside, bare]
      exact .used .first

end Reader

/-! ## Outlines -/

/-- A symbol gets another type if it has a given number. -/
def Symbol.retyped (typeName : String) (id : Nat) (symbol : Symbol) : Symbol :=
  if symbol.id = id then { symbol with declaration := { symbol.declaration with typeName } }
  else symbol

/-- A symbol is the first variable of an outline. Parameters do not count. -/
structure Outline.IsFirstVariable (outline : Outline) (symbol : Symbol) : Prop where
  /-- The symbol is one of the outline. -/
  listed : symbol ∈ outline.symbols
  /-- It is a variable, and no parameter. -/
  isVariable : symbol.kind = .variableDecl
  /-- No other variable has a smaller number. -/
  first : ∀ other ∈ outline.symbols, other.kind = .variableDecl → symbol.id ≤ other.id

namespace Forest

/-- Symbols with other numbers stay as they are. -/
theorem map_retyped_of_ne {typeName : String} {id : Nat} {outline : Outline}
    (h : ∀ symbol ∈ outline.toList, symbol.id ≠ id) :
    outline.map (Symbol.retyped typeName id) = outline := by
  induction outline with
  | nil => rfl
  | cons root below beside belowInduction besideInduction =>
    simp only [mem_toList_cons, or_imp, forall_and, forall_eq] at h
    rw [map, belowInduction h.2.1, besideInduction h.2.2, Symbol.retyped, if_neg h.1]

/-- Retyping keeps the number of declarations. -/
theorem Retyped.size_eq {typeName : String} {forest forest' : Forest Declaration}
    (retyped : Retyped typeName forest forest') : forest'.size = forest.size := by
  induction retyped with
  | first => rfl
  | inside other inner ih => simp only [size, ih]
  | behind other free later ih => simp only [size, ih]

/-- Variables have no bracket errors, so retyping one changes none. -/
theorem Retyped.filterMap_bracketError? {typeName : String} {forest forest' : Forest Declaration}
    (retyped : Retyped typeName forest forest') :
    forest'.toList.filterMap (·.bracketError?) = forest.toList.filterMap (·.bracketError?) := by
  induction retyped with
  | first => rfl
  | inside other inner ih => simp only [toList, List.filterMap_cons, List.filterMap_append, ih]
  | behind other free later ih => simp only [toList, List.filterMap_cons, List.filterMap_append, ih]

/-- In numbered declarations, retyping the first variable is retyping the symbol with its number. -/
theorem Retyped.exists_number {typeName : String} {forest forest' : Forest Declaration}
    (retyped : Retyped typeName forest forest') (owners : List Entry) (first : Nat) :
    ∃ target, Outline.IsFirstVariable (forest.number owners first) target ∧
      forest'.number owners first =
        (forest.number owners first).map (Symbol.retyped typeName target.id) := by
  induction retyped generalizing owners first with
  | @first written access name beside =>
    let target : Symbol := ⟨⟨first, .ofVariable written access name⟩, owners⟩
    have behind : ∀ symbol ∈ (beside.number owners (first + 1)).toList, symbol.id ≠ first := by
      intro symbol listed
      have bounds := id_bounds_of_mem listed
      omega
    have lowest : ∀ symbol ∈
        ((cons (.ofVariable written access name) nil beside).number owners first).toList,
        first ≤ symbol.id := fun symbol listed => (id_bounds_of_mem listed).1
    refine ⟨target, ⟨List.mem_cons_self, rfl, fun other listed _ => lowest other listed⟩, ?_⟩
    simp only [number, size, Nat.add_zero, map, Symbol.retyped, target, if_pos]
    rw [map_retyped_of_ne behind]
    rfl
  | @inside declaration below below' beside other inner ih =>
    obtain ⟨target, isFirst, same⟩ := ih (⟨first, declaration⟩ :: owners) (first + 1)
    have bounds := id_bounds_of_mem isFirst.listed
    have apart : first ≠ target.id := by omega
    have behind : ∀ symbol ∈ (beside.number owners (first + 1 + below.size)).toList,
        target.id < symbol.id := by
      intro symbol listed
      have later := id_bounds_of_mem listed
      omega
    refine ⟨target, ⟨mem_toList_cons.mpr (.inr (.inl isFirst.listed)), isFirst.isVariable, ?_⟩, ?_⟩
    · intro symbol listed isVariable
      rcases mem_toList_cons.mp listed with rfl | within | outside
      · exact absurd isVariable other
      · exact isFirst.first symbol within isVariable
      · exact Nat.le_of_lt (behind symbol outside)
    · simp only [number, map, inner.size_eq, same]
      rw [map_retyped_of_ne fun symbol listed => (Nat.ne_of_lt (behind symbol listed)).symm,
        Symbol.retyped, if_neg apart]
  | @behind declaration below beside beside' other free later ih =>
    obtain ⟨target, isFirst, same⟩ := ih owners (first + 1 + below.size)
    have bounds := id_bounds_of_mem isFirst.listed
    have apart : first ≠ target.id := by omega
    have before : ∀ symbol ∈ (below.number (⟨first, declaration⟩ :: owners) (first + 1)).toList,
        symbol.id ≠ target.id := by
      intro symbol listed
      have inside := id_bounds_of_mem listed
      omega
    refine ⟨target, ⟨mem_toList_cons.mpr (.inr (.inr isFirst.listed)), isFirst.isVariable, ?_⟩, ?_⟩
    · intro symbol listed isVariable
      rcases mem_toList_cons.mp listed with rfl | within | outside
      · exact absurd isVariable other
      · -- What lies below the declaration holds no variable.
        refine absurd isVariable (free symbol.declaration ?_)
        rw [← map_declaration_number (⟨first, declaration⟩ :: owners) (first + 1) below]
        exact List.mem_map_of_mem within
      · exact isFirst.first symbol outside isVariable
    · simp only [number, map, same]
      rw [map_retyped_of_ne before, Symbol.retyped, if_neg apart]

end Forest

/-- A directive before some tokens makes its type pending. -/
theorem read_directive {directive : Token} {typeName : String}
    (names : directive.directedType? = some typeName) (context : Reader.Context)
    (tokens : List Token) :
    Reader.read .outer context {} (directive :: tokens) =
      Reader.read .outer (context.directed typeName) {} tokens := by
  rw [Reader.read, Reader.step, names]
  rfl

/-- **A directive overrides at most one declaration.** A directive before some tokens changes no
error and no symbol but for one type at most: that of the first variable, which becomes the type
that the directive names. Before another directive it changes nothing. -/
theorem ofTokens_directive {directive : Token} {typeName : String}
    (names : directive.directedType? = some typeName) (tokens : List Token) :
    (Outline.ofTokens (directive :: tokens)).errors = (Outline.ofTokens tokens).errors ∧
      (Outline.ofTokens (directive :: tokens) = Outline.ofTokens tokens ∨
        ∃ target, (Outline.ofTokens tokens).IsFirstVariable target ∧
          Outline.ofTokens (directive :: tokens) =
            (Outline.ofTokens tokens).map (Symbol.retyped typeName target.id)) ∧
      ∀ second : Token, second.directedType?.isSome →
        Outline.ofTokens (directive :: second :: tokens) = Outline.ofTokens (second :: tokens) := by
  have directed := Reader.read_directed typeName .outer {} {} tokens
  rw [← read_directive names] at directed
  refine ⟨?_, ?_, ?_⟩
  · unfold Outline.ofTokens
    rw [Outline.errors_number, Outline.errors_number]
    generalize Reader.read .outer {} {} (directive :: tokens) = result at directed
    cases directed with
    | kept free => rfl
    | dropped => rfl
    | used retyped => exact retyped.filterMap_bracketError?
  · unfold Outline.ofTokens
    generalize Reader.read .outer {} {} (directive :: tokens) = result at directed
    cases directed with
    | kept free => exact .inl rfl
    | dropped => exact .inl rfl
    | used retyped => exact .inr (retyped.exists_number [] 0)
  · intro second isDirective
    obtain ⟨later, namesLater⟩ := Option.isSome_iff_exists.mp isDirective
    unfold Outline.ofTokens
    rw [read_directive names, read_directive namesLater, read_directive namesLater]
    rfl

/-- A class with a method and a field, and a variable behind it. -/
def shapeTokens : List Token :=
  tokenize "class Shape \x7b\n  function move(by) \x7b\x7d\n  static var at;\n\x7d\nvar at;"

/-- A type that is pending before the class goes past the parameter of the method to the field, and
does not reach the variable behind the class. -/
theorem ofTokens_directive_shape :
    let directive : Token := ⟨.text, "#type=Point", 1, 0⟩
    directive.directedType? = some "Point" ∧
      (∃ target, (Outline.ofTokens shapeTokens).IsFirstVariable target ∧
        Outline.ofTokens (directive :: shapeTokens) =
          (Outline.ofTokens shapeTokens).map (Symbol.retyped "Point" target.id)) ∧
      (Outline.ofTokens (directive :: shapeTokens)).symbols.map (·.typeName) =
        ["class", "function", "var", "Point", "var"] := by
  intro directive
  have names : directive.directedType? = some "Point" := by decide +kernel
  have bare : (Outline.ofTokens shapeTokens).symbols.map (·.typeName) =
      ["class", "function", "var", "var", "var"] := by decide +kernel
  have typed : (Outline.ofTokens (directive :: shapeTokens)).symbols.map (·.typeName) =
      ["class", "function", "var", "Point", "var"] := by decide +kernel
  have differs : Outline.ofTokens (directive :: shapeTokens) ≠ Outline.ofTokens shapeTokens := by
    intro same
    rw [same, bare] at typed
    exact absurd typed (by decide)
  exact ⟨names, (ofTokens_directive names shapeTokens).2.1.resolve_left differs, typed⟩

end ScriptLens
