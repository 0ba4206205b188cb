import ScriptLens.Symbol.Arena.Turn
import ScriptLens.Symbol.Reader

/-! # Scanning into an arena
Scanning goes on turn by turn. The body of a scope is scanned between the turn that begins the scope
and the turn behind the body, and only then are the members of the scope known.
Main definitions:
* `Node.ofDeclaration`: the node of a declaration whose members are known.
* `Turn.Follows`: a turn stores what a step of reading finds.
* `Draft.scan`: the members that a list of tokens declares, with the draft after them.
* `Arena.ofTokens`: the arena of a list of tokens.
Main statement:
* `Draft.turn_follows`: every turn stores what the step of reading at the same token finds. -/

namespace ScriptLens

open Reader

/-! ## Nodes of declarations -/

/-- The node of a declaration that lies in `parent`, with the numbers of its members. -/
def Node.ofDeclaration (declaration : Declaration) (parent : Option Nat) (parameters : List Nat)
    (members : Members) : Node where
  name := declaration.name
  line := declaration.line
  column := declaration.column
  parent := parent
  lines := declaration.lines
  content :=
    match declaration.kind with
    | .namespaceDecl => .namespaceNode members
    | .classDecl => .classNode members
    | .functionDecl => .functionNode parameters members.vars declaration.access
    | .parameterDecl | .variableDecl => .variableNode declaration.typeName declaration.access

namespace Node

/-- The nodes of the parameters of the function with the number `function`. -/
def ofParameters (function : Nat) (parameters : List Declaration) : List Node :=
  parameters.map fun parameter => ofDeclaration parameter (some function) [] {}

variable (declaration : Declaration) (parent : Option Nat) (parameters : List Nat)
  (members : Members)

/-- The lines of a node are those of its declaration. -/
@[simp] theorem close_ofDeclaration (span : List Token) :
    (ofDeclaration declaration parent parameters members).close span =
      ofDeclaration (declaration.through span) parent parameters members := by
  unfold close Declaration.through
  cases span.getLast? <;> rfl

/-- Members that are filled in take the place of those that were there. -/
@[simp] theorem fill_ofDeclaration (later : List Nat) (inside : Members) :
    (ofDeclaration declaration parent parameters members).fill later inside =
      ofDeclaration declaration parent later inside := by
  obtain ⟨kind, name, line, column, lines, typeName, access, unclosed⟩ := declaration
  cases kind <;> rfl

/-- Lines that are stretched twice end where they are stretched to last. -/
theorem ofDeclaration_through_through {first last : List Token} (h : last ≠ []) :
    ofDeclaration ((declaration.through first).through last) parent parameters members =
      ofDeclaration (declaration.through last) parent parameters members := by
  have closing : last.getLast? = some (last.getLast h) := List.getLast?_eq_some_getLast h
  unfold Declaration.through
  rw [closing]
  cases first.getLast? <;> rfl

end Node

/-! ## Turns and steps -/

/-- The node of a begun declaration with its members filled in. -/
def Begun.finish (begun : Begun) (members : Members) (node : Node) : Node :=
  match begun.body with
  | none => node
  | some body => (node.close body).fill begun.parameters members

/-- A begun declaration with the node `node` under the number `id` is the found one, and once its
body has been scanned the node is that of the found one. -/
structure Begun.Stores (begun : Begun) (found : Found) (owner : Option Nat) (id : Nat)
    (node : Node) : Prop where
  /-- The number is that of the node. -/
  id_eq : begun.id = id
  /-- The same sort of thing is declared. -/
  kind_eq : begun.kind = found.declaration.kind
  /-- The body is scanned as it is read. -/
  region_eq : begun.region = found.region
  /-- The same tokens are the body. -/
  body_eq : begun.body.getD [] = found.body
  /-- Filled in, the node is that of the declaration; the parameters come right behind it. -/
  finish_eq : ∀ members, (begun.body = none → members = {}) →
    begun.finish members node = .ofDeclaration found.declaration owner
      (List.range' (id + 1) found.parameters.length) members

/-- Behind the nodes and the errors that there were, a draft holds what has been found: a
declaration with its parameters and with the error of its brackets. -/
def Draft.Holds (nodes : List Node) (errors : List BracketError) (owner : Option Nat)
    (draft : Draft) : Option Begun → Option Found → Prop
  | none, none => draft.nodes = nodes ∧ draft.errors = errors
  | some begun, some found =>
    ∃ node, begun.Stores found owner nodes.length node ∧
      draft.nodes = nodes ++ node :: Node.ofParameters nodes.length found.parameters ∧
      draft.errors = errors ++ found.declaration.bracketError?.toList
  | _, _ => False

/-- A turn that starts with some nodes and errors stores what a step finds, and both go on alike. -/
structure Turn.Follows (turn : Turn) (nodes : List Node) (errors : List BracketError)
    (owner : Option Nat) (step : Step) : Prop where
  /-- The same has been settled. -/
  context_eq : turn.draft.context = step.context
  /-- The next member is accessed in the same way. -/
  access_eq : turn.access = step.access
  /-- The same tokens are left. -/
  rest_eq : turn.rest = step.rest
  /-- The same has been found. -/
  holds : turn.draft.Holds nodes errors owner turn.begun step.found

namespace Turn.Follows

variable {turn : Turn} {nodes : List Node} {errors : List BracketError} {owner : Option Nat}
  {step : Step}

/-- A turn that begins nothing stores nothing. -/
theorem of_begun_eq_none (h : turn.Follows nodes errors owner step) (nothing : turn.begun = none) :
    step.found = none ∧ turn.draft = { nodes, context := step.context, errors } := by
  obtain ⟨context, -, -, holds⟩ := h
  rw [nothing] at holds
  cases hfound : step.found with
  | none =>
    rw [hfound] at holds
    exact ⟨rfl, by rw [← context, ← holds.1, ← holds.2]⟩
  | some found =>
    rw [hfound] at holds
    exact holds.elim

/-- A turn that begins a declaration stores it. -/
theorem of_begun_eq_some {begun : Begun} (h : turn.Follows nodes errors owner step)
    (begins : turn.begun = some begun) :
    ∃ found node, step.found = some found ∧ begun.Stores found owner nodes.length node ∧
      turn.draft =
        { nodes := nodes ++ node :: Node.ofParameters nodes.length found.parameters
          context := step.context
          errors := errors ++ found.declaration.bracketError?.toList } := by
  obtain ⟨context, -, -, holds⟩ := h
  rw [begins] at holds
  cases hfound : step.found with
  | none =>
    rw [hfound] at holds
    exact holds.elim
  | some found =>
    rw [hfound] at holds
    obtain ⟨node, stores, hnodes, herrors⟩ := holds
    exact ⟨found, node, rfl, stores, by rw [← context, ← hnodes, ← herrors]⟩

/-- The same tokens are the body. -/
theorem body_eq (h : turn.Follows nodes errors owner step) : turn.body = step.body := by
  unfold Turn.body Step.body
  cases begins : turn.begun with
  | none =>
    rw [(h.of_begun_eq_none begins).1]
    rfl
  | some begun =>
    obtain ⟨found, node, hfound, stores, -⟩ := h.of_begun_eq_some begins
    rw [hfound]
    exact stores.body_eq

end Turn.Follows

namespace Draft

/-- A node in the middle of a list is changed in its place. -/
theorem modify_append_cons (before behind : List Node) (node : Node) (change : Node → Node) :
    (before ++ node :: behind).modify before.length change = before ++ change node :: behind := by
  induction before with
  | nil => rfl
  | cons _ _ ih => exact congrArg _ ih

section

variable (before behind : List Node) (node : Node) (context : Context) (errors : List BracketError)

/-- The lines of a node are stretched in its place. -/
theorem close_append_cons (span : List Token) :
    Draft.close { nodes := before ++ node :: behind, context, errors } before.length span =
      { nodes := before ++ node.close span :: behind, context, errors } := by
  rw [close, modify_append_cons]

/-- The members of a node are filled in in its place. -/
theorem fill_append_cons (parameters : List Nat) (members : Members) :
    Draft.fill { nodes := before ++ node :: behind, context, errors } before.length parameters
        members =
      { nodes := before ++ node.fill parameters members :: behind, context, errors } := by
  rw [fill, modify_append_cons]

end

/-- A node that is already what is declared, and has no body, stores the declaration. -/
theorem stores_of_complete {begun : Begun} {found : Found} {owner : Option Nat} {id : Nat}
    {node : Node} (id_eq : begun.id = id) (kind_eq : begun.kind = found.declaration.kind)
    (region_eq : begun.region = found.region) (bare : begun.body = none) (noBody : found.body = [])
    (complete : node = .ofDeclaration found.declaration owner
      (List.range' (id + 1) found.parameters.length) {}) :
    begun.Stores found owner id node where
  id_eq := id_eq
  kind_eq := kind_eq
  region_eq := region_eq
  body_eq := by rw [bare, noBody]; rfl
  finish_eq members h := by
    rw [Begun.finish, bare, h bare]
    exact complete

/-- A turn that stores nothing follows a step that finds nothing. -/
theorem follows_of_passed (draft : Draft) (owner : Option Nat) (access : Access)
    (rest : List Token) :
    Turn.Follows { draft, access, rest } draft.nodes draft.errors owner
      { context := draft.context, access, rest } :=
  ⟨rfl, rfl, rfl, rfl, rfl⟩

/-- A turn at the type of a variable follows its reading. -/
theorem turnVariable_follows (draft : Draft) (owner : Option Nat) (access : Access)
    (start : Token) (tokens : List Token) :
    (draft.turnVariable owner access start tokens).Follows draft.nodes draft.errors owner
      (readVariable draft.context access start tokens) := by
  unfold turnVariable readVariable
  cases tokens with
  | nil => exact follows_of_passed _ _ _ _
  | cons name tokens =>
    dsimp only
    by_cases named : name.kind = .text
    · rw [if_pos named, if_pos named]
      by_cases ends : ((takeWrittenType tokens).2.head?.map endsHead).getD false
      · rw [if_pos ends, if_pos ends]
        refine ⟨rfl, rfl, rfl, _, stores_of_complete rfl rfl rfl rfl rfl rfl, rfl, ?_⟩
        exact (List.append_nil _).symm
      · rw [if_neg ends, if_neg ends]
        exact follows_of_passed _ _ _ _
    · rw [if_neg named, if_neg named]
      exact follows_of_passed _ _ _ _

/-- The parts of a parameter list give the parameters that are read off them, with the numbers from
the next one on. -/
theorem allocParameters_eq (draft : Draft) (function : Nat) (segments : List (List Token)) :
    draft.allocParameters function segments =
      (List.range' draft.nodes.length (segments.filterMap parameter?).length,
        { draft with nodes :=
            draft.nodes ++ Node.ofParameters function (segments.filterMap parameter?) }) := by
  induction segments generalizing draft with
  | nil => simp [allocParameters, Node.ofParameters]
  | cons segment segments ih =>
    unfold allocParameters
    cases reversed : (segment.takeWhile (·.kind ≠ .equalSign)).reverse with
    | nil =>
      have nothing : parameter? segment = none := by rw [parameter?, reversed]
      rw [List.filterMap_cons_none nothing]
      exact ih draft
    | cons name earlier =>
      dsimp only
      by_cases named : name.kind = .text
      · have declared : parameter? segment =
            some (.ofParameter ((earlier.head?.map (·.lexeme)).getD untyped) name) := by
          rw [parameter?, reversed]
          exact if_pos named
        rw [if_pos named, List.filterMap_cons_some declared, ih]
        simp [alloc, Node.ofParameters, List.range'_succ]
        rfl
      · have nothing : parameter? segment = none := by
          rw [parameter?, reversed]
          exact if_neg named
        rw [if_neg named, List.filterMap_cons_none nothing]
        exact ih draft

/-- When its parameter list has been scanned, a function has its parameters right behind it and its
lines reach to the end of the list. -/
theorem close_allocParameters (draft : Draft) (owner : Option Nat) (access : Access) (name : Token)
    (list : List Token) :
    let began := draft.alloc (.ofName name owner (.functionNode [] [] access))
    let scanned := began.2.allocParameters began.1 (splitParameters 0 [] list)
    scanned.1 = List.range' (draft.nodes.length + 1) (parameters list).length ∧
      scanned.2.close began.1 list =
        { draft with nodes := draft.nodes ++
            .ofDeclaration ((Declaration.ofFunction access name).through list) owner [] {} ::
              Node.ofParameters draft.nodes.length (parameters list) } := by
  intro began scanned
  have plain : Node.ofName name owner (.functionNode [] [] access) =
      .ofDeclaration (.ofFunction access name) owner [] {} := rfl
  unfold scanned began
  rw [allocParameters_eq, plain]
  dsimp only [alloc]
  constructor
  · rw [List.length_append, List.length_singleton, parameters]
  · simp [close_append_cons, parameters]

/-- A turn behind the name of a function follows its reading. -/
theorem turnFunction_follows (draft : Draft) (owner : Option Nat) (access : Access)
    (name : Token) (tokens : List Token) :
    (draft.turnFunction owner access name tokens).Follows draft.nodes draft.errors owner
      (readFunction draft.context access name tokens) := by
  unfold turnFunction readFunction
  dsimp only
  cases hlist : Bracket.parentheses.enclosed? tokens with
  | none =>
    -- Without a parameter list the node stays as it began.
    refine ⟨rfl, rfl, rfl, _, stores_of_complete rfl rfl rfl rfl rfl rfl, rfl, ?_⟩
    exact (List.append_nil _).symm
  | some list =>
    dsimp only
    by_cases listClosed : list.closed
    · rw [if_pos listClosed, if_pos listClosed]
      obtain ⟨ids, scanned⟩ := close_allocParameters draft owner access name list.inside
      have isFunction := (Declaration.kind_through (.ofFunction access name) list.inside).symm
      have noError := Declaration.bracketError?_through (.ofFunction access name) list.inside
      rw [scanned, ids]
      cases hbody : Bracket.braces.enclosed? list.rest with
      | none =>
        -- Without a body the parameters are filled in at once.
        dsimp only [alloc]
        rw [fill_append_cons, Node.fill_ofDeclaration]
        refine ⟨rfl, rfl, rfl, _, stores_of_complete rfl isFunction rfl rfl rfl rfl, rfl, ?_⟩
        rw [noError]
        exact (List.append_nil _).symm
      | some body =>
        dsimp only
        by_cases bodyClosed : body.closed
        · -- The body is still to be scanned, and the node is finished behind it.
          rw [if_pos bodyClosed, if_pos bodyClosed]
          have closing := Bracket.enclosed?_inside_ne_nil hbody bodyClosed
          have sameKind := (Declaration.kind_through (.ofFunction access name) body.inside).symm
          refine ⟨rfl, rfl, rfl, _, ⟨rfl, sameKind, rfl, rfl, fun members _ => ?_⟩, rfl, ?_⟩
          · dsimp only [Begun.finish]
            simp [Node.ofDeclaration_through_through _ _ _ _ closing]
          · rw [Declaration.bracketError?_through]
            exact (List.append_nil _).symm
        · -- A body that never closes leaves the parameters only.
          rw [if_neg bodyClosed, if_neg bodyClosed]
          dsimp only [alloc, fail]
          rw [fill_append_cons, Node.fill_ofDeclaration]
          refine ⟨rfl, rfl, rfl, _, stores_of_complete rfl isFunction rfl rfl rfl rfl, rfl, ?_⟩
          simp [Declaration.bracketError?, Declaration.ofFunction, Declaration.ofName]
    · -- A list that never closes leaves the node as it began.
      rw [if_neg listClosed, if_neg listClosed]
      exact ⟨rfl, rfl, rfl, _, stores_of_complete rfl rfl rfl rfl rfl rfl, rfl, rfl⟩

/-- A turn behind the name of a class or a namespace follows its reading, if the node begins as that
of the declaration. -/
theorem turnContainer_follows (draft : Draft) (owner : Option Nat) (access owned : Access)
    (kind : Declaration.Kind) (word : String) (content : Node.Content) (region : Region)
    (name : Token) (tokens : List Token)
    (plain : Node.ofName name owner content =
      .ofDeclaration (.ofName kind word owned name) owner [] {}) :
    (draft.turnContainer owner access kind word content region name tokens).Follows draft.nodes
      draft.errors owner
      (readContainer draft.context access (.ofName kind word owned name) region tokens) := by
  unfold turnContainer readContainer
  rw [plain]
  cases hbody : Bracket.braces.enclosed? tokens with
  | none =>
    refine ⟨rfl, rfl, rfl, _, stores_of_complete rfl rfl rfl rfl rfl rfl, rfl, ?_⟩
    exact (List.append_nil _).symm
  | some body =>
    dsimp only
    by_cases closed : body.closed
    · rw [if_pos closed, if_pos closed]
      have sameKind := (Declaration.kind_through (.ofName kind word owned name) body.inside).symm
      refine ⟨rfl, rfl, rfl, _, ⟨rfl, sameKind, rfl, rfl, fun members _ => ?_⟩, rfl, ?_⟩
      · dsimp only [Begun.finish]
        rw [Node.close_ofDeclaration, Node.fill_ofDeclaration]
        rfl
      · rw [Declaration.bracketError?_through]
        exact (List.append_nil _).symm
    · rw [if_neg closed, if_neg closed]
      exact ⟨rfl, rfl, rfl, _, stores_of_complete rfl rfl rfl rfl rfl rfl, rfl, rfl⟩

/-- A turn before a name follows its reading if the turn behind the name does. -/
theorem turnNamed_follows {draft : Draft} {owner : Option Nat} {access : Access}
    {tokens : List Token} {turnRest : Token → List Token → Turn}
    {readRest : Token → List Token → Step}
    (h : ∀ name later, (turnRest name later).Follows draft.nodes draft.errors owner
      (readRest name later)) :
    (draft.turnNamed access tokens turnRest).Follows draft.nodes draft.errors owner
      (readNamed draft.context access tokens readRest) := by
  unfold turnNamed readNamed
  cases tokens with
  | nil => exact follows_of_passed _ _ _ _
  | cons name later =>
    dsimp only
    by_cases named : name.kind = .text
    · rw [if_pos named, if_pos named]
      exact h name later
    · rw [if_neg named, if_neg named]
      exact follows_of_passed _ _ _ _

/-- The turn of a keyword follows its reading. -/
theorem turnKeyword_follows (draft : Draft) (region : Region) (owner : Option Nat)
    (access : Access) (keyword : Token) (tokens : List Token) :
    (draft.turnKeyword region owner access keyword tokens).Follows draft.nodes draft.errors owner
      (readKeyword region draft.context access keyword tokens) := by
  unfold turnKeyword readKeyword
  split
  · exact turnNamed_follows (draft.turnFunction_follows owner access)
  split
  · exact draft.turnFunction_follows owner access keyword tokens
  split
  · exact turnNamed_follows fun name later =>
      (draft.know name.lexeme).turnContainer_follows owner access _ _ _ _ _ _ _ rfl
  split
  · exact turnNamed_follows fun name later =>
      draft.turnContainer_follows owner access _ _ _ _ _ _ _ rfl
  split
  · split
    · exact follows_of_passed _ _ _ _
    · cases Visibility.ofKeyword? keyword.lexeme <;> exact follows_of_passed _ _ _ _
  · exact follows_of_passed _ _ _ _

/-- **Every turn stores what the step of reading at the same token finds.** -/
theorem turn_follows (draft : Draft) (region : Region) (owner : Option Nat) (access : Access)
    (token : Token) (tokens : List Token) :
    (draft.turn region owner access token tokens).Follows draft.nodes draft.errors owner
      (step region draft.context access token tokens) := by
  unfold turn step
  cases token.directedType? with
  | some typeName => exact follows_of_passed _ _ _ _
  | none =>
    dsimp only
    split
    · exact draft.turnVariable_follows owner access token tokens
    split
    · exact draft.turnKeyword_follows region owner access token tokens
    · exact follows_of_passed _ _ _ _

/-! ## Bodies -/

/-- A turn leaves fewer tokens than it started with, in the body and behind it. -/
theorem length_body_and_rest_le (draft : Draft) (region : Region) (owner : Option Nat)
    (access : Access) (token : Token) (tokens : List Token) :
    let next := draft.turn region owner access token tokens
    (∀ begun body, next.begun = some begun → begun.body = some body →
      body.length < (token :: tokens).length) ∧ next.rest.length < (token :: tokens).length := by
  intro next
  have followed := draft.turn_follows region owner access token tokens
  have taken : next.body.length + next.rest.length ≤ tokens.length := by
    rw [followed.body_eq, followed.rest_eq, ← List.length_append]
    exact (body_append_rest_suffix region draft.context access token tokens).length_le
  rw [List.length_cons]
  refine ⟨fun begun body hbegun hbody => ?_, by omega⟩
  have same : next.body = body := by
    rw [Turn.body, hbegun, Option.bind_some, hbody, Option.getD_some]
  rw [← same]
  omega

/-- The members that a list of tokens declares in a scope, behind those that were listed already,
and the draft after the tokens. -/
def scan (draft : Draft) (region : Region) (owner : Option Nat) (access : Access)
    (members : Members) : List Token → Members × Draft
  | [] => (members, draft)
  | token :: tokens =>
    let next := draft.turn region owner access token tokens
    match _ : next.begun with
    | none => next.draft.scan region owner next.access members next.rest
    | some begun =>
      let listed := members.add begun.kind begun.id
      match _ : begun.body with
      | none => next.draft.scan region owner next.access listed next.rest
      | some body =>
        -- Members start private again; the scope learns of them when its body is behind.
        let inner := next.draft.scan begun.region (some begun.id) {} {} body
        let finished := (inner.2.close begun.id body).fill begun.id begun.parameters inner.1
        finished.scan region owner next.access listed next.rest
termination_by tokens => tokens.length
decreasing_by
  · exact (draft.length_body_and_rest_le region owner access token tokens).2
  · exact (draft.length_body_and_rest_le region owner access token tokens).2
  · exact (draft.length_body_and_rest_le region owner access token tokens).1 _ _ ‹_› ‹_›
  · exact (draft.length_body_and_rest_le region owner access token tokens).2

end Draft

/-- The arena of a document with the given tokens. -/
def Arena.ofTokens (tokens : List Token) : Arena :=
  let (root, draft) := Draft.scan {} .outer none {} {} tokens
  { nodes := draft.nodes, root, errors := draft.errors }

end ScriptLens
