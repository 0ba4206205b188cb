import ScriptLens.Proofs.Query.NodeWalks

/-! # Arenas are forests
Numbers in an arena could lead anywhere: past its end, to a node of another kind, or around in a
circle. In an arena that has been filled from tokens they do not, whatever the tokens are. Every node
is listed once, by the scope that it keeps as its parent; a scope comes right before all that lies in
it; and so every walk along numbers comes to an end.
Main definitions:
* `Arena.Owns`, `Arena.scopes`, `Node.fits`, `Node.mayOwn`: how nodes belong to each other.
* `Arena.IsForest`: the nodes, the member lists and the parents agree, and walks end.
Main statement:
* `isForest_ofTokens`: this is so for every list of tokens. -/

namespace ScriptLens

/-! ## Definitions -/

/-- Whether a node may be in a list of members of a kind. Parameters are variables of a function. -/
def Node.fits (node : Node) (kind : Declaration.Kind) : Bool :=
  match node.content, kind with
  | .namespaceNode _, .namespaceDecl => true
  | .classNode _, .classDecl => true
  | .functionNode _ _ _, .functionDecl => true
  | .variableNode _ _, .parameterDecl | .variableNode _ _, .variableDecl => true
  | _, _ => false

/-- Whether a node may lie directly in another one: a namespace holds everything, a class functions
and variables, a function variables, and a variable nothing. -/
def Node.mayOwn (owner node : Node) : Bool :=
  match owner.content, node.content with
  | .namespaceNode _, _ => true
  | .classNode _, .functionNode _ _ _ | .classNode _, .variableNode _ _ => true
  | .functionNode _ _ _, .variableNode _ _ => true
  | _, _ => false

namespace Arena

variable (arena : Arena)

/-- The node with the number `id` keeps `owner` as the number of its parent. -/
def Owns (owner id : Nat) : Prop :=
  ∃ node, arena.nodes[id]? = some node ∧ node.parent = some owner

/-- The document and all nodes. -/
def scopes : List (Option Nat) :=
  none :: (List.range arena.nodes.length).map some

/-- The most calls inside one another that a walk to the inside of a scope can need, if every call is
for a larger number than the one before it. -/
def callsInside : Option Nat → Nat
  | none => arena.nodes.length + 1
  | some id => arena.nodes.length - id

/-- The nodes of an arena, their member lists and their parents make up a forest, and walks along
them come to an end. -/
structure IsForest : Prop where
  /-- A number in a member list is one of a node. -/
  listed_lt : ∀ scope kind, ∀ id ∈ arena.listed scope kind, id < arena.nodes.length
  /-- Over all member lists every number of a node occurs exactly once. -/
  listed_once :
    (arena.scopes.flatMap (arena.members completionOrder)).Perm (List.range arena.nodes.length)
  /-- A node is listed by its parent and by nothing else. -/
  listed_iff : ∀ id node, arena.nodes[id]? = some node → ∀ scope,
    id ∈ arena.members completionOrder scope ↔ node.parent = scope
  /-- The number of a parent is smaller, and so it is one of a node as well. -/
  parent_lt : ∀ owner id, arena.Owns owner id → owner < id
  /-- The numbers that a scope lists are larger than its own. -/
  lt_listed : ∀ owner kind, ∀ id ∈ arena.listed (some owner) kind, owner < id
  /-- What lies in a node, at any depth, has the numbers right after it. -/
  descendants : ∀ id < arena.nodes.length, ∃ last, id ≤ last ∧ last < arena.nodes.length ∧
    ∀ other, Relation.TransGen arena.Owns id other ↔ id < other ∧ other ≤ last
  /-- A list for a kind holds nodes of that kind only. -/
  listed_fits : ∀ scope kind, ∀ id ∈ arena.listed scope kind, ∃ node,
    arena.nodes[id]? = some node ∧ node.fits kind
  /-- A parent is a scope that may hold the node. -/
  mayOwn : ∀ owner id, arena.Owns owner id → ∃ scope node,
    arena.nodes[owner]? = some scope ∧ arena.nodes[id]? = some node ∧ scope.mayOwn node
  /-- The walk to the path of a node ends after at most as many steps to smaller numbers as there
  are such numbers. -/
  path_ends : ∀ id < arena.nodes.length, ∃ path, ∀ bound > id, arena.path? bound id = some path
  /-- The walk to the scopes around a line ends, in every scope. -/
  enclosing_ends : ∀ scope ∈ arena.scopes, ∀ line, ∃ around,
    ∀ bound ≥ arena.callsInside scope, arena.enclosing? line bound scope = some around
  /-- Looking a name up ends, in every scope. -/
  lookup_ends : ∀ scope ∈ arena.scopes, ∀ name line, ∃ result,
    ∀ bound ≥ arena.callsInside scope, arena.lookup? name line bound scope = some result
  /-- Gathering what is offered ends, in every scope. -/
  offered_ends : ∀ scope ∈ arena.scopes, ∀ part line, ∃ offers,
    ∀ bound ≥ arena.callsInside scope, arena.offered? part line bound scope = some offers

end Arena

/-! ## Stored outlines -/

/-- What lies below a symbol has numbers inside the bounds of the forest. -/
theorem Forest.id_add_size_lt {owners : List Entry} {first : Nat} {forest : Forest Declaration}
    {node : Symbol × Outline} (listed : node ∈ (forest.number owners first).subtrees) :
    node.1.id + node.2.size < first + forest.size := by
  induction forest generalizing owners first with
  | nil => exact absurd listed List.not_mem_nil
  | cons declaration below beside belowInduction besideInduction =>
    rw [size]
    rcases mem_subtrees_cons.mp listed with rfl | inside | outside
    · rw [size_number]
      dsimp only
      omega
    · have bounds := belowInduction inside
      omega
    · have bounds := besideInduction outside
      omega

section

variable {forest : Forest Declaration}

/-- There is one node for each symbol. -/
@[simp] theorem length_nodes_stored :
    (Outline.stored (forest.number [] 0)).nodes.length = forest.size := by
  rw [Outline.stored, List.length_map, ← List.length_map Prod.fst]
  simp

/-- Every number below that of the nodes is one of a symbol. -/
theorem exists_subtree_of_lt {id : Nat}
    (bound : id < (Outline.stored (forest.number [] 0)).nodes.length) :
    ∃ node ∈ (forest.number [] 0).subtrees, node.1.id = id := by
  obtain ⟨node, listed, same, -⟩ := exists_subtree_of_getElem? (List.getElem?_eq_getElem bound)
  exact ⟨node, listed, same⟩

/-- The scopes are the holders. -/
@[simp] theorem scopes_stored : (Outline.stored (forest.number [] 0)).scopes =
    (Outline.holders (forest.number [] 0)).map fun holder => holder.1.map (·.id) := by
  have ids : (forest.number [] 0).subtrees.map (·.1.id) = List.range forest.size := by
    rw [← Forest.size_number [] 0, ← map_id_symbols, Outline.symbols, ← Forest.map_fst_subtrees,
      List.map_map]
    rfl
  rw [Arena.scopes, length_nodes_stored, ← ids, Outline.holders, List.map_cons, List.map_map,
    List.map_map]
  rfl

/-- A listed number is that of a symbol in the holder that lists it. -/
theorem exists_of_mem_listed (placed : forest.Placed none) {scope : Option Nat}
    {kind : Declaration.Kind} {id : Nat}
    (listed : id ∈ (Outline.stored (forest.number [] 0)).listed scope kind) :
    ∃ holder ∈ Outline.holders (forest.number [] 0), scope = holder.1.map (·.id) ∧
      ∃ symbol ∈ holder.2.tops, symbol.kind = kind ∧ symbol.id = id := by
  -- A number behind the last node has no lists, so the scope is one of the document.
  have known : scope ∈ (Outline.stored (forest.number [] 0)).scopes := by
    cases scope with
    | none => exact List.mem_cons_self
    | some owner =>
      refine List.mem_cons_of_mem _ (List.mem_map_of_mem (List.mem_range.mpr ?_))
      refine Nat.lt_of_not_le fun outside => ?_
      rw [Arena.listed, List.getElem?_eq_none outside] at listed
      exact absurd listed List.not_mem_nil
  rw [scopes_stored] at known
  obtain ⟨holder, found, rfl⟩ := List.mem_map.mp known
  rw [listed_stored placed found] at listed
  obtain ⟨symbol, among, rfl⟩ := List.mem_map.mp listed
  obtain ⟨top, same⟩ := List.mem_filter.mp among
  exact ⟨holder, found, rfl, symbol, top, of_decide_eq_true same, rfl⟩

/-- Over all member lists every number of a symbol occurs exactly once. -/
theorem listed_once_stored (placed : forest.Placed none) :
    ((Outline.stored (forest.number [] 0)).scopes.flatMap
      ((Outline.stored (forest.number [] 0)).members completionOrder)).Perm
        (List.range (Outline.stored (forest.number [] 0)).nodes.length) := by
  have members : ∀ holder ∈ Outline.holders (forest.number [] 0),
      ((Outline.stored (forest.number [] 0)).members completionOrder (holder.1.map (·.id))).Perm
        (holder.2.tops.map (·.id)) := by
    intro holder listed
    rw [members_stored placed listed, Forest.tops, List.map_map]
    exact (arrange_perm (by decide) fun member _ => mem_completionOrder member.1.kind).map _
  rw [scopes_stored, List.flatMap_map, length_nodes_stored, ← Forest.size_number [] 0,
    ← map_id_symbols]
  refine (List.Perm.flatMap_left _ members).trans ?_
  rw [← List.map_flatMap]
  exact (flatMap_tops_perm _).map _

/-- A symbol is listed by its owner and by nothing else. -/
theorem mem_members_stored_iff (placed : forest.Placed none) {symbol : Symbol}
    (found : symbol ∈ Outline.symbols (forest.number [] 0)) (scope : Option Nat) :
    symbol.id ∈ (Outline.stored (forest.number [] 0)).members completionOrder scope ↔
      symbol.owner?.map (·.id) = scope := by
  constructor
  · intro listed
    obtain ⟨kind, -, listed⟩ := List.mem_flatMap.mp listed
    obtain ⟨holder, known, rfl, other, top, -, same⟩ := exists_of_mem_listed placed listed
    have otherFound := mem_symbols_iff.mpr ⟨holder, known, top⟩
    rw [← Forest.eq_of_id_eq otherFound found same, owner?_of_mem_tops known top]
  · rintro rfl
    obtain ⟨holder, known, top⟩ := mem_symbols_iff.mp found
    rw [owner?_of_mem_tops known top, members_stored placed known]
    obtain ⟨node, root, rfl⟩ := List.mem_map.mp top
    exact List.mem_map_of_mem (by simp [root])

/-- A number is kept as that of a parent exactly where a symbol is the owner. -/
theorem owns_stored_iff {owner id : Nat} :
    (Outline.stored (forest.number [] 0)).Owns owner id ↔
      ∃ scope symbol, scope ∈ Outline.symbols (forest.number [] 0) ∧
        symbol ∈ Outline.symbols (forest.number [] 0) ∧ scope.Owns symbol ∧
          scope.id = owner ∧ symbol.id = id := by
  constructor
  · rintro ⟨node, here, parent⟩
    obtain ⟨subtree, listed, rfl, rfl⟩ := exists_subtree_of_getElem? here
    obtain ⟨scope, owned, rfl⟩ := Option.map_eq_some_iff.mp parent
    have found := Forest.mem_toList_of_mem_subtrees listed
    have scopeFound := (Symbol.Owns.mem_and_id_lt owned found).1
    exact ⟨scope, subtree.1, scopeFound, found, owned, rfl, rfl⟩
  · rintro ⟨scope, symbol, -, found, owned, rfl, rfl⟩
    obtain ⟨below, listed⟩ := Forest.exists_mem_subtrees found
    exact ⟨_, getElem?_nodes_stored listed, congrArg (Option.map _) owned⟩

/-- One number leads to another through parents exactly as one symbol owns the other. -/
theorem transGen_owns_stored_iff {node : Symbol × Outline} {id : Nat}
    (listed : node ∈ (forest.number [] 0).subtrees) :
    Relation.TransGen (Outline.stored (forest.number [] 0)).Owns node.1.id id ↔
      ∃ symbol ∈ Outline.symbols (forest.number [] 0), symbol.id = id ∧
        Relation.TransGen Symbol.Owns node.1 symbol := by
  have found := Forest.mem_toList_of_mem_subtrees listed
  constructor
  · intro chain
    induction chain with
    | single last =>
      obtain ⟨scope, symbol, scopeFound, symbolFound, owned, same, rfl⟩ := owns_stored_iff.mp last
      rw [Forest.eq_of_id_eq scopeFound found same] at owned
      exact ⟨symbol, symbolFound, rfl, .single owned⟩
    | tail _ last ih =>
      -- Numbers are unique: the last step starts from the symbol that the others have reached.
      obtain ⟨between, betweenFound, rfl, chain⟩ := ih
      obtain ⟨scope, symbol, scopeFound, symbolFound, owned, same, rfl⟩ := owns_stored_iff.mp last
      rw [Forest.eq_of_id_eq scopeFound betweenFound same] at owned
      exact ⟨symbol, symbolFound, rfl, .tail chain owned⟩
  · rintro ⟨symbol, symbolFound, rfl, chain⟩
    induction chain with
    | single last =>
      exact .single (owns_stored_iff.mpr ⟨_, _, found, symbolFound, last, rfl, rfl⟩)
    | tail _ last ih =>
      have betweenFound := (Symbol.Owns.mem_and_id_lt last symbolFound).1
      exact .tail (ih betweenFound)
        (owns_stored_iff.mpr ⟨_, _, betweenFound, symbolFound, last, rfl, rfl⟩)

/-- What lies in a symbol has the numbers right after it. -/
theorem descendants_stored {node : Symbol × Outline}
    (listed : node ∈ (forest.number [] 0).subtrees) (id : Nat) :
    Relation.TransGen (Outline.stored (forest.number [] 0)).Owns node.1.id id ↔
      node.1.id < id ∧ id ≤ node.1.id + node.2.size := by
  rw [transGen_owns_stored_iff listed]
  constructor
  · rintro ⟨symbol, found, rfl, chain⟩
    rw [Symbol.transGen_owns_iff, ← Forest.mem_below_iff_owned listed found] at chain
    exact (Forest.mem_below_iff_id listed found).mp chain
  · rintro ⟨low, high⟩
    have bound := Forest.id_add_size_lt listed
    have reached : ∃ symbol ∈ (forest.number [] 0).toList, symbol.id = id :=
      Forest.exists_mem_of_id_bounds (Nat.zero_le id) (by omega)
    obtain ⟨symbol, found, rfl⟩ := reached
    refine ⟨symbol, found, rfl, ?_⟩
    rw [Symbol.transGen_owns_iff, ← Forest.mem_below_iff_owned listed found]
    exact (Forest.mem_below_iff_id listed found).mpr ⟨low, high⟩

/-- The node of a symbol goes into a list for the kind of the symbol. -/
theorem fits_ofSubtree (node : Symbol × Outline) : (Node.ofSubtree node).fits node.1.kind := by
  unfold Node.fits Node.ofSubtree Node.ofDeclaration Symbol.kind
  cases node.1.declaration.kind <;> rfl

/-- The node of a symbol may hold that of another one if the kinds allow it. -/
theorem mayOwn_ofSubtree {owner node : Symbol × Outline}
    (allowed : mayHold (some owner.1.kind) node.1.kind) :
    (Node.ofSubtree owner).mayOwn (Node.ofSubtree node) := by
  revert allowed
  unfold Symbol.kind Node.mayOwn Node.ofSubtree Node.ofDeclaration
  cases owner.1.declaration.kind <;> cases node.1.declaration.kind <;>
    first | exact fun _ => rfl | exact fun other => absurd other Bool.false_ne_true

/-- What lies in a scope is less than the calls that are allowed for. -/
theorem size_lt_callsInside {holder : Option Symbol × Outline}
    (listed : holder ∈ Outline.holders (forest.number [] 0)) :
    holder.2.size <
      (Outline.stored (forest.number [] 0)).callsInside (holder.1.map (·.id)) := by
  rcases List.mem_cons.mp listed with rfl | inner
  · rw [Option.map_none, Arena.callsInside, length_nodes_stored, Forest.size_number]
    exact Nat.lt_succ_self _
  · obtain ⟨node, subtree, rfl⟩ := List.mem_map.mp inner
    have bound := Forest.id_add_size_lt subtree
    rw [Option.map_some, Arena.callsInside, length_nodes_stored]
    dsimp only
    omega

end

/-! ## The main statement -/

/-- A stored outline of placed declarations is a forest. -/
theorem isForest_stored {forest : Forest Declaration} (placed : forest.Placed none) :
    (Outline.stored (forest.number [] 0)).IsForest where
  listed_lt scope kind id listed := by
    obtain ⟨holder, known, -, symbol, top, -, rfl⟩ := exists_of_mem_listed placed listed
    have found := mem_symbols_iff.mpr ⟨holder, known, top⟩
    have bounds := Forest.id_bounds_of_mem found
    rw [length_nodes_stored]
    omega
  listed_once := listed_once_stored placed
  listed_iff id node here scope := by
    obtain ⟨subtree, listed, rfl, rfl⟩ := exists_subtree_of_getElem? here
    exact mem_members_stored_iff placed (Forest.mem_toList_of_mem_subtrees listed) scope
  parent_lt owner id owns := by
    obtain ⟨scope, symbol, -, found, owned, rfl, rfl⟩ := owns_stored_iff.mp owns
    exact (Symbol.Owns.mem_and_id_lt owned found).2
  lt_listed owner kind id listed := by
    obtain ⟨holder, known, same, symbol, top, -, rfl⟩ := exists_of_mem_listed placed listed
    obtain ⟨scope, isHolder, rfl⟩ := Option.map_eq_some_iff.mp same.symm
    have found := mem_symbols_iff.mpr ⟨holder, known, top⟩
    exact (Symbol.Owns.mem_and_id_lt ((owner?_of_mem_tops known top).trans isHolder) found).2
  descendants id bound := by
    obtain ⟨node, listed, rfl⟩ := exists_subtree_of_lt bound
    have inside := Forest.id_add_size_lt listed
    refine ⟨node.1.id + node.2.size, Nat.le_add_right _ _, ?_, descendants_stored listed⟩
    rw [length_nodes_stored]
    omega
  listed_fits scope kind id listed := by
    obtain ⟨holder, known, -, symbol, top, rfl, rfl⟩ := exists_of_mem_listed placed listed
    obtain ⟨node, root, rfl⟩ := List.mem_map.mp top
    have subtree := Outline.mem_subtrees_of_mem_roots known root
    exact ⟨_, getElem?_nodes_stored subtree, fits_ofSubtree node⟩
  mayOwn owner id owns := by
    obtain ⟨scope, symbol, scopeFound, found, owned, rfl, rfl⟩ := owns_stored_iff.mp owns
    obtain ⟨around, scopeListed⟩ := Forest.exists_mem_subtrees scopeFound
    obtain ⟨below, listed⟩ := Forest.exists_mem_subtrees found
    have allowed := mayHold_owner placed found
    rw [owned] at allowed
    exact ⟨_, _, getElem?_nodes_stored scopeListed, getElem?_nodes_stored listed,
      mayOwn_ofSubtree allowed⟩
  path_ends id bound := by
    obtain ⟨node, listed, rfl⟩ := exists_subtree_of_lt bound
    have found := Forest.mem_toList_of_mem_subtrees listed
    exact ⟨node.1.path, fun bound enough => path?_stored found enough⟩
  enclosing_ends scope known line := by
    rw [scopes_stored] at known
    obtain ⟨holder, listed, rfl⟩ := List.mem_map.mp known
    exact ⟨_, fun bound enough => enclosing?_stored placed listed line
      (Nat.lt_of_lt_of_le (size_lt_callsInside listed) enough)⟩
  lookup_ends scope known name line := by
    rw [scopes_stored] at known
    obtain ⟨holder, listed, rfl⟩ := List.mem_map.mp known
    exact ⟨_, fun bound enough => lookup?_stored placed listed name line
      (Nat.lt_of_lt_of_le (size_lt_callsInside listed) enough)⟩
  offered_ends scope known part line := by
    rw [scopes_stored] at known
    obtain ⟨holder, listed, rfl⟩ := List.mem_map.mp known
    exact ⟨_, fun bound enough => offered?_stored placed listed part line
      (Nat.lt_of_lt_of_le (size_lt_callsInside listed) enough)⟩

/-- **Every arena that is filled from tokens is a forest**, whatever the tokens are. -/
theorem isForest_ofTokens (tokens : List Token) : (Arena.ofTokens tokens).IsForest := by
  rw [Arena.ofTokens_eq_stored]
  exact isForest_stored (placed_read .outer {} {} tokens none fun _ h => h)

end ScriptLens
