import ScriptLens.Proofs.Symbol.Holders
import ScriptLens.Symbol.Arena.Scan

/-! # Outlines in an arena
Scanning fills an arena by adding nodes at its end and by changing nodes that are in it already,
reading builds a forest from below. Both see the same declarations, and the arena is what results
when the forest is written out: node by node in the order of the numbers, every scope with the
numbers of what lies directly in it.
Main definitions:
* `Members.addAll`, `Node.ofSubtree`: the member lists and the node of a symbol.
* `Outline.stored`: an outline, written out as an arena.
Main statements:
* `Draft.scan_eq`: what scanning adds to a draft is what reading the same tokens gives.
* `Arena.ofTokens_eq_stored`: the arena of any tokens is their outline, written out. -/

namespace ScriptLens

open Reader

/-! ## Written outlines -/

/-- The member lists with some symbols added, one after the other. -/
def Members.addAll (members : Members) (symbols : List Symbol) : Members :=
  symbols.foldl (fun members symbol => members.add symbol.kind symbol.id) members

/-- The node of a symbol with what lies below it. -/
def Node.ofSubtree (node : Symbol × Outline) : Node :=
  let parameters := node.2.tops.filter (·.kind = .parameterDecl)
  .ofDeclaration node.1.declaration (node.1.owner?.map (·.id)) (parameters.map (·.id))
    (Members.addAll {} node.2.tops)

/-- An outline written out, symbol by symbol in the order of their numbers. -/
def Outline.stored (outline : Outline) : Arena where
  nodes := outline.subtrees.map Node.ofSubtree
  root := Members.addAll {} outline.tops
  errors := outline.errors

/-- Adding a symbol puts its number at the end of the list for its kind. -/
theorem Members.listed_add (members : Members) (added kind : Declaration.Kind) (id : Nat)
    (h : kind ≠ .parameterDecl) :
    (members.add added id).listed kind =
      members.listed kind ++ if added = kind then [id] else [] := by
  cases added <;> cases kind <;> first | exact absurd rfl h | simp [add, listed]

/-- The list for a kind grows by the symbols of that kind. -/
theorem Members.listed_addAll (members : Members) (symbols : List Symbol)
    (kind : Declaration.Kind) (h : kind ≠ .parameterDecl) :
    (members.addAll symbols).listed kind =
      members.listed kind ++ (symbols.filter (·.kind = kind)).map (·.id) := by
  induction symbols generalizing members with
  | nil => exact (List.append_nil _).symm
  | cons symbol symbols ih =>
    rw [addAll, List.foldl_cons, ← addAll, ih, listed_add _ _ _ _ h, List.append_assoc,
      List.filter_cons]
    by_cases same : symbol.kind = kind <;> simp [same]

/-! ## Parameters in front -/

section

variable (parameters : List Declaration) (inner : Forest Declaration) (owners : List Entry)

/-- The first of the parameters in front of a body has the first number. -/
@[simp] theorem number_withLeaves_cons (parameter : Declaration) (first : Nat) :
    (inner.withLeaves (parameter :: parameters)).number owners first =
      .cons { id := first, declaration := parameter, owners } .nil
        ((inner.withLeaves parameters).number owners (first + 1)) :=
  rfl

/-- Parameters in front of a body are written out as nodes of their own, before the body. -/
theorem map_ofSubtree_withLeaves (entry : Entry) (first : Nat) :
    ((inner.withLeaves parameters).number (entry :: owners) first).subtrees.map Node.ofSubtree =
      Node.ofParameters entry.id parameters ++
        (inner.number (entry :: owners) (first + parameters.length)).subtrees.map
          Node.ofSubtree := by
  induction parameters generalizing first with
  | nil => rfl
  | cons parameter parameters ih =>
    rw [number_withLeaves_cons, Forest.subtrees, Forest.subtrees, List.nil_append, List.map_cons,
      ih, List.length_cons, Nat.add_assoc first, Nat.add_comm 1]
    rfl

variable (kinds : ∀ parameter ∈ parameters, parameter.kind = .parameterDecl)

include kinds in
/-- Parameters in front of a body are no members of any other kind. -/
@[simp] theorem addAll_tops_withLeaves (members : Members) (first : Nat) :
    members.addAll ((inner.withLeaves parameters).number owners first).tops =
      members.addAll (inner.number owners (first + parameters.length)).tops := by
  induction parameters generalizing first with
  | nil => rfl
  | cons parameter parameters ih =>
    rw [List.forall_mem_cons] at kinds
    have unlisted (id : Nat) : members.add parameter.kind id = members := by rw [kinds.1, Members.add]
    rw [number_withLeaves_cons, Forest.tops, Forest.roots, List.map_cons, Members.addAll,
      List.foldl_cons, ← Members.addAll, ← Forest.tops, List.length_cons, ← Nat.add_assoc,
      Nat.add_right_comm, ← ih kinds.2]
    exact congrArg (Members.addAll · _) (unlisted first)

include kinds in
/-- Parameters in front of a body are the only ones there. -/
theorem parameters_tops_withLeaves (first : Nat)
    (others : ∀ symbol ∈ (inner.number owners (first + parameters.length)).tops,
      symbol.kind ≠ .parameterDecl) :
    (((inner.withLeaves parameters).number owners first).tops.filter
      (·.kind = .parameterDecl)).map (·.id) = List.range' first parameters.length := by
  induction parameters generalizing first with
  | nil =>
    rw [List.length_nil, List.range'_zero, List.map_eq_nil_iff, List.filter_eq_nil_iff]
    exact fun symbol found => by simpa using others symbol found
  | cons parameter parameters ih =>
    rw [List.forall_mem_cons] at kinds
    rw [List.length_cons, ← Nat.add_assoc, Nat.add_right_comm] at others
    rw [number_withLeaves_cons, Forest.tops, Forest.roots, List.map_cons, ← Forest.tops,
      List.filter_cons_of_pos, List.map_cons, ih kinds.2 _ others, List.length_cons,
      List.range'_succ]
    exact decide_eq_true kinds.1

end

/-! ## Scanning and reading -/

/-- No parameter stands where it could be read as a declaration. -/
theorem kind_ne_parameter_of_mem_tops (region : Region) (context : Context) (access : Access)
    (tokens : List Token) (owners : List Entry) (first : Nat) :
    ∀ symbol ∈ ((read region context access tokens).1.number owners first).tops,
      symbol.kind ≠ .parameterDecl := by
  intro symbol found
  have placed : (read region context access tokens).1.Placed none := by
    refine placed_read region context access tokens none fun kind holds => ?_
    cases region <;> cases kind <;> first | rfl | exact absurd holds (by decide)
  simpa [mayHold] using placed.mayHold_of_mem_tops found

/-- A declaration with its parameters and its body below it is written out as its node, the nodes of
the parameters and those of the body. -/
theorem map_ofSubtree_cons (declaration : Declaration) (parameters : List Declaration)
    (inner beside : Forest Declaration) (owners : List Entry) (first : Nat)
    (kinds : ∀ parameter ∈ parameters, parameter.kind = .parameterDecl) :
    let entry : Entry := { id := first, declaration }
    let body := inner.number (entry :: owners) (first + 1 + parameters.length)
    let rest := beside.number owners (first + 1 + (parameters.length + inner.size))
    (∀ symbol ∈ body.tops, symbol.kind ≠ .parameterDecl) →
    ((Forest.cons declaration (inner.withLeaves parameters) beside).number owners
        first).subtrees.map Node.ofSubtree =
      .ofDeclaration declaration (owners.head?.map (·.id))
          (List.range' (first + 1) parameters.length) (Members.addAll {} body.tops) ::
        (Node.ofParameters first parameters ++ body.subtrees.map Node.ofSubtree ++
          rest.subtrees.map Node.ofSubtree) := by
  intro entry body rest others
  have parent : ({ entry with owners } : Symbol).owner?.map (·.id) = owners.head?.map (·.id) := by
    cases owners <;> rfl
  rw [Forest.number, Forest.subtrees, List.map_cons, List.map_append, map_ofSubtree_withLeaves,
    Forest.size_withLeaves, Node.ofSubtree, parent, parameters_tops_withLeaves _ _ _ kinds _ others,
    addAll_tops_withLeaves _ _ _ kinds]

/-- A found declaration has parameters only where parameters are declared, and without errors. -/
theorem parameter_of_found {region : Region} {context : Context} {access : Access} {token : Token}
    {tokens : List Token} {found : Found}
    (h : (step region context access token tokens).found = some found) :
    ∀ parameter ∈ found.parameters,
      parameter.kind = .parameterDecl ∧ parameter.bracketError? = none := by
  intro parameter listed
  obtain ⟨layout, fits⟩ := (opens_of_found h).layout h
  rw [fits.parameters_eq] at listed
  obtain ⟨segment, -, declared⟩ := List.mem_filterMap.mp listed
  obtain ⟨typeName, name, -, rfl⟩ := parameter?_eq_some declared
  exact ⟨rfl, rfl⟩

/-- A draft with what has been read written out at its end. -/
def Draft.extend (draft : Draft) (owners : List Entry) (result : Forest Declaration × Context) :
    Draft where
  nodes := draft.nodes ++
    (result.1.number owners draft.nodes.length).subtrees.map Node.ofSubtree
  context := result.2
  errors := draft.errors ++ result.1.toList.filterMap (·.bracketError?)

/-- The draft with a found declaration, its parameters and its body, once all of them have been
scanned. -/
def Draft.extendFound (draft : Draft) (owners : List Entry) (found : Found)
    (inner : Forest Declaration × Context) : Draft :=
  let entry : Entry := { id := draft.nodes.length, declaration := found.declaration }
  let body :=
    inner.1.number (entry :: owners) (draft.nodes.length + 1 + found.parameters.length)
  { nodes := draft.nodes ++
      .ofDeclaration found.declaration (owners.head?.map (·.id))
          (List.range' (draft.nodes.length + 1) found.parameters.length)
          (Members.addAll {} body.tops) ::
        (Node.ofParameters draft.nodes.length found.parameters ++ body.subtrees.map Node.ofSubtree)
    context := inner.2
    errors := draft.errors ++ found.declaration.bracketError?.toList ++
      inner.1.toList.filterMap (·.bracketError?) }

section

variable (draft : Draft) (owners : List Entry) (found : Found)
  (inner beside : Forest Declaration × Context)

/-- All that a found declaration declares has been added. -/
@[simp] theorem Draft.length_nodes_extendFound :
    (draft.extendFound owners found inner).nodes.length =
      draft.nodes.length + 1 + (found.parameters.length + inner.1.size) := by
  simp only [extendFound, Node.ofParameters, List.length_append, List.length_cons, List.length_map]
  rw [← List.length_map Prod.fst, Forest.map_fst_subtrees, Forest.length_toList,
    Forest.size_number]
  omega

/-- What is read behind a found declaration is written out behind it. -/
theorem Draft.extend_extendFound
    (plain : ∀ parameter ∈ found.parameters,
      parameter.kind = .parameterDecl ∧ parameter.bracketError? = none)
    (others : ∀ symbol ∈ (inner.1.number
        ({ id := draft.nodes.length, declaration := found.declaration } :: owners)
        (draft.nodes.length + 1 + found.parameters.length)).tops, symbol.kind ≠ .parameterDecl) :
    (draft.extendFound owners found inner).extend owners beside =
      draft.extend owners
        (.cons found.declaration (inner.1.withLeaves found.parameters) beside.1, beside.2) := by
  have written := map_ofSubtree_cons found.declaration found.parameters inner.1 beside.1 owners
    draft.nodes.length (fun parameter listed => (plain parameter listed).1) others
  have noErrors : found.parameters.filterMap (·.bracketError?) = [] :=
    List.filterMap_eq_nil_iff.mpr fun parameter listed => (plain parameter listed).2
  unfold extend
  rw [length_nodes_extendFound, written, Forest.toList, Forest.toList_withLeaves,
    List.filterMap_cons, List.filterMap_append, List.filterMap_append, noErrors]
  unfold extendFound
  cases found.declaration.bracketError? <;> simp

end

section

variable (draft : Draft) {owners : List Entry} {begun : Begun} {found : Found} {node : Node}
  (stores : begun.Stores found (owners.head?.map (·.id)) draft.nodes.length node)
  (context : Context)

include stores in
/-- Without a body the node of a scope is finished when it has been stored. -/
theorem Draft.eq_extendFound_of_body_eq_none (noBody : begun.body = none) :
    { nodes := draft.nodes ++ node :: Node.ofParameters draft.nodes.length found.parameters
      context
      errors := draft.errors ++ found.declaration.bracketError?.toList } =
      draft.extendFound owners found (.nil, context) := by
  have finished := stores.finish_eq {} fun _ => rfl
  rw [Begun.finish, noBody] at finished
  dsimp only at finished
  rw [extendFound, finished]
  simp [Forest.number, Forest.subtrees, Forest.tops, Forest.roots, Forest.toList, Members.addAll]

include stores in
/-- When its body has been scanned, the node of a scope is finished where it stands. -/
theorem Draft.fill_close_eq_extendFound {body : List Token} (hbody : begun.body = some body)
    (inner : Forest Declaration × Context) :
    let entry : Entry := { id := draft.nodes.length, declaration := found.declaration }
    let next : Draft :=
      { nodes := draft.nodes ++ node :: Node.ofParameters draft.nodes.length found.parameters
        context
        errors := draft.errors ++ found.declaration.bracketError?.toList }
    ((next.extend (entry :: owners) inner).close begun.id body).fill begun.id begun.parameters
        (Members.addAll {} (inner.1.number (entry :: owners) next.nodes.length).tops) =
      draft.extendFound owners found inner := by
  intro entry next
  have finished := stores.finish_eq
    (Members.addAll {} (inner.1.number (entry :: owners) next.nodes.length).tops)
    fun bare => absurd (hbody.symm.trans bare) (Option.some_ne_none _)
  rw [Begun.finish, hbody] at finished
  dsimp only at finished
  have length : next.nodes.length = draft.nodes.length + 1 + found.parameters.length := by
    simp only [next, Node.ofParameters, List.length_append, List.length_cons, List.length_map]
    omega
  have written : (next.extend (entry :: owners) inner).nodes = draft.nodes ++ node ::
      (Node.ofParameters draft.nodes.length found.parameters ++
        (inner.1.number (entry :: owners) next.nodes.length).subtrees.map Node.ofSubtree) := by
    rw [extend, List.append_assoc, List.cons_append]
  rw [stores.id_eq, close, fill, written, modify_append_cons, modify_append_cons, finished, length]
  rfl

end

/-- A found declaration is listed before what is read behind it. -/
theorem Draft.listed_extendFound (draft : Draft) (region : Region) (owners : List Entry)
    (access : Access) (members : Members) {token : Token} {tokens : List Token} {found : Found}
    (h : (step region draft.context access token tokens).found = some found) :
    let next := step region draft.context access token tokens
    let inner := read found.region next.context {} found.body
    let beside := read region inner.2 next.access next.rest
    let whole := read region draft.context access (token :: tokens)
    let later := draft.extendFound owners found inner
    (members.add found.declaration.kind draft.nodes.length).addAll
          (beside.1.number owners later.nodes.length).tops =
        members.addAll (whole.1.number owners draft.nodes.length).tops ∧
      later.extend owners beside = draft.extend owners whole := by
  intro next inner beside whole later
  have split : whole =
      (.cons found.declaration (inner.1.withLeaves found.parameters) beside.1, beside.2) :=
    read_of_found_eq_some h
  rw [split]
  constructor
  · rw [length_nodes_extendFound, ← Forest.size_withLeaves]
    rfl
  · exact extend_extendFound _ _ _ _ _ (parameter_of_found h)
      (kind_ne_parameter_of_mem_tops _ _ _ _ _ _)

/-- **What scanning adds to a draft is what reading the same tokens gives.** -/
theorem Draft.scan_eq (draft : Draft) (region : Region) (owners : List Entry) (access : Access)
    (members : Members) (tokens : List Token) :
    draft.scan region (owners.head?.map (·.id)) access members tokens =
      (members.addAll
          ((read region draft.context access tokens).1.number owners draft.nodes.length).tops,
        draft.extend owners (read region draft.context access tokens)) := by
  -- Scanning knows only the number of the innermost open scope, numbering knows all open scopes.
  generalize howner : owners.head?.map (·.id) = owner
  fun_induction Draft.scan draft region owner access members tokens generalizing owners with
  | case1 draft region owner access members =>
    rw [Reader.read]
    exact Prod.ext rfl (by simp [extend, Forest.number, Forest.subtrees, Forest.toList])
  | case2 draft region owner access members token tokens next nothing ih =>
    -- Nothing begins here, so the members stay as they are.
    have followed := draft.turn_follows region owner access token tokens
    obtain ⟨none, same⟩ := followed.of_begun_eq_none nothing
    have same : next.draft = { draft with context := _ } := same
    rw [ih owners howner, read_of_found_eq_none none, ← followed.access_eq, ← followed.rest_eq,
      same]
    rfl
  | case3 draft region owner access members token tokens next begun begins listed noBody ih =>
    -- The node is complete as it is; reading takes the missing body as one without tokens.
    subst howner
    have followed := draft.turn_follows region (owners.head?.map (·.id)) access token tokens
    obtain ⟨found, node, hfound, stores, stored⟩ := followed.of_begun_eq_some begins
    obtain ⟨sameListed, sameLater⟩ := draft.listed_extendFound region owners access members hfound
    have bare : found.body = [] := by rw [← stores.body_eq, noBody, Option.getD_none]
    rw [bare, Reader.read] at sameListed sameLater
    have later : next.draft = draft.extendFound owners found (.nil, _) :=
      stored.trans (draft.eq_extendFound_of_body_eq_none stores _ noBody)
    have sameAccess : next.access = _ := followed.access_eq
    have sameRest : next.rest = _ := followed.rest_eq
    rw [ih owners rfl, later, sameAccess, sameRest, ← sameListed, ← sameLater, ← stores.kind_eq,
      ← stores.id_eq]
    rfl
  | case4 draft region owner access members token tokens next begun begins listed body hbody inner
      finished innerIh _ ih =>
    -- The body is scanned with the new node as the innermost scope, before what is behind it.
    subst howner
    have followed := draft.turn_follows region (owners.head?.map (·.id)) access token tokens
    obtain ⟨found, node, hfound, stores, stored⟩ := followed.of_begun_eq_some begins
    obtain ⟨sameListed, sameLater⟩ := draft.listed_extendFound region owners access members hfound
    have sameBody : body = found.body := by rw [← stores.body_eq, hbody, Option.getD_some]
    have later : finished = draft.extendFound owners found
        (Reader.read found.region (step region draft.context access token tokens).context {}
          found.body) := by
      have stored : next.draft = _ := stored
      have inside := innerIh
        ({ id := draft.nodes.length, declaration := found.declaration } :: owners)
        (congrArg some stores.id_eq.symm)
      unfold finished inner
      rw [inside, stored, stores.region_eq, sameBody]
      exact draft.fill_close_eq_extendFound stores _ (sameBody ▸ hbody) _
    have sameAccess : next.access = _ := followed.access_eq
    have sameRest : next.rest = _ := followed.rest_eq
    rw [ih owners rfl, later, sameAccess, sameRest, ← sameListed, ← sameLater, ← stores.kind_eq,
      ← stores.id_eq]
    rfl

/-- **The arena of any tokens is their outline, written out.** -/
theorem Arena.ofTokens_eq_stored (tokens : List Token) :
    Arena.ofTokens tokens = (Outline.ofTokens tokens).stored := by
  have scanned := Draft.scan_eq {} .outer [] {} {} tokens
  have started : Option.map Entry.id ([] : List Entry).head? = none := rfl
  rw [started] at scanned
  rw [Arena.ofTokens, scanned, Outline.stored, Outline.ofTokens, Outline.errors_number]
  rfl

/-! ## Nodes and lists -/

section

variable {forest : Forest Declaration}

/-- The number of a symbol leads to its node. -/
theorem getElem?_nodes_stored {node : Symbol × Outline}
    (listed : node ∈ (forest.number [] 0).subtrees) :
    (Outline.stored (forest.number [] 0)).nodes[node.1.id]? = some (Node.ofSubtree node) := by
  rw [Outline.stored, List.getElem?_map, ← Outline.get?, get?_id listed, Option.map_some]

/-- Every node is that of a symbol. -/
theorem exists_subtree_of_getElem? {id : Nat} {node : Node}
    (found : (Outline.stored (forest.number [] 0)).nodes[id]? = some node) :
    ∃ subtree ∈ (forest.number [] 0).subtrees,
      subtree.1.id = id ∧ node = Node.ofSubtree subtree := by
  rw [Outline.stored, List.getElem?_map, Option.map_eq_some_iff] at found
  obtain ⟨subtree, here, rfl⟩ := found
  exact ⟨subtree, List.mem_of_getElem? here, id_of_get? here, rfl⟩

/-- A kind that a holder does not hold is the kind of none of its members. -/
theorem filter_tops_eq_nil {holder : Option Symbol × Outline} {kind : Declaration.Kind}
    (allowed : ∀ symbol ∈ holder.2.tops, mayHold (holder.1.map (·.kind)) symbol.kind)
    (h : ¬ mayHold (holder.1.map (·.kind)) kind) :
    holder.2.tops.filter (·.kind = kind) = [] := by
  refine List.filter_eq_nil_iff.mpr fun symbol found same => h ?_
  rw [← of_decide_eq_true same]
  exact allowed symbol found

/-- Member lists that begin empty hold the symbols of each kind. -/
theorem listed_addAll_tops {holder : Option Symbol × Outline}
    (allowed : ∀ symbol ∈ holder.2.tops, mayHold (holder.1.map (·.kind)) symbol.kind)
    (noParameter : ¬ mayHold (holder.1.map (·.kind)) .parameterDecl) (kind : Declaration.Kind) :
    (Members.addAll {} holder.2.tops).listed kind =
      (holder.2.tops.filter (·.kind = kind)).map (·.id) := by
  by_cases isParameter : kind = .parameterDecl
  · rw [isParameter, filter_tops_eq_nil allowed noParameter]
    rfl
  · rw [Members.listed_addAll _ _ _ isParameter]
    cases kind <;> rfl

/-- The list of a holder for a kind holds its members of that kind. -/
theorem listed_stored (placed : forest.Placed none) {holder : Option Symbol × Outline}
    (listed : holder ∈ Outline.holders (forest.number [] 0)) (kind : Declaration.Kind) :
    (Outline.stored (forest.number [] 0)).listed (holder.1.map (·.id)) kind =
      (holder.2.tops.filter (·.kind = kind)).map (·.id) := by
  have allowed := mayHold_of_mem_holders placed listed
  rcases List.mem_cons.mp listed with rfl | inner
  · exact listed_addAll_tops allowed Bool.false_ne_true kind
  · obtain ⟨node, subtree, rfl⟩ := List.mem_map.mp inner
    rw [Option.map_some, Arena.listed, getElem?_nodes_stored subtree, Option.map_some,
      Option.getD_some]
    have noneOf (other : ¬ mayHold (some node.1.kind) kind) :
        [] = (node.2.tops.filter (·.kind = kind)).map (·.id) :=
      (congrArg (List.map _) (filter_tops_eq_nil allowed other)).symm
    -- One case for each kind of holder: only functions have a list of parameters.
    unfold Node.listed Node.ofSubtree Node.ofDeclaration
    cases hkind : node.1.declaration.kind with
    | namespaceDecl =>
      refine listed_addAll_tops allowed ?_ kind
      simp [Symbol.kind, hkind, mayHold]
    | classDecl =>
      refine listed_addAll_tops allowed ?_ kind
      simp [Symbol.kind, hkind, mayHold]
    | functionDecl =>
      cases kind with
      | parameterDecl => rfl
      | variableDecl => exact Members.listed_addAll {} node.2.tops .variableDecl (by decide)
      | _ => exact noneOf (by simp [Symbol.kind, hkind, mayHold])
    | parameterDecl => exact noneOf (by simp [Symbol.kind, hkind, mayHold])
    | variableDecl => exact noneOf (by simp [Symbol.kind, hkind, mayHold])

/-- The lists of a holder in an order of kinds hold its members in that order. -/
theorem members_stored (placed : forest.Placed none) {holder : Option Symbol × Outline}
    (listed : holder ∈ Outline.holders (forest.number [] 0)) (order : List Declaration.Kind) :
    (Outline.stored (forest.number [] 0)).members order (holder.1.map (·.id)) =
      (arrange order holder.2.roots).map (·.1.id) := by
  unfold Arena.members arrange
  rw [List.map_flatMap]
  refine List.flatMap_congr fun kind _ => ?_
  rw [listed_stored placed listed, Forest.tops, List.filter_map, List.map_map]
  rfl

end

end ScriptLens
