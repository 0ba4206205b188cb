import ScriptLens.Proofs.Query.Offered
import ScriptLens.Proofs.Symbol.Storage
import ScriptLens.Query.Walk

/-! # Walks through a stored outline
Following numbers through the arena of an outline answers every question as the outline does, and
uses up no more calls inside one another than there are symbols below the scope where the walk
starts, or than there are numbers up to that of the node.
Main statements:
* `path?_stored`, `enclosing?_stored`, `lookup?_stored`, `offered?_stored`: each walk ends, with the
  result that is read off the outline. -/

namespace ScriptLens

/-! ## Members with their nodes -/

/-- A partial function that has a value for every element of a list. -/
theorem mapM_map_eq_some {α β γ : Type} {f : β → Option γ} {g : α → γ} {k : α → β}
    {elements : List α} (h : ∀ element ∈ elements, f (k element) = some (g element)) :
    (elements.map k).mapM f = some (elements.map g) := by
  induction elements with
  | nil => rfl
  | cons element elements ih =>
    rw [List.forall_mem_cons] at h
    rw [List.map_cons, List.mapM_cons, h.1, ih h.2]
    rfl

/-- What lies below a root is smaller than the forest. -/
theorem Forest.size_lt_of_mem_roots {α : Type} {forest : Forest α} {node : α × Forest α}
    (root : node ∈ forest.roots) : node.2.size < forest.size := by
  induction forest with
  | nil => exact absurd root List.not_mem_nil
  | cons top below beside _ besideInduction =>
    rw [size]
    rcases List.mem_cons.mp root with rfl | later
    · dsimp only
      omega
    · have smaller := besideInduction later
      omega

/-- The scopes among the roots that are open on a line are known by their nodes. -/
theorem filter_scopes_eq_openRoots (outline : Outline) (line : Nat) :
    ((arrange scopeOrder outline.roots).filter fun node =>
      (Node.ofSubtree node).lines.contains line) = outline.openRoots line := by
  refine List.filter_congr fun node arranged => ?_
  have inOrder := (mem_arrange.mp arranged).2
  have isScope : node.1.kind.isScope := by
    revert inOrder
    cases node.1.kind <;> decide
  exact ((Bool.true_and _).symm.trans (congrArg (· && _) isScope.symm) :)

section

variable {forest : Forest Declaration} (placed : forest.Placed none)
  {holder : Option Symbol × Outline}

include placed in
/-- Every number in the lists of a holder leads to a node. -/
theorem nodesOf?_stored (listed : holder ∈ Outline.holders (forest.number [] 0))
    (order : List Declaration.Kind) :
    (Outline.stored (forest.number [] 0)).nodesOf? order (holder.1.map (·.id)) =
      some ((arrange order holder.2.roots).map fun node => (node.1.id, Node.ofSubtree node)) := by
  unfold Arena.nodesOf?
  rw [members_stored placed listed]
  refine mapM_map_eq_some fun node arranged => ?_
  have subtree := Outline.mem_subtrees_of_mem_roots listed (mem_arrange.mp arranged).1
  rw [getElem?_nodes_stored subtree, Option.map_some]

/-! ## Walks to the inside -/

include placed in
/-- The scopes around a line are found. -/
theorem enclosing?_stored (listed : holder ∈ Outline.holders (forest.number [] 0)) (line : Nat)
    {bound : Nat} (enough : holder.2.size < bound) :
    (Outline.stored (forest.number [] 0)).enclosing? line bound (holder.1.map (·.id)) =
      some ((holder.2.enclosing line).map (·.id)) := by
  -- A call inside another one is for a smaller outline, so one call less is still enough for it.
  induction bound generalizing holder with
  | zero => exact absurd enough (Nat.not_lt_zero _)
  | succ bound ih =>
    rw [Arena.enclosing?, nodesOf?_stored placed listed, Outline.enclosing_eq,
      ← filter_scopes_eq_openRoots, List.head?_filter]
    simp only [Option.bind_eq_bind, Option.bind_some, List.find?_map, Function.comp_def]
    cases first : (arrange scopeOrder holder.2.roots).find? fun node =>
      (Node.ofSubtree node).lines.contains line with
    | none => rfl
    | some node =>
      have root := (mem_arrange.mp (List.mem_of_find?_eq_some first)).1
      have inner := Outline.mem_holders_of_mem_roots listed root
      have smaller := Forest.size_lt_of_mem_roots root
      have inside := ih inner (Nat.lt_of_lt_of_le smaller (Nat.le_of_lt_succ enough))
      rw [Option.map_some] at inside
      simp only [Option.map_some, inside, Option.bind_some, Option.elim_some, List.map_append,
        List.map_cons, List.map_nil]

include placed in
/-- The symbol that a name stands for is found. -/
theorem lookup?_stored (listed : holder ∈ Outline.holders (forest.number [] 0)) (name : String)
    (line : Nat) {bound : Nat} (enough : holder.2.size < bound) :
    (Outline.stored (forest.number [] 0)).lookup? name line bound (holder.1.map (·.id)) =
      some ((holder.2.lookup? name line).map (·.id)) := by
  induction bound generalizing holder with
  | zero => exact absurd enough (Nat.not_lt_zero _)
  | succ bound ih =>
    have inside : ∀ node ∈ holder.2.openRoots line,
        (Outline.stored (forest.number [] 0)).lookup? name line bound (some node.1.id) =
          some ((Outline.lookup? node.2 name line).map (·.id)) := by
      intro node isOpen
      have root := (Outline.mem_openRoots.mp isOpen).1
      have smaller := Forest.size_lt_of_mem_roots root
      exact ih (Outline.mem_holders_of_mem_roots listed root)
        (Nat.lt_of_lt_of_le smaller (Nat.le_of_lt_succ enough))
    rw [Arena.lookup?, nodesOf?_stored placed listed, nodesOf?_stored placed listed,
      Outline.lookup?_eq]
    simp only [Option.bind_eq_bind, Option.bind_some, List.filter_map, Function.comp_def,
      filter_scopes_eq_openRoots]
    rw [mapM_map_eq_some (k := fun node => (node.1.id, Node.ofSubtree node)) inside,
      Option.bind_some, List.findSome?_map, Function.id_comp, Option.map_or, List.map_findSome?,
      Outline.arranged, List.find?_map, List.find?_map, Option.map_map, Option.map_map,
      Option.orElse_eq_orElse, Option.orElse_eq_or]
    rfl

include placed in
/-- What is offered is found. -/
theorem offered?_stored (listed : holder ∈ Outline.holders (forest.number [] 0)) (part : String)
    (line : Nat) {bound : Nat} (enough : holder.2.size < bound) :
    (Outline.stored (forest.number [] 0)).offered? part line bound (holder.1.map (·.id)) =
      some ((holder.2.offered part line).map (·.id)) := by
  induction bound generalizing holder with
  | zero => exact absurd enough (Nat.not_lt_zero _)
  | succ bound ih =>
    have scopes (node : Symbol × Outline) :
        ((Node.ofSubtree node).isScope && (Node.ofSubtree node).lines.contains line) =
          node.1.isOpenOn line := by
      unfold Symbol.isOpenOn Declaration.isScope Node.isScope Node.ofSubtree Node.ofDeclaration
      cases node.1.declaration.kind <;> rfl
    rw [Arena.offered?, nodesOf?_stored placed listed, Outline.offered_eq]
    simp only [Option.bind_eq_bind, Option.bind_some]
    rw [mapM_map_eq_some (g := fun node => List.map (·.id)
      ((if node.1.isOpenOn line then Outline.offered node.2 part line else []) ++
        (if Text.occurs part.toList node.1.name.toList then [node.1] else [])))]
    · rw [Option.bind_some, List.map_flatMap, List.flatMap_def]
    · intro node arranged
      have root := (mem_arrange.mp arranged).1
      have smaller := Forest.size_lt_of_mem_roots root
      have inside := ih (Outline.mem_holders_of_mem_roots listed root)
        (Nat.lt_of_lt_of_le smaller (Nat.le_of_lt_succ enough))
      rw [Option.map_some] at inside
      have name : (Node.ofSubtree node).name = node.1.name := rfl
      dsimp only
      rw [scopes, inside, name]
      by_cases isOpen : node.1.isOpenOn line <;>
        by_cases occurs : Text.occurs part.toList node.1.name.toList <;> simp [isOpen, occurs]

/-! ## Walks to the outside -/

/-- The path of a symbol goes on from that of its owner, if that one is a type. -/
theorem Symbol.path_of_owns {owner symbol : Symbol} (owned : owner.Owns symbol) :
    symbol.path =
      if owner.declaration.isType then owner.path ++ "." ++ symbol.name else symbol.name := by
  unfold path pathNames
  rw [owns_iff.mp owned, List.takeWhile_cons]
  split
  · dsimp only
    rw [List.map_cons, List.reverse_cons,
      String.intercalate_append_of_ne_nil (by simp) (List.cons_ne_nil _ _),
      String.intercalate_singleton]
    rfl
  · exact String.intercalate_singleton

/-- The path of a symbol without an owner is its name. -/
theorem Symbol.path_of_owner?_eq_none {symbol : Symbol} (h : symbol.owner? = none) :
    symbol.path = symbol.name := by
  unfold path pathNames
  rw [owner?_eq_none_iff.mp h]
  exact String.intercalate_singleton

/-- The path of a symbol is found. -/
theorem path?_stored {symbol : Symbol} (found : symbol ∈ Outline.symbols (forest.number [] 0))
    {bound : Nat} (enough : symbol.id < bound) :
    (Outline.stored (forest.number [] 0)).path? bound symbol.id = some symbol.path := by
  -- Here the numbers get smaller from call to call, since owners come before what they own.
  induction bound generalizing symbol with
  | zero => exact absurd enough (Nat.not_lt_zero _)
  | succ bound ih =>
    obtain ⟨below, listed⟩ := Forest.exists_mem_subtrees found
    have parent : (Node.ofSubtree (symbol, below)).parent = symbol.owner?.map (·.id) := rfl
    have name : (Node.ofSubtree (symbol, below)).name = symbol.name := rfl
    rw [Arena.path?, getElem?_nodes_stored listed]
    simp only [Option.bind_eq_bind, Option.bind_some, parent, name]
    cases howner : symbol.owner? with
    | none => exact congrArg some (Symbol.path_of_owner?_eq_none howner).symm
    | some owner =>
      have owned : owner.Owns symbol := howner
      obtain ⟨ownerFound, smaller⟩ := owned.mem_and_id_lt found
      obtain ⟨around, ownerListed⟩ := Forest.exists_mem_subtrees ownerFound
      have isType : (Node.ofSubtree (owner, around)).isType = owner.declaration.isType := by
        unfold Declaration.isType Node.isType Node.ofSubtree Node.ofDeclaration
        cases owner.declaration.kind <;> rfl
      have path := ih ownerFound (Nat.lt_of_lt_of_le smaller (Nat.le_of_lt_succ enough))
      simp only [Option.map_some]
      rw [getElem?_nodes_stored ownerListed, Symbol.path_of_owns owned]
      simp only [Option.bind_some, isType, path]
      split <;> rfl

end

end ScriptLens
