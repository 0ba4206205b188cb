import Mathlib.Data.List.Permutation
import ScriptLens.Proofs.Symbol.Holders
import ScriptLens.Query.Candidate
import ScriptLens.Token.Source

/-! # Two walks through scopes
A name is looked up in every scope that is open on its line, while a variable before a dot is looked
for along one way down only: of several scopes side by side that are open on the line the first one
is entered, and the others are never seen.
Main definitions:
* `Outline.openRoots`: the scopes at the top that are open on a line.
* `Outline.OpensOne`: no two scopes side by side are open on a line.
Main statements:
* `lookup?_eq`, `visibleVariable?_eq`, `enclosing_eq`: one step of each walk.
* `visibleVariable?_iff`: both walks find a variable exactly if the second one enters its scope.
* `visibleVariable?_of_target`: the same for what a token stands for. -/

namespace ScriptLens

/-! ## Orders -/

/-- Further values of members may be changed before or after arranging them. -/
@[simp] theorem arrange_map {β γ : Type} (order : List Declaration.Kind)
    (members : List (Symbol × β)) (f : β → γ) :
    arrange order (members.map fun (symbol, value) => (symbol, f value)) =
      (arrange order members).map fun (symbol, value) => (symbol, f value) := by
  unfold arrange
  rw [List.map_flatMap]
  refine List.flatMap_congr fun kind _ => ?_
  rw [List.filter_map]
  rfl

/-- Members in the order of two lists of kinds. -/
@[simp] theorem arrange_append {β : Type} (order later : List Declaration.Kind)
    (members : List (Symbol × β)) :
    arrange (order ++ later) members = arrange order members ++ arrange later members :=
  List.flatMap_append

namespace Outline

/-- A symbol that is arranged is at the top. -/
theorem mem_tops_of_mem_arranged {outline : Outline} {order : List Declaration.Kind}
    {symbol : Symbol} (h : symbol ∈ outline.arranged order) :
    symbol ∈ outline.tops ∧ symbol.kind ∈ order := by
  obtain ⟨member, listed, rfl⟩ := List.mem_map.mp h
  obtain ⟨root, kind⟩ := mem_arrange.mp listed
  exact ⟨List.mem_map_of_mem root, kind⟩

/-- Variables come first when a name is looked up. -/
theorem arranged_lookupOrder (outline : Outline) :
    outline.arranged lookupOrder = outline.arranged variableOrder ++
      outline.arranged [.functionDecl, .classDecl, .namespaceDecl] := by
  unfold arranged
  rw [← List.map_append, ← arrange_append]
  rfl

/-! ## Steps -/

/-- The scopes at the top that are open on a line, in the order in which they are searched. -/
def openRoots (outline : Outline) (line : Nat) : List (Symbol × Outline) :=
  (arrange scopeOrder outline.roots).filter (·.1.isOpenOn line)

/-- An open scope at the top is a root. -/
theorem mem_roots_of_mem_openRoots {outline : Outline} {line : Nat} {node : Symbol × Outline}
    (h : node ∈ outline.openRoots line) : node ∈ outline.roots ∧ node.1.isOpenOn line := by
  obtain ⟨arranged, isOpen⟩ := List.mem_filter.mp h
  exact ⟨(mem_arrange.mp arranged).1, isOpen⟩

/-- The open scopes at the top are the roots that are open. -/
@[simp, grind =] theorem mem_openRoots {outline : Outline} {line : Nat} {node : Symbol × Outline} :
    node ∈ outline.openRoots line ↔ node ∈ outline.roots ∧ node.1.isOpenOn line := by
  refine ⟨mem_roots_of_mem_openRoots, ?_⟩
  rintro ⟨root, isOpen⟩
  have isScope : node.1.kind.isScope := (Bool.and_eq_true _ _ ▸ isOpen : _ ∧ _).1
  have inOrder : node.1.kind ∈ scopeOrder := by
    cases kind : node.1.kind <;> simp [scopeOrder, kind, Declaration.Kind.isScope] at isScope ⊢
  exact List.mem_filter.mpr ⟨mem_arrange.mpr ⟨root, inOrder⟩, isOpen⟩

/-- A name is looked up in all open scopes before the members at the top. -/
theorem lookup?_eq (outline : Outline) (name : String) (line : Nat) :
    outline.lookup? name line =
      ((outline.openRoots line).findSome? fun node => lookup? node.2 name line).or
        ((outline.arranged lookupOrder).find? (·.name = name)) := by
  unfold lookup? openRoots arranged
  rw [Forest.fold_eq, Option.orElse_eq_orElse, Option.orElse_eq_or]
  simp only [arrange_map, List.filter_map, List.findSome?_map, List.map_map]
  rfl

/-- A variable is looked for in the first open scope before the members at the top. -/
theorem visibleVariable?_eq (outline : Outline) (name : String) (line : Nat) :
    outline.visibleVariable? name line =
      ((outline.openRoots line).head?.bind fun node => visibleVariable? node.2 name line).or
        ((outline.arranged variableOrder).find? (·.name = name)) := by
  unfold visibleVariable? openRoots arranged
  rw [Forest.fold_eq, Option.orElse_eq_orElse, Option.orElse_eq_or, List.head?_filter]
  simp only [arrange_map, List.find?_map, List.map_map]
  rw [Option.bind_map]
  rfl

/-- The scopes around a line are found in the first open scope. -/
theorem enclosing_eq (outline : Outline) (line : Nat) :
    outline.enclosing line =
      ((outline.openRoots line).head?.elim [] fun node => enclosing node.2 line ++ [node.1]) := by
  have first : (outline.openRoots line).head? =
      (arrange scopeOrder outline.roots).find? (·.1.isOpenOn line) := List.head?_filter
  rw [first]
  unfold enclosing
  rw [Forest.fold_eq, arrange_map, List.find?_map, Function.comp_def]
  dsimp only
  cases (arrange scopeOrder outline.roots).find? (·.1.isOpenOn line) <;> rfl

/-- A name is found in an open scope at the top, or in none of them and then among the members at the
top. -/
theorem lookup?_cases {outline : Outline} {name : String} {line : Nat} {symbol : Symbol}
    (h : outline.lookup? name line = some symbol) :
    (∃ node ∈ outline.openRoots line, lookup? node.2 name line = some symbol) ∨
      (∀ node ∈ outline.openRoots line, lookup? node.2 name line = none) ∧
        (outline.arranged lookupOrder).find? (·.name = name) = some symbol := by
  rw [lookup?_eq, Option.or_eq_some_iff] at h
  rcases h with inner | ⟨clear, direct⟩
  · exact Or.inl (List.exists_of_findSome?_eq_some inner)
  · exact Or.inr ⟨List.findSome?_eq_none_iff.mp clear, direct⟩

/-! ## Comparison -/

/-- A variable that is found is a symbol of the outline. -/
theorem mem_symbols_of_visibleVariable? {outline : Outline} {name : String} {line : Nat}
    {symbol : Symbol} (h : outline.visibleVariable? name line = some symbol) :
    symbol ∈ outline.symbols := by
  induction outline using Forest.induction_below with
  | step outline ih =>
    rw [visibleVariable?_eq, Option.or_eq_some_iff] at h
    rcases h with inner | ⟨-, direct⟩
    · obtain ⟨node, isFirst, found⟩ := Option.bind_eq_some_iff.mp inner
      have root := (mem_roots_of_mem_openRoots (List.mem_of_mem_head? isFirst)).1
      have subtree := Forest.roots_subset_subtrees _ root
      exact Forest.toList_below_subset subtree (ih node subtree found)
    · obtain ⟨top, -⟩ := mem_tops_of_mem_arranged (List.mem_of_find?_eq_some direct)
      obtain ⟨node, root, rfl⟩ := List.mem_map.mp top
      exact Forest.mem_toList_of_mem_subtrees (Forest.roots_subset_subtrees _ root)

/-- Where a name stands for nothing, it stands for no variable. -/
theorem visibleVariable?_eq_none {outline : Outline} {name : String} {line : Nat}
    (h : outline.lookup? name line = none) : outline.visibleVariable? name line = none := by
  induction outline using Forest.induction_below with
  | step outline ih =>
    rw [lookup?_eq, Option.or_eq_none_iff] at h
    obtain ⟨inner, direct⟩ := h
    rw [arranged_lookupOrder, List.find?_append, Option.or_eq_none_iff] at direct
    rw [visibleVariable?_eq, Option.or_eq_none_iff]
    refine ⟨?_, direct.1⟩
    refine Option.bind_eq_none_iff.mpr fun node isFirst => ?_
    have listed := List.mem_of_mem_head? isFirst
    have root := (mem_roots_of_mem_openRoots listed).1
    exact ih node (Forest.roots_subset_subtrees _ root) (List.findSome?_eq_none_iff.mp inner node listed)

/-- A variable at the top that a name stands for is also found as a variable. -/
theorem visibleVariable?_of_direct {outline : Outline} {name : String} {line : Nat}
    {symbol : Symbol} (clear : ∀ node ∈ outline.openRoots line, lookup? node.2 name line = none)
    (direct : (outline.arranged lookupOrder).find? (·.name = name) = some symbol)
    (isVariable : symbol.kind ∈ variableOrder) :
    outline.visibleVariable? name line = some symbol := by
  have entered : ((outline.openRoots line).head?.bind fun node =>
      visibleVariable? node.2 name line) = none :=
    Option.bind_eq_none_iff.mpr fun node isFirst =>
      visibleVariable?_eq_none (clear node (List.mem_of_mem_head? isFirst))
  rw [visibleVariable?_eq, entered, Option.none_or]
  rw [arranged_lookupOrder, List.find?_append, Option.or_eq_some_iff] at direct
  rcases direct with here | ⟨-, later⟩
  · exact here
  · have other := (mem_tops_of_mem_arranged (List.mem_of_find?_eq_some later)).2
    simp only [variableOrder, List.mem_cons, List.not_mem_nil, or_false] at isVariable other
    rcases isVariable with kind | kind <;> simp [kind] at other

/-- No two scopes with the same owner are open on a line. -/
def OpensOne (outline : Outline) (line : Nat) : Prop :=
  ∀ scope ∈ outline.symbols, ∀ other ∈ outline.symbols, scope.owner? = other.owner? →
    scope.isOpenOn line → other.isOpenOn line → scope = other

end Outline

section

variable {forest : Forest Declaration} {owners : List Entry} {first line : Nat} {name : String}
  {symbol : Symbol}

/-- Only one root owns a symbol. -/
theorem root_eq_of_owners_suffix {left right : Symbol × Outline}
    (hleft : left ∈ (forest.number owners first).roots)
    (hright : right ∈ (forest.number owners first).roots)
    (owned : left.1.toEntry :: left.1.owners <:+ symbol.owners)
    (ownedToo : right.1.toEntry :: right.1.owners <:+ symbol.owners) : left = right := by
  have around : left.1.owners = owners := Forest.owners_of_mem_tops (List.mem_map_of_mem hleft)
  have aroundToo : right.1.owners = owners :=
    Forest.owners_of_mem_tops (List.mem_map_of_mem hright)
  -- Both lists of owners are the last ones of the symbol, and equally many.
  have same : left.1.toEntry :: left.1.owners = right.1.toEntry :: right.1.owners := by
    refine (List.suffix_of_suffix_length_le owned ownedToo ?_).eq_of_length ?_ <;>
      simp [around, aroundToo]
  have symbols : left.1 = right.1 := by
    obtain ⟨entry, outer⟩ := List.cons.inj same
    rcases hl : left.1 with ⟨leftEntry, leftOwners⟩
    rcases hr : right.1 with ⟨rightEntry, rightOwners⟩
    simp only [hl, hr] at entry outer
    rw [entry, outer]
  exact Forest.eq_of_fst_eq (Forest.roots_subset_subtrees _ hleft)
    (Forest.roots_subset_subtrees _ hright) symbols

/-- A symbol that a root owns is not at the top. -/
theorem notMem_tops_of_owners_suffix {node : Symbol × Outline}
    (root : node ∈ (forest.number owners first).roots)
    (owned : node.1.toEntry :: node.1.owners <:+ symbol.owners) :
    symbol ∉ (forest.number owners first).tops := by
  intro top
  have shorter := owned.length_le
  rw [Forest.owners_of_mem_tops top, List.length_cons,
    Forest.owners_of_mem_tops (List.mem_map_of_mem root)] at shorter
  omega

/-- A scope entered at the top is a root. -/
theorem mem_roots_of_head? {outline : Outline} {node : Symbol × Outline}
    (isFirst : (outline.openRoots line).head? = some node) : node ∈ outline.roots :=
  (Outline.mem_roots_of_mem_openRoots (List.mem_of_mem_head? isFirst)).1

/-- A symbol below a root is found as a variable exactly if that root is entered and the symbol is
found as a variable there. -/
theorem visibleVariable?_iff_entered {node : Symbol × Outline}
    (root : node ∈ (forest.number owners first).roots) (lies : symbol ∈ node.2.toList) :
    Outline.visibleVariable? (forest.number owners first) name line = some symbol ↔
      (Outline.openRoots (forest.number owners first) line).head? = some node ∧
        Outline.visibleVariable? node.2 name line = some symbol := by
  have owned := Forest.owners_suffix_of_mem_below (Forest.roots_subset_subtrees _ root) lies
  rw [Outline.visibleVariable?_eq, Option.or_eq_some_iff]
  constructor
  · rintro (within | ⟨-, direct⟩)
    · obtain ⟨entered, isFirst, visible⟩ := Option.bind_eq_some_iff.mp within
      have enteredRoot := mem_roots_of_head? isFirst
      have ownedToo := Forest.owners_suffix_of_mem_below
        (Forest.roots_subset_subtrees _ enteredRoot)
        (Outline.mem_symbols_of_visibleVariable? visible)
      obtain rfl := root_eq_of_owners_suffix enteredRoot root ownedToo owned
      exact ⟨isFirst, visible⟩
    · exact absurd (Outline.mem_tops_of_mem_arranged (List.mem_of_find?_eq_some direct)).1
        (notMem_tops_of_owners_suffix root owned)
  · rintro ⟨isFirst, visible⟩
    exact Or.inl (Option.bind_eq_some_iff.mpr ⟨node, isFirst, visible⟩)

/-- The owner of a symbol below a root is among the scopes around a line exactly if that root is
entered and is the owner, or the owner is among the scopes around the line there. -/
theorem exists_owner_iff_entered {node : Symbol × Outline}
    (root : node ∈ (forest.number owners first).roots) (lies : symbol ∈ node.2.toList) :
    (∃ owner ∈ Outline.enclosing (forest.number owners first) line, owner.Owns symbol) ↔
      (Outline.openRoots (forest.number owners first) line).head? = some node ∧
        (symbol ∈ node.2.tops ∨ ∃ owner ∈ Outline.enclosing node.2 line, owner.Owns symbol) := by
  have subtree := Forest.roots_subset_subtrees _ root
  have owned := Forest.owners_suffix_of_mem_below subtree lies
  rw [Outline.enclosing_eq]
  constructor
  · rintro ⟨owner, around, owns⟩
    cases isFirst : (Outline.openRoots (forest.number owners first) line).head? with
    | none =>
      rw [isFirst] at around
      exact absurd around List.not_mem_nil
    | some entered =>
      rw [isFirst] at around
      have enteredRoot := mem_roots_of_head? isFirst
      have enteredSubtree := Forest.roots_subset_subtrees _ enteredRoot
      rcases List.mem_append.mp around with inner | itself
      · -- The owner lies in the entered scope, and so the symbol does.
        have ownerLies : owner ∈ entered.2.toList := by
          obtain ⟨below, -, numbered⟩ := Forest.mem_subtrees_number enteredSubtree
          rw [numbered] at inner ⊢
          exact (enclosing_descends below _ _ line).1 inner
        have ownedToo : entered.1.toEntry :: entered.1.owners <:+ symbol.owners := by
          rw [Symbol.owns_iff.mp owns]
          exact (Forest.owners_suffix_of_mem_below enteredSubtree ownerLies).trans
            (List.suffix_cons _ _)
        obtain rfl := root_eq_of_owners_suffix enteredRoot root ownedToo owned
        exact ⟨rfl, Or.inr ⟨owner, inner, owns⟩⟩
      · obtain rfl := List.mem_singleton.mp itself
        obtain rfl := root_eq_of_owners_suffix enteredRoot root
          (Symbol.owns_iff.mp owns ▸ List.suffix_refl _) owned
        obtain ⟨below, -, numbered⟩ := Forest.mem_subtrees_number subtree
        rw [numbered] at lies ⊢
        exact ⟨rfl, Or.inl (Forest.mem_tops_of_owners_eq lies (Symbol.owns_iff.mp owns))⟩
  · rintro ⟨isFirst, top | ⟨owner, around, owns⟩⟩ <;> rw [isFirst]
    · obtain ⟨below, -, numbered⟩ := Forest.mem_subtrees_number subtree
      rw [numbered] at top
      exact ⟨node.1, List.mem_append_right _ List.mem_cons_self,
        Symbol.owns_iff.mpr (Forest.owners_of_mem_tops top)⟩
    · exact ⟨owner, List.mem_append_left _ around, owns⟩

/-- **The two walks**: a variable that a name stands for is also found as a variable exactly if it is
at the top or lies directly in one of the scopes around the line. -/
theorem visibleVariable?_iff
    (found : Outline.lookup? (forest.number owners first) name line = some symbol)
    (isVariable : symbol.kind ∈ variableOrder) :
    Outline.visibleVariable? (forest.number owners first) name line = some symbol ↔
      symbol ∈ (forest.number owners first).tops ∨
        ∃ owner ∈ Outline.enclosing (forest.number owners first) line, owner.Owns symbol := by
  induction forest using Forest.induction_below generalizing owners first with
  | step forest ih =>
    rcases Outline.lookup?_cases found with ⟨node, listed, inner⟩ | ⟨clear, direct⟩
    · have root := (Outline.mem_roots_of_mem_openRoots listed).1
      have subtree := Forest.roots_subset_subtrees _ root
      have lies := mem_symbols_of_lookup? inner
      have deep := notMem_tops_of_owners_suffix root
        (Forest.owners_suffix_of_mem_below subtree lies)
      obtain ⟨below, original, numbered⟩ := Forest.mem_subtrees_number subtree
      rw [numbered] at inner
      have same := ih _ original inner
      rw [← numbered] at same
      rw [visibleVariable?_iff_entered root lies, exists_owner_iff_entered root lies, same,
        or_iff_right deep]
    · exact iff_of_true (Outline.visibleVariable?_of_direct clear direct isVariable)
        (Or.inl (Outline.mem_tops_of_mem_arranged (List.mem_of_find?_eq_some direct)).1)

/-- Where no two scopes with the same owner are open, the same holds below each symbol. -/
theorem Outline.OpensOne.below {outline : Outline} {node : Symbol × Outline}
    (opensOne : outline.OpensOne line) (subtree : node ∈ outline.subtrees) :
    node.2.OpensOne line :=
  have inside := Forest.toList_below_subset subtree
  fun scope listed other otherListed => opensOne scope (inside listed) other (inside otherListed)

/-- Where no two scopes with the same owner are open, the one that is open at the top is entered. -/
theorem head?_openRoots {node : Symbol × Outline}
    (opensOne : Outline.OpensOne (forest.number owners first) line)
    (listed : node ∈ Outline.openRoots (forest.number owners first) line) :
    (Outline.openRoots (forest.number owners first) line).head? = some node := by
  obtain ⟨entered, isFirst⟩ : ∃ entered, (Outline.openRoots _ line).head? = some entered :=
    ⟨_, List.head?_eq_some_head (List.ne_nil_of_mem listed)⟩
  obtain ⟨root, isOpen⟩ := Outline.mem_roots_of_mem_openRoots listed
  obtain ⟨enteredRoot, enteredOpen⟩ :=
    Outline.mem_roots_of_mem_openRoots (List.mem_of_mem_head? isFirst)
  have subtree := Forest.roots_subset_subtrees _ root
  have enteredSubtree := Forest.roots_subset_subtrees _ enteredRoot
  -- The scope that is entered has the same owner as the one that is open.
  have owner : entered.1.owner? = node.1.owner? := by
    unfold Symbol.owner?
    rw [Forest.owners_of_mem_tops (List.mem_map_of_mem enteredRoot),
      Forest.owners_of_mem_tops (List.mem_map_of_mem root)]
  have same := opensOne _ (Forest.mem_toList_of_mem_subtrees enteredSubtree) _
    (Forest.mem_toList_of_mem_subtrees subtree) owner enteredOpen isOpen
  rw [isFirst, Forest.eq_of_fst_eq enteredSubtree subtree same]

/-- Where no two scopes side by side are open on the line, both walks find the same variable. -/
theorem visibleVariable?_of_opensOne
    (opensOne : Outline.OpensOne (forest.number owners first) line)
    (found : Outline.lookup? (forest.number owners first) name line = some symbol)
    (isVariable : symbol.kind ∈ variableOrder) :
    Outline.visibleVariable? (forest.number owners first) name line = some symbol := by
  induction forest using Forest.induction_below generalizing owners first with
  | step forest ih =>
    rcases Outline.lookup?_cases found with ⟨node, listed, inner⟩ | ⟨clear, direct⟩
    · have root := (Outline.mem_roots_of_mem_openRoots listed).1
      have subtree := Forest.roots_subset_subtrees _ root
      have lies := mem_symbols_of_lookup? inner
      have opensOneBelow := opensOne.below subtree
      obtain ⟨below, original, numbered⟩ := Forest.mem_subtrees_number subtree
      refine (visibleVariable?_iff_entered root lies).mpr ⟨head?_openRoots opensOne listed, ?_⟩
      rw [numbered] at inner opensOneBelow ⊢
      exact ih _ original opensOneBelow inner
    · exact Outline.visibleVariable?_of_direct clear direct isVariable

end

/-! ## What a token stands for -/

/-- The token right before a cursor is the first one before it. -/
theorem Cursor.previous_of_before {cursor : Cursor} {token : Token} {earlier : List Token}
    (h : cursor.before = token :: earlier) : cursor.previous = token := by
  unfold before at h
  split at h
  · next within =>
    have last : (cursor.tokens.take cursor.position).getLast? = some token := by
      rw [← List.head?_reverse, h, List.head?_cons]
    rw [List.getLast?_take] at last
    split at last
    · cases last
    · next positive =>
      have present : cursor.position - 1 < cursor.tokens.length := by omega
      rw [List.getElem?_eq_getElem present, Option.some_or, ← List.getElem?_eq_getElem present] at last
      unfold previous get
      rw [if_neg positive, last, Option.getD_some]
  · cases h

/-- A token that is no dot, without a dot before it, is not the end of a chain. -/
theorem Chain.at?_eq_none {cursor : Cursor} (notDot : cursor.current.kind ≠ .dot)
    (undotted : cursor.previous.kind ≠ .dot) : Chain.at? cursor = none := by
  unfold at?
  rw [if_neg notDot]
  split
  · rfl
  · next token earlier before =>
    rw [Cursor.previous_of_before before] at undotted
    exact if_neg undotted

/-- What a token that is no dot, without a dot before it, stands for has been looked up. -/
theorem Outline.lookup?_of_undotted_target {outline : Outline} {cursor : Cursor} {symbol : Symbol}
    (notDot : cursor.current.kind ≠ .dot) (undotted : cursor.previous.kind ≠ .dot)
    (h : outline.target cursor = .ofSymbol symbol) :
    outline.lookup? cursor.current.lexeme cursor.current.line = some symbol := by
  have noChain : outline.chainTarget? cursor = none := by
    unfold chainTarget?
    rw [Chain.at?_eq_none notDot undotted, Option.bind_none]
  unfold target at h
  simp only [noChain, Option.orElse_eq_orElse, Option.orElse_eq_or, Option.none_or] at h
  split at h
  · cases h
  · split at h
    · next found lookedUp =>
      cases h
      exact lookedUp
    · cases h

/-- What a name without a dot before it stands for has been looked up. -/
theorem Outline.lookup?_of_target {outline : Outline} {cursor : Cursor} {symbol : Symbol}
    (isText : cursor.current.kind = .text) (undotted : cursor.previous.kind ≠ .dot)
    (h : outline.target cursor = .ofSymbol symbol) :
    outline.lookup? cursor.current.lexeme cursor.current.line = some symbol :=
  lookup?_of_undotted_target (by simp [isText]) undotted h

/-- **What a name stands for and what is taken as the receiver of a dot.** A variable that a name
without a dot before it stands for is the variable that is visible under that name exactly if its
owner is among the scopes around the line; and it always is where no two scopes side by side are open
on the line. -/
theorem visibleVariable?_of_target {cursor : Cursor} {symbol : Symbol}
    (isText : cursor.current.kind = .text) (undotted : cursor.previous.kind ≠ .dot)
    (h : (Outline.ofTokens cursor.tokens).target cursor = .ofSymbol symbol)
    (isVariable : symbol.kind ∈ variableOrder) :
    let outline := Outline.ofTokens cursor.tokens
    let name := cursor.current.lexeme
    let line := cursor.current.line
    (outline.visibleVariable? name line = some symbol ↔
        ∀ owner, symbol.owner? = some owner → owner ∈ outline.enclosing line) ∧
      (outline.OpensOne line → outline.visibleVariable? name line = some symbol) := by
  intro outline name line
  have found : outline.lookup? name line = some symbol := Outline.lookup?_of_target isText undotted h
  refine ⟨(visibleVariable?_iff found isVariable).trans ?_, fun opensOne =>
    visibleVariable?_of_opensOne opensOne found isVariable⟩
  constructor
  · rintro (top | ⟨owner, around, owns⟩) other owned
    · rw [Symbol.owner?_eq_none_iff.mpr (Forest.owners_of_mem_tops top)] at owned
      cases owned
    · rwa [Option.some.inj (owned.symm.trans owns)]
  · intro entered
    cases owned : symbol.owner? with
    | none =>
      exact Or.inl (Forest.mem_tops_of_owners_eq (mem_symbols_of_lookup? found)
        (Symbol.owner?_eq_none_iff.mp owned))
    | some owner => exact Or.inr ⟨owner, entered owner owned, owned⟩

/-- Two functions, the second of which uses its parameter before a dot, with some characters between
them. -/
def neighbours (gap : String) : String :=
  "function f(a) \x7b\x7d" ++ gap ++ "function g(b) \x7b b.x; \x7d"

/-- The tokens of the two functions, where the second one starts at a given place. -/
def neighbourTokens (line column : Nat) : List Token :=
  [⟨.keyword, "function", 1, 0⟩, ⟨.text, "f", 1, 9⟩, ⟨.parenthesisOpen, "(", 1, 10⟩,
    ⟨.text, "a", 1, 11⟩, ⟨.parenthesisClose, ")", 1, 12⟩, ⟨.braceOpen, "\x7b", 1, 14⟩,
    ⟨.braceClose, "\x7d", 1, 15⟩, ⟨.keyword, "function", line, column⟩,
    ⟨.text, "g", line, column + 9⟩, ⟨.parenthesisOpen, "(", line, column + 10⟩,
    ⟨.text, "b", line, column + 11⟩, ⟨.parenthesisClose, ")", line, column + 12⟩,
    ⟨.braceOpen, "\x7b", line, column + 14⟩, ⟨.text, "b", line, column + 16⟩,
    ⟨.dot, ".", line, column + 17⟩, ⟨.text, "x", line, column + 18⟩,
    ⟨.semicolon, ";", line, column + 19⟩, ⟨.braceClose, "\x7d", line, column + 21⟩]

/-- The parameter of the second function. -/
def neighbourParameter (line column : Nat) : Symbol where
  id := 3
  declaration := .ofParameter "var" ⟨.text, "b", line, column + 11⟩
  owners := [{ id := 2, declaration := .ofFunction {} ⟨.text, "g", line, column + 9⟩ }]

/-- With the second function on a line of its own, its parameter is taken as the receiver. -/
theorem visibleVariable?_neighbours_apart :
    let cursor : Cursor := { tokens := tokenize (neighbours "\n"), position := 13 }
    (Outline.ofTokens cursor.tokens).target cursor = .ofSymbol (neighbourParameter 2 0) ∧
      (Outline.ofTokens cursor.tokens).visibleVariable? "b" 2 = some (neighbourParameter 2 0) := by
  have read : tokenize (neighbours "\n") = neighbourTokens 2 0 := by decide +kernel
  rw [read]
  have target : (Outline.ofTokens (neighbourTokens 2 0)).target
      { tokens := neighbourTokens 2 0, position := 13 } = .ofSymbol (neighbourParameter 2 0) := by
    cbv
  refine ⟨target, (visibleVariable?_of_target rfl (by decide) target (by decide)).1.mpr ?_⟩
  intro owner owned
  have around : (Outline.ofTokens (neighbourTokens 2 0)).enclosing 2 =
      (neighbourParameter 2 0).owner?.toList := by cbv
  exact around ▸ (owned ▸ List.mem_singleton_self owner)

/-- With both functions on one line only the first one is entered, and the parameter is not seen. -/
theorem visibleVariable?_neighbours_on_one_line :
    let cursor : Cursor := { tokens := tokenize (neighbours " "), position := 13 }
    cursor.current.kind = .text ∧ cursor.previous.kind ≠ .dot ∧
      (Outline.ofTokens cursor.tokens).target cursor = .ofSymbol (neighbourParameter 1 17) ∧
      (neighbourParameter 1 17).kind ∈ variableOrder ∧
      (Outline.ofTokens cursor.tokens).visibleVariable? cursor.current.lexeme cursor.current.line =
        none := by
  have read : tokenize (neighbours " ") = neighbourTokens 1 17 := by decide +kernel
  rw [read]
  refine ⟨rfl, by decide, ?_, by decide, ?_⟩ <;> cbv

end ScriptLens
