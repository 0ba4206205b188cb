import ScriptLens.Proofs.Query.Offered

/-! # The innermost declaration
A name is looked up through all scopes that are open on a line, and found in the first of them that
declares it directly while no scope inside declares it. Since the lines of a scope enclose those of
its members, the name is found exactly if some visible symbol has it, and no visible symbol of that
name is declared further inside.
Main definitions:
* `Symbol.Precedes`: the order in which the members of a scope are tried.
* `Symbol.DeclaredInside`: the scope of a symbol lies strictly inside the scope of another one.
Main statements:
* `lookup?_eq_none_iff_offered`: a name is found exactly if it is offered.
* `exists_holder_of_lookup?`: the scope in which a name is found.
* `lookup?_innermost`: what is found is the first declaration of an innermost scope. -/

namespace ScriptLens

open Reader

/-! ## The first declaration in a scope -/

/-- The place of a kind among the members of a scope: parameters come first, then variables,
functions, classes and namespaces. -/
def Declaration.Kind.rank : Declaration.Kind → Nat
  | parameterDecl => 0
  | variableDecl => 1
  | functionDecl => 2
  | classDecl => 3
  | namespaceDecl => 4

/-- Whether a member of a scope is tried before another one: its kind comes first, or it is declared
first among those of its kind. -/
def Symbol.Precedes (left right : Symbol) : Prop :=
  left.kind.rank < right.kind.rank ∨ left.kind = right.kind ∧ left.id < right.id

/-- Every kind has its place in the order of looking up. -/
@[simp] theorem mem_lookupOrder (kind : Declaration.Kind) : kind ∈ lookupOrder := by
  cases kind <;> decide

/-- The roots of a numbered forest are in the order of their numbers. -/
theorem pairwise_id_roots (forest : Forest Declaration) (owners : List Entry) (first : Nat) :
    (forest.number owners first).roots.Pairwise fun left right => left.1.id < right.1.id := by
  have symbols : (forest.number owners first).toList.Pairwise (·.id < ·.id) := by
    rw [← List.pairwise_map, Forest.map_id_number]
    exact List.pairwise_lt_range'
  have tops := symbols.sublist (Forest.tops_sublist_toList _)
  rwa [Forest.tops, List.pairwise_map] at tops

/-- Members in the order of their numbers are arranged in the order in which they are tried. -/
theorem pairwise_arrange_lookupOrder {β : Type} {members : List (Symbol × β)}
    (sorted : members.Pairwise fun left right => left.1.id < right.1.id) :
    (arrange lookupOrder members).Pairwise fun left right => left.1.Precedes right.1 := by
  have ranked : lookupOrder.Pairwise fun left right => left.rank < right.rank := by decide
  unfold arrange
  rw [List.pairwise_flatMap]
  constructor
  · -- Among those of one kind the numbers decide.
    intro kind _
    refine (sorted.filter _).imp_of_mem ?_
    intro left right hleft hright smaller
    have leftKind : left.1.kind = kind := by simpa using (List.mem_filter.mp hleft).2
    have rightKind : right.1.kind = kind := by simpa using (List.mem_filter.mp hright).2
    exact Or.inr ⟨leftKind.trans rightKind.symm, smaller⟩
  · -- Members of different kinds stand in the order of the kinds.
    refine ranked.imp ?_
    intro kind later smaller left hleft right hright
    have leftKind : left.1.kind = kind := by simpa using (List.mem_filter.mp hleft).2
    have rightKind : right.1.kind = later := by simpa using (List.mem_filter.mp hright).2
    exact Or.inl (by rwa [leftKind, rightKind])

/-- The first member that meets a condition precedes all others that meet it. -/
theorem eq_or_precedes_of_find? {members : List Symbol} {condition : Symbol → Bool}
    {symbol other : Symbol} (sorted : members.Pairwise Symbol.Precedes)
    (found : members.find? condition = some symbol) (listed : other ∈ members)
    (meets : condition other) : other = symbol ∨ symbol.Precedes other := by
  obtain ⟨-, earlier, later, rfl, clear⟩ := List.find?_eq_some_iff_append.mp found
  rcases List.mem_append.mp listed with before | behind
  · have fails := clear other before
    simp [meets] at fails
  · rcases List.mem_cons.mp behind with same | after
    · exact Or.inl same
    · have ordered := (List.pairwise_append.mp sorted).2.1
      exact Or.inr ((List.pairwise_cons.mp ordered).1 other after)

/-! ## Looking up and offering -/

namespace Outline

/-- What a name stands for is offered for that name. -/
theorem mem_offered_of_lookup? {outline : Outline} {name : String} {line : Nat} {symbol : Symbol}
    (h : outline.lookup? name line = some symbol) :
    symbol ∈ outline.offered name line ∧ symbol.name = name := by
  induction outline using Forest.induction_below with
  | step outline ih =>
    rw [mem_offered]
    rcases lookup?_cases h with ⟨node, listed, inner⟩ | ⟨-, direct⟩
    · obtain ⟨root, isOpen⟩ := mem_openRoots.mp listed
      obtain ⟨offered, named⟩ := ih node (Forest.roots_subset_subtrees _ root) inner
      exact ⟨⟨node, root, Or.inl ⟨isOpen, offered⟩⟩, named⟩
    · have named : symbol.name = name := by simpa using List.find?_some direct
      obtain ⟨top, -⟩ := mem_tops_of_mem_arranged (List.mem_of_find?_eq_some direct)
      obtain ⟨node, root, rfl⟩ := List.mem_map.mp top
      exact ⟨⟨node, root, Or.inr ⟨named ▸ List.infix_refl _, rfl⟩⟩, named⟩

/-- A name that something offered has stands for something. -/
theorem lookup?_ne_none_of_mem_offered {outline : Outline} {part : String} {line : Nat}
    {symbol : Symbol} (offered : symbol ∈ outline.offered part line) :
    outline.lookup? symbol.name line ≠ none := by
  induction outline using Forest.induction_below with
  | step outline ih =>
    intro missing
    rw [lookup?_eq, Option.or_eq_none_iff, List.findSome?_eq_none_iff, List.find?_eq_none] at missing
    obtain ⟨inside, direct⟩ := missing
    obtain ⟨node, root, ⟨isOpen, below⟩ | ⟨-, rfl⟩⟩ := mem_offered.mp offered
    · exact ih node (Forest.roots_subset_subtrees _ root) below
        (inside node (by simp [root, isOpen]))
    · have listed : node.1 ∈ Outline.arranged outline lookupOrder :=
        List.mem_map_of_mem (by simp [root])
      exact direct node.1 listed (by simp)

/-- A name stands for something exactly if something offered for it has it. -/
theorem lookup?_eq_none_iff_offered {outline : Outline} {name : String} {line : Nat} :
    outline.lookup? name line = none ↔
      ∀ symbol ∈ outline.offered name line, symbol.name ≠ name := by
  constructor
  · rintro missing symbol offered rfl
    exact lookup?_ne_none_of_mem_offered offered missing
  · intro unnamed
    refine Option.eq_none_iff_forall_ne_some.mpr fun symbol found => ?_
    obtain ⟨offered, named⟩ := mem_offered_of_lookup? found
    exact unnamed symbol offered named

/-- A name is found in the document or in an open scope that declares it, where it is not found in any
of the open scopes inside. -/
theorem exists_holder_of_lookup? {outline : Outline} {name : String} {line : Nat} {symbol : Symbol}
    (h : outline.lookup? name line = some symbol) :
    ∃ holder ∈ outline.holders, (∀ scope ∈ holder.1, scope.isOpenOn line) ∧
      (∀ node ∈ holder.2.openRoots line, lookup? node.2 name line = none) ∧
      (holder.2.arranged lookupOrder).find? (·.name = name) = some symbol := by
  induction outline using Forest.induction_below with
  | step outline ih =>
    rcases lookup?_cases h with ⟨node, listed, inner⟩ | ⟨clear, direct⟩
    · obtain ⟨root, isOpen⟩ := mem_openRoots.mp listed
      have subtree := Forest.roots_subset_subtrees _ root
      obtain ⟨holder, held, holderOpen, clear, direct⟩ := ih node subtree inner
      rcases List.mem_cons.mp held with rfl | deeper
      · -- What is the document seen from inside is the root itself.
        refine ⟨(some node.1, node.2), mem_holders_of_mem_subtrees subtree, ?_, clear, direct⟩
        rintro scope ⟨⟩
        exact isOpen
      · obtain ⟨scope, found, rfl⟩ := List.mem_map.mp deeper
        have inside := Forest.subtrees_trans subtree found
        exact ⟨_, mem_holders_of_mem_subtrees inside, holderOpen, clear, direct⟩
    · exact ⟨(none, outline), List.mem_cons_self, by simp, clear, direct⟩

end Outline

/-! ## Declarations further inside -/

/-- A symbol is declared in a scope that lies strictly inside the scope in which another one is
declared; every scope lies inside the document. -/
def Symbol.DeclaredInside (inner outer : Symbol) : Prop :=
  ∃ scope : Symbol, scope.Owns inner ∧
    ∀ around : Symbol, around.Owns outer → Relation.TransGen Symbol.Owns around scope

section

variable {forest : Forest Declaration} {holder : Option Symbol × Outline} {line : Nat}
  {symbol other : Symbol}

/-- What is declared inside the scope of a symbol lies in that scope, but not at its top. -/
theorem mem_holder_of_declaredInside
    (listed : holder ∈ Outline.holders (forest.number [] 0)) (top : symbol ∈ holder.2.tops)
    (found : other ∈ Outline.symbols (forest.number [] 0)) (inside : other.DeclaredInside symbol) :
    other ∈ holder.2.toList ∧ other ∉ holder.2.tops := by
  obtain ⟨scope, owned, deeper⟩ := inside
  have around := owner?_of_mem_tops listed top
  have owner {lies : Symbol} (atTop : lies ∈ holder.2.tops) : lies.owner? = holder.1 :=
    owner?_of_mem_tops listed atTop
  rcases List.mem_cons.mp listed with rfl | inner
  · refine ⟨found, fun atTop => ?_⟩
    cases owned.symm.trans (owner atTop)
  · obtain ⟨node, subtree, rfl⟩ := List.mem_map.mp inner
    have below := deeper node.1 around
    refine ⟨?_, fun atTop => ?_⟩
    · exact (Forest.mem_below_iff_owned subtree found).mpr
        (Symbol.transGen_owns_iff.mp (below.tail owned))
    · -- Then the scope would be its own owner.
      obtain rfl : scope = node.1 := Option.some.inj (owned.symm.trans (owner atTop))
      have longer := (Symbol.transGen_owns_iff.mp below).length_le
      rw [List.length_cons] at longer
      omega

/-- In the document or an open scope of a laminar outline the visible symbols are offered. -/
theorem offered_holder {low high : Nat} (laminar : forest.Laminar low high)
    (placed : forest.Placed none) (listed : holder ∈ Outline.holders (forest.number [] 0))
    (isOpen : ∀ scope ∈ holder.1, scope.isOpenOn line) (part : String) :
    holder.2.offered part line = holder.2.membersFirst.filter fun symbol =>
      symbol.isVisibleOn line && Text.occurs part.toList symbol.name.toList := by
  rcases List.mem_cons.mp listed with rfl | inner
  · exact offered_eq_filter laminar placed part (by simp)
  · obtain ⟨node, subtree, rfl⟩ := List.mem_map.mp inner
    obtain ⟨below, original, numbered⟩ := Forest.mem_subtrees_number subtree
    dsimp only
    rw [numbered]
    refine offered_eq_filter (laminar.below original) (placed.below original) part ?_
    rintro entry ⟨⟩
    exact (Bool.and_eq_true _ _ ▸ isOpen node.1 rfl : _ ∧ _).2

/-- No visible symbol of a name is declared further inside than where the name is found. -/
theorem not_declaredInside_of_lookup? {low high : Nat} {name : String}
    (laminar : forest.Laminar low high) (placed : forest.Placed none)
    (h : Outline.lookup? (forest.number [] 0) name line = some symbol)
    (found : other ∈ Outline.symbols (forest.number [] 0)) (named : other.name = name)
    (visible : other.isVisibleOn line) : ¬ other.DeclaredInside symbol := by
  intro inside
  obtain ⟨holder, listed, isOpen, clear, direct⟩ := Outline.exists_holder_of_lookup? h
  have top := (Outline.mem_tops_of_mem_arranged (List.mem_of_find?_eq_some direct)).1
  obtain ⟨lies, notTop⟩ := mem_holder_of_declaredInside listed top found inside
  have offered : other ∈ holder.2.offered name line := by
    have occurs : Text.occurs name.toList other.name.toList :=
      Text.occurs_iff.mpr (named ▸ List.infix_refl _)
    rw [offered_holder laminar placed listed isOpen, List.mem_filter,
      (Outline.membersFirst_perm _).mem_iff]
    exact ⟨lies, by rw [visible, occurs]; rfl⟩
  -- It is offered through an open scope inside the one in which the name was found.
  obtain ⟨node, root, ⟨nodeOpen, below⟩ | ⟨-, rfl⟩⟩ := Outline.mem_offered.mp offered
  · have missing := clear node (Outline.mem_openRoots.mpr ⟨root, nodeOpen⟩)
    exact Outline.lookup?_eq_none_iff_offered.mp missing other below named
  · exact notTop (List.mem_map_of_mem root)

/-- Where a name is found, it is the first one of that name in its scope. -/
theorem eq_or_precedes_of_lookup? {name : String}
    (h : Outline.lookup? (forest.number [] 0) name line = some symbol)
    (found : other ∈ Outline.symbols (forest.number [] 0)) (named : other.name = name)
    (beside : other.owner? = symbol.owner?) : other = symbol ∨ symbol.Precedes other := by
  obtain ⟨holder, listed, -, -, direct⟩ := Outline.exists_holder_of_lookup? h
  have top := (Outline.mem_tops_of_mem_arranged (List.mem_of_find?_eq_some direct)).1
  -- Both lie in the same scope, whose members are tried in order.
  have otherTop : other ∈ holder.2.tops :=
    (mem_tops_iff listed found).mpr (beside.trans (owner?_of_mem_tops listed top))
  obtain ⟨node, root, rfl⟩ := List.mem_map.mp otherTop
  have sorted : (holder.2.arranged lookupOrder).Pairwise Symbol.Precedes := by
    refine List.pairwise_map.mpr (pairwise_arrange_lookupOrder ?_)
    rcases List.mem_cons.mp listed with rfl | inner
    · exact pairwise_id_roots forest [] 0
    · obtain ⟨scope, subtree, rfl⟩ := List.mem_map.mp inner
      obtain ⟨below, -, numbered⟩ := Forest.mem_subtrees_number subtree
      dsimp only
      rw [numbered]
      exact pairwise_id_roots below _ _
  refine eq_or_precedes_of_find? sorted direct ?_ (by simpa using named)
  exact List.mem_map_of_mem (by simp [root])

end

/-! ## What a name stands for -/

/-- What is offered for a name in the outline of a source and has it are the visible symbols of that
name. -/
theorem mem_offered_tokenize_iff {source name : String} {line : Nat} {symbol : Symbol}
    (named : symbol.name = name) :
    symbol ∈ (Outline.ofTokens (tokenize source)).offered name line ↔
      symbol ∈ (Outline.ofTokens (tokenize source)).symbols ∧ symbol.isVisibleOn line := by
  have occurs : Text.occurs name.toList symbol.name.toList :=
    Text.occurs_iff.mpr (named ▸ List.infix_refl _)
  rw [offered_ofTokens (inLineOrder_tokenize source), List.mem_filter,
    (Outline.membersFirst_perm _).mem_iff, occurs, Bool.and_true]

/-- **A name stands for its innermost declaration.** It stands for nothing exactly if no visible symbol
has it. Otherwise it stands for a visible symbol of that name; no visible symbol of that name is
declared in a scope strictly inside the scope that declares it; and it comes first among the members of
that name in its own scope. What a token without a dot stands for is also offered to complete it. -/
theorem lookup?_innermost (source name : String) (line : Nat) :
    let outline := Outline.ofTokens (tokenize source)
    (outline.lookup? name line = none ↔
      ∀ symbol ∈ outline.symbols, symbol.isVisibleOn line → symbol.name ≠ name) ∧
    (∀ symbol, outline.lookup? name line = some symbol →
      symbol ∈ outline.symbols ∧ symbol.name = name ∧ symbol.isVisibleOn line ∧
      (∀ other ∈ outline.symbols, other.name = name → other.isVisibleOn line →
        ¬ other.DeclaredInside symbol) ∧
      (∀ other ∈ outline.symbols, other.name = name → other.owner? = symbol.owner? →
        other = symbol ∨ symbol.Precedes other)) ∧
    (∀ index symbol, let cursor : Cursor := { tokens := tokenize source, position := index }
      cursor.current.kind ≠ .dot → cursor.previous.kind ≠ .dot →
        outline.target cursor = .ofSymbol symbol → symbol ∈ outline.completions cursor) := by
  intro outline
  obtain ⟨high, laminar⟩ := exists_laminar_read (inLineOrder_tokenize source)
  have placed := placed_read .outer {} {} (tokenize source) none fun _ h => h
  refine ⟨?_, ?_, ?_⟩
  · rw [Outline.lookup?_eq_none_iff_offered]
    constructor
    · intro unnamed symbol found visible named
      exact unnamed symbol ((mem_offered_tokenize_iff named).mpr ⟨found, visible⟩) named
    · intro unnamed symbol offered named
      obtain ⟨found, visible⟩ := (mem_offered_tokenize_iff named).mp offered
      exact unnamed symbol found visible named
  · intro symbol h
    obtain ⟨offered, named⟩ := Outline.mem_offered_of_lookup? h
    obtain ⟨found, visible⟩ := (mem_offered_tokenize_iff named).mp offered
    refine ⟨found, named, visible, ?_, ?_⟩
    · intro other otherFound otherNamed otherVisible
      exact not_declaredInside_of_lookup? laminar placed h otherFound otherNamed otherVisible
    · intro other otherFound otherNamed beside
      exact eq_or_precedes_of_lookup? h otherFound otherNamed beside
  · intro index symbol cursor notDot undotted stands
    have found := Outline.lookup?_of_undotted_target notDot undotted stands
    unfold Outline.completions
    rw [Chain.at?_eq_none notDot undotted]
    exact (Outline.mem_offered_of_lookup? found).1

/-- A variable, and a function with a parameter of the same name, which its body mentions. -/
def shadowSource : String :=
  "var x;\nfunction f(x) \x7b\nx;\n\x7d"

/-- The tokens of that document. -/
def shadowTokens : List Token :=
  [⟨.keyword, "var", 1, 0⟩, ⟨.text, "x", 1, 4⟩, ⟨.semicolon, ";", 1, 5⟩,
    ⟨.keyword, "function", 2, 0⟩, ⟨.text, "f", 2, 9⟩, ⟨.parenthesisOpen, "(", 2, 10⟩,
    ⟨.text, "x", 2, 11⟩, ⟨.parenthesisClose, ")", 2, 12⟩, ⟨.braceOpen, "\x7b", 2, 14⟩,
    ⟨.text, "x", 3, 0⟩, ⟨.semicolon, ";", 3, 1⟩, ⟨.braceClose, "\x7d", 4, 0⟩]

/-- The parameter. -/
def shadowParameter : Symbol where
  id := 2
  declaration := .ofParameter "var" ⟨.text, "x", 2, 11⟩
  owners := [{ id := 1, declaration :=
    { Declaration.ofFunction {} ⟨.text, "f", 2, 9⟩ with lines := .between 2 4 } }]

/-- In the function the name stands for the parameter, which is visible there, no other declaration of
it lies further inside, and it is offered to complete the name. -/
theorem lookup?_innermost_shadowSource :
    let outline := Outline.ofTokens (tokenize shadowSource)
    let cursor : Cursor := { tokens := tokenize shadowSource, position := 9 }
    outline.lookup? "x" 3 = some shadowParameter ∧ shadowParameter.isVisibleOn 3 ∧
      (∀ other ∈ outline.symbols, other.name = "x" → other.isVisibleOn 3 →
        ¬ other.DeclaredInside shadowParameter) ∧
      cursor.current.kind ≠ .dot ∧ cursor.previous.kind ≠ .dot ∧
      outline.target cursor = .ofSymbol shadowParameter ∧
      shadowParameter ∈ outline.completions cursor := by
  have read : tokenize shadowSource = shadowTokens := by decide +kernel
  obtain ⟨-, innermost, offered⟩ := lookup?_innermost shadowSource "x" 3
  rw [read] at innermost offered ⊢
  have found : (Outline.ofTokens shadowTokens).lookup? "x" 3 = some shadowParameter := by cbv
  have target : (Outline.ofTokens shadowTokens).target { tokens := shadowTokens, position := 9 } =
      .ofSymbol shadowParameter := by cbv
  obtain ⟨-, -, visible, deepest, -⟩ := innermost shadowParameter found
  exact ⟨found, visible, deepest, by decide, by decide, target,
    offered 9 shadowParameter (by decide) (by decide) target⟩

end ScriptLens
