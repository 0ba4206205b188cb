import Mathlib.Data.List.Flatten
import ScriptLens.Proofs.Query.ScopeWalks
import ScriptLens.Proofs.Symbol.Laminar

/-! # What is offered
Symbols are gathered from the outside in, through the scopes that are open on a line. Since the
lines of a scope enclose those of its members, nothing is missed on this way: whether a symbol is
offered depends on the one scope that it lies in, and not on the scopes around that one.
Main definitions:
* `Symbol.isVisibleOn`: a symbol lies in the document itself or in a scope around the line.
* `Outline.membersFirst`: all symbols, the members of a scope before the scope.
Main statements:
* `membersFirst_perm`: every symbol is listed once there.
* `offered_eq_filter`: the symbols offered are the visible ones, in that order.
* `completions_undotted`: the same for the token under a cursor. -/

namespace ScriptLens

open Reader

/-- Whether a symbol can be seen from a line: it lies in the document itself, or the line is one of
the lines of its owner. -/
def Symbol.isVisibleOn (symbol : Symbol) (line : Nat) : Bool :=
  symbol.owner?.all (·.lines.contains line)

/-! ## All symbols, members first -/

/-- The elements of a forest are its roots, each before the elements below it. -/
theorem Forest.toList_eq_flatMap_roots {α : Type} (forest : Forest α) :
    forest.toList = forest.roots.flatMap fun node => node.1 :: node.2.toList := by
  induction forest with
  | nil => rfl
  | cons root below beside _ besideInduction =>
    simp only [toList, roots, List.flatMap_cons, List.cons_append, besideInduction]

/-- A subtree of a forest is one of its roots or lies below one of them. -/
theorem Forest.mem_roots_or_below {α : Type} {forest : Forest α} {node : α × Forest α}
    (listed : node ∈ forest.subtrees) :
    node ∈ forest.roots ∨ ∃ root ∈ forest.roots, node ∈ root.2.subtrees := by
  induction forest with
  | nil => exact absurd listed List.not_mem_nil
  | cons top below beside _ besideInduction =>
    rcases mem_subtrees_cons.mp listed with rfl | inside | outside
    · exact Or.inl List.mem_cons_self
    · exact Or.inr ⟨(top, below), List.mem_cons_self, inside⟩
    · rcases besideInduction outside with here | ⟨root, found, inside⟩
      · exact Or.inl (List.mem_cons_of_mem _ here)
      · exact Or.inr ⟨root, List.mem_cons_of_mem _ found, inside⟩

/-- Every kind has its place in the order of completion. -/
@[simp] theorem mem_completionOrder (kind : Declaration.Kind) : kind ∈ completionOrder := by
  cases kind <;> decide

namespace Outline

/-- All symbols in the order in which they are offered: the members of a scope come before the
scope. -/
def membersFirst (outline : Outline) : List Symbol :=
  outline.fold fun members =>
    (arrange completionOrder members).flatMap fun (symbol, inner) => inner ++ [symbol]

/-- The roots are listed one after the other, each behind what lies below it. -/
theorem membersFirst_eq (outline : Outline) :
    outline.membersFirst = (arrange completionOrder outline.roots).flatMap fun node =>
      membersFirst node.2 ++ [node.1] := by
  unfold membersFirst
  rw [Forest.fold_eq, arrange_map, List.flatMap_map]

/-- The roots are offered one after the other, each behind what is offered below it. -/
theorem offered_eq (outline : Outline) (part : String) (line : Nat) :
    outline.offered part line = (arrange completionOrder outline.roots).flatMap fun node =>
      (if node.1.isOpenOn line then offered node.2 part line else []) ++
        (if Text.occurs part.toList node.1.name.toList then [node.1] else []) := by
  unfold offered
  rw [Forest.fold_eq, arrange_map, List.flatMap_map]

/-- What is offered is a root whose name contains the characters, or is offered in a root that is
open. -/
theorem mem_offered {outline : Outline} {part : String} {line : Nat} {symbol : Symbol} :
    symbol ∈ outline.offered part line ↔ ∃ node ∈ outline.roots,
      node.1.isOpenOn line ∧ symbol ∈ offered node.2 part line ∨
        part.toList <:+: node.1.name.toList ∧ symbol = node.1 := by
  rw [offered_eq]
  simp

/-- The name of what is offered contains the characters. -/
theorem infix_of_mem_offered {outline : Outline} {part : String} {line : Nat} {symbol : Symbol}
    (offered : symbol ∈ outline.offered part line) : part.toList <:+: symbol.name.toList := by
  induction outline using Forest.induction_below with
  | step outline ih =>
    obtain ⟨node, root, ⟨-, inside⟩ | ⟨contains, rfl⟩⟩ := mem_offered.mp offered
    · exact ih node (Forest.roots_subset_subtrees _ root) inside
    · exact contains

/-- Every symbol is listed once. -/
theorem membersFirst_perm (outline : Outline) : outline.membersFirst.Perm outline.symbols := by
  induction outline using Forest.induction_below with
  | step outline ih =>
    have arranged : (arrange completionOrder outline.roots).Perm outline.roots :=
      arrange_perm (by decide) fun member _ => mem_completionOrder member.1.kind
    rw [membersFirst_eq, symbols, Forest.toList_eq_flatMap_roots]
    refine (arranged.flatMap_right _).trans (List.Perm.flatMap_left _ fun node root => ?_)
    have below := ih node (Forest.roots_subset_subtrees _ root)
    exact (below.append_right _).trans (List.perm_append_singleton _ _)

/-- What lies below a symbol is listed before it. -/
theorem pair_sublist_membersFirst {outline : Outline} {node : Symbol × Outline} {symbol : Symbol}
    (listed : node ∈ outline.subtrees) (lies : symbol ∈ node.2.toList) :
    [symbol, node.1].Sublist outline.membersFirst := by
  induction outline using Forest.induction_below with
  | step outline ih =>
    -- Both are listed with one root, and what is listed with a root stands together.
    have block : ∃ root ∈ outline.roots,
        [symbol, node.1].Sublist (membersFirst root.2 ++ [root.1]) := by
      rcases Forest.mem_roots_or_below listed with here | ⟨root, found, inside⟩
      · have before : [symbol].Sublist (membersFirst node.2) :=
          List.singleton_sublist.mpr ((membersFirst_perm node.2).mem_iff.mpr lies)
        exact ⟨node, here, before.append (List.Sublist.refl [node.1])⟩
      · have within := ih root (Forest.roots_subset_subtrees _ found) inside
        exact ⟨root, found, within.trans (List.sublist_append_left _ _)⟩
    obtain ⟨root, found, within⟩ := block
    have arranged : [root].Sublist (arrange completionOrder outline.roots) :=
      List.singleton_sublist.mpr (by simp [found])
    have listedTogether := arranged.flatMap fun node => membersFirst node.2 ++ [node.1]
    rw [List.flatMap_singleton] at listedTogether
    rw [membersFirst_eq]
    exact within.trans listedTogether

end Outline

/-! ## Visible symbols -/

/-- What may hold something is a scope. -/
theorem isScope_of_mayHold {owner kind : Declaration.Kind} (h : mayHold (some owner) kind) :
    owner.isScope := by
  cases owner with
  | namespaceDecl | classDecl | functionDecl => rfl
  | parameterDecl | variableDecl => exact absurd h Bool.false_ne_true

section

variable {forest : Forest Declaration} {owners : List Entry} {first line : Nat} {symbol : Symbol}

/-- A visible symbol has no owner, or one with the line among its lines. -/
theorem isVisibleOn_iff :
    symbol.isVisibleOn line ↔
      symbol.owner? = none ∨ ∃ owner : Symbol, owner.Owns symbol ∧ owner.lines.contains line := by
  unfold Symbol.isVisibleOn Symbol.Owns
  cases symbol.owner? <;> simp

/-- A root is visible if the line is one of the lines of what lies around the forest. -/
theorem isVisibleOn_of_mem_tops (found : symbol ∈ (forest.number owners first).tops)
    (around : ∀ entry ∈ owners.head?, entry.declaration.lines.contains line) :
    symbol.isVisibleOn line := by
  have same := Forest.owners_of_mem_tops found
  unfold Symbol.isVisibleOn Symbol.owner?
  rw [same]
  cases owners with
  | nil => rfl
  | cons entry entries => exact around entry rfl

/-- A symbol that is visible on a line lies in something whose lines enclose those of its owner, and
so the line is one of them. -/
theorem contains_of_isVisibleOn {entry : Entry}
    (laminar : forest.Laminar entry.declaration.lines.first entry.declaration.lines.last)
    (found : symbol ∈ (forest.number (entry :: owners) first).toList)
    (visible : symbol.isVisibleOn line) : entry.declaration.lines.contains line := by
  have around : entry :: owners <:+ symbol.owners := Forest.owners_suffix_of_mem found
  cases hentries : symbol.owners with
  | nil =>
    rw [hentries] at around
    exact absurd (List.suffix_nil.mp around) (List.cons_ne_nil _ _)
  | cons owner outer =>
    have contains : owner.declaration.lines.contains line := by
      unfold Symbol.isVisibleOn Symbol.owner? at visible
      rwa [hentries] at visible
    let scope : Symbol := { owner with owners := outer }
    have owned : scope.toEntry :: scope.owners <:+ symbol.owners :=
      hentries ▸ List.suffix_refl _
    rcases Forest.exists_of_owner_suffix found owned with outside | ⟨below, listed, -⟩
    · -- The owner is the first one around the forest.
      rw [hentries] at around
      have same : owner :: outer = entry :: owners :=
        outside.eq_of_length_le around.length_le
      rw [← (List.cons.inj same).1]
      exact contains
    · -- The owner lies in the forest, and its lines are within the bounds.
      have bounds := laminar.bounds (Forest.mem_toList_of_mem_subtrees listed)
      have lower : entry.declaration.lines.first ≤ owner.declaration.lines.first := bounds.1
      have upper : owner.declaration.lines.last ≤ entry.declaration.lines.last := bounds.2
      simp only [LineRange.contains, Bool.and_eq_true, decide_eq_true_eq] at contains ⊢
      omega

/-- What lies below a symbol that is not open on a line cannot be seen from there. -/
theorem filter_membersFirst_eq_nil {node : Symbol × Outline} {below : Forest Declaration}
    {condition : Symbol → Bool}
    (numbered : node.2 = below.number (node.1.toEntry :: node.1.owners) first)
    (laminar : below.Laminar node.1.lines.first node.1.lines.last)
    (placed : below.Placed (some node.1.kind)) (closed : ¬ node.1.isOpenOn line) :
    node.2.membersFirst.filter (fun symbol => symbol.isVisibleOn line && condition symbol) =
      [] := by
  rw [List.filter_eq_nil_iff]
  intro symbol listed seen
  rw [Bool.and_eq_true] at seen
  have lies : symbol ∈ node.2.toList := (Outline.membersFirst_perm node.2).mem_iff.mp listed
  rw [numbered] at lies
  have contains : node.1.lines.contains line := contains_of_isVisibleOn laminar lies seen.1
  -- Only scopes have members, so the symbol is open after all.
  have isScope : node.1.declaration.isScope := by
    cases below with
    | nil => exact absurd lies List.not_mem_nil
    | cons declaration inner beside => exact isScope_of_mayHold placed.1
  exact closed (by rw [Symbol.isOpenOn, isScope, contains]; rfl)

/-- **What is offered are the visible symbols**, members first, whose names contain some characters,
if the lines around the forest are open. -/
theorem offered_eq_filter {low high : Nat} {owner : Option Declaration.Kind}
    (laminar : forest.Laminar low high) (placed : forest.Placed owner) (part : String)
    (around : ∀ entry ∈ owners.head?, entry.declaration.lines.contains line) :
    Outline.offered (forest.number owners first) part line =
      (Outline.membersFirst (forest.number owners first)).filter fun symbol =>
        symbol.isVisibleOn line && Text.occurs part.toList symbol.name.toList := by
  induction forest using Forest.induction_below generalizing owners first low high owner with
  | step forest ih =>
    rw [Outline.offered_eq, Outline.membersFirst_eq, List.filter_flatMap]
    refine List.flatMap_congr fun node arranged => ?_
    have root := (mem_arrange.mp arranged).1
    obtain ⟨below, original, numbered⟩ :=
      Forest.mem_subtrees_number (Forest.roots_subset_subtrees _ root)
    have visible : node.1.isVisibleOn line :=
      isVisibleOn_of_mem_tops (List.mem_map_of_mem root) around
    have innerLaminar : below.Laminar node.1.lines.first node.1.lines.last := laminar.below original
    have innerPlaced : below.Placed (some node.1.kind) := placed.below original
    rw [List.filter_append]
    congr 1
    · by_cases isOpen : node.1.isOpenOn line
      · rw [if_pos isOpen, numbered]
        refine ih _ original innerLaminar innerPlaced ?_
        intro entry isFirst
        obtain rfl : node.1.toEntry = entry := Option.some.inj isFirst
        exact (Bool.and_eq_true _ _ ▸ isOpen : _ ∧ _).2
      · rw [if_neg isOpen]
        exact (filter_membersFirst_eq_nil numbered innerLaminar innerPlaced isOpen).symm
    · simp [List.filter_cons, visible]

end

/-! ## Completions -/

/-- What is offered in the outline of tokens in line order are the visible symbols, with members
first. -/
theorem offered_ofTokens {tokens : List Token} (ordered : InLineOrder tokens) (part : String)
    (line : Nat) :
    (Outline.ofTokens tokens).offered part line =
      (Outline.ofTokens tokens).membersFirst.filter fun symbol =>
        symbol.isVisibleOn line && Text.occurs part.toList symbol.name.toList := by
  obtain ⟨high, laminar⟩ := exists_laminar_read ordered
  have placed := placed_read .outer {} {} tokens none fun _ h => h
  unfold Outline.ofTokens
  exact offered_eq_filter laminar placed part (by simp)

/-- The symbols of an outline are distinct. -/
theorem nodup_symbols (forest : Forest Declaration) :
    (Outline.symbols (forest.number [] 0)).Nodup :=
  List.Nodup.of_map _ (Forest.nodup_ids [] 0 forest)

/-- Of the symbols that meet a condition, what lies in a scope comes before the scope. -/
theorem pair_sublist_filter_membersFirst {forest : Forest Declaration} {condition : Symbol → Bool}
    {scope symbol : Symbol}
    (scopeMeets : scope ∈ (Outline.membersFirst (forest.number [] 0)).filter condition)
    (meets : symbol ∈ (Outline.membersFirst (forest.number [] 0)).filter condition)
    (owned : Relation.TransGen Symbol.Owns scope symbol) :
    [symbol, scope].Sublist ((Outline.membersFirst (forest.number [] 0)).filter condition) := by
  obtain ⟨scopeListed, scopeMeets⟩ := List.mem_filter.mp scopeMeets
  obtain ⟨listed, meets⟩ := List.mem_filter.mp meets
  rw [(Outline.membersFirst_perm _).mem_iff] at scopeListed listed
  obtain ⟨below, subtree⟩ := Forest.exists_mem_subtrees scopeListed
  have lies : symbol ∈ below.toList :=
    (Forest.mem_below_iff_owned subtree listed).mpr (Symbol.transGen_owns_iff.mp owned)
  have pair := (Outline.pair_sublist_membersFirst subtree lies).filter condition
  simpa [scopeMeets, meets] using pair

/-- **Completion without a dot offers exactly the visible symbols.** For a token that is no dot and
does not stand behind one, the symbols offered are distinct; they are those visible on its line
whose names contain it; and what lies in a scope, at any depth, is offered before the scope. -/
theorem completions_undotted (source : String) (index : Nat) :
    let cursor : Cursor := { tokens := tokenize source, position := index }
    let outline := Outline.ofTokens (tokenize source)
    cursor.current.kind ≠ .dot → cursor.previous.kind ≠ .dot →
      (outline.completions cursor).Nodup ∧
      (∀ symbol, symbol ∈ outline.completions cursor ↔ symbol ∈ outline.symbols ∧
        cursor.current.lexeme.toList <:+: symbol.name.toList ∧
        (symbol.owner? = none ∨
          ∃ owner : Symbol, owner.Owns symbol ∧ owner.lines.contains cursor.current.line)) ∧
      ∀ scope ∈ outline.completions cursor, ∀ symbol ∈ outline.completions cursor,
        Relation.TransGen Symbol.Owns scope symbol →
          [symbol, scope].Sublist (outline.completions cursor) := by
  intro cursor outline notDot undotted
  let condition : Symbol → Bool := fun symbol => symbol.isVisibleOn cursor.current.line &&
    Text.occurs cursor.current.lexeme.toList symbol.name.toList
  have found : outline.completions cursor = outline.membersFirst.filter condition := by
    unfold Outline.completions
    rw [Chain.at?_eq_none notDot undotted]
    exact offered_ofTokens (inLineOrder_tokenize source) _ _
  have distinct : outline.membersFirst.Nodup :=
    (Outline.membersFirst_perm outline).nodup_iff.mpr (nodup_symbols _)
  refine ⟨?_, ?_, ?_⟩
  · rw [found]
    exact distinct.filter _
  · intro symbol
    rw [found, List.mem_filter, (Outline.membersFirst_perm outline).mem_iff, Bool.and_eq_true,
      Text.occurs_iff, and_comm (a := Symbol.isVisibleOn _ _ = true)]
    exact and_congr_right fun _ => and_congr_right fun _ => isVisibleOn_iff
  · intro scope scopeOffered symbol offered owned
    rw [found] at scopeOffered offered ⊢
    exact pair_sublist_filter_membersFirst scopeOffered offered owned

/-- A class with a method, a variable beside it, and a function with a parameter on a line of its
own. The method is being typed in. -/
def boxSource : String :=
  "class Box \x7b\nfunction add(item) \x7b\nvar added; ad\n\x7d\n\x7d\nvar address;\n" ++
    "function other(adjacent) \x7b\x7d"

/-- The tokens of that document. -/
def boxTokens : List Token :=
  [⟨.keyword, "class", 1, 0⟩, ⟨.text, "Box", 1, 6⟩, ⟨.braceOpen, "\x7b", 1, 10⟩,
    ⟨.keyword, "function", 2, 0⟩, ⟨.text, "add", 2, 9⟩, ⟨.parenthesisOpen, "(", 2, 12⟩,
    ⟨.text, "item", 2, 13⟩, ⟨.parenthesisClose, ")", 2, 17⟩, ⟨.braceOpen, "\x7b", 2, 19⟩,
    ⟨.keyword, "var", 3, 0⟩, ⟨.text, "added", 3, 4⟩, ⟨.semicolon, ";", 3, 9⟩, ⟨.text, "ad", 3, 11⟩,
    ⟨.braceClose, "\x7d", 4, 0⟩, ⟨.braceClose, "\x7d", 5, 0⟩, ⟨.keyword, "var", 6, 0⟩,
    ⟨.text, "address", 6, 4⟩, ⟨.semicolon, ";", 6, 11⟩, ⟨.keyword, "function", 7, 0⟩,
    ⟨.text, "other", 7, 9⟩, ⟨.parenthesisOpen, "(", 7, 14⟩, ⟨.text, "adjacent", 7, 15⟩,
    ⟨.parenthesisClose, ")", 7, 23⟩, ⟨.braceOpen, "\x7b", 7, 25⟩, ⟨.braceClose, "\x7d", 7, 26⟩]

/-- In the method its variable, the method itself and the variable of the document are offered, and
the parameter of the other function is not. -/
theorem completions_boxSource :
    let cursor : Cursor := { tokens := tokenize boxSource, position := 12 }
    let outline := Outline.ofTokens (tokenize boxSource)
    cursor.current.kind ≠ .dot ∧ cursor.previous.kind ≠ .dot ∧
      (outline.completions cursor).Nodup ∧
      ∀ symbol ∈ outline.symbols,
        symbol ∈ outline.completions cursor ↔ symbol.name ∈ ["added", "add", "address"] := by
  have read : tokenize boxSource = boxTokens := by decide +kernel
  have seen : (Outline.ofTokens boxTokens).symbols.all fun symbol =>
      (symbol.isVisibleOn 3 && Text.occurs "ad".toList symbol.name.toList) =
        ["added", "add", "address"].contains symbol.name := by cbv
  have general := completions_undotted boxSource 12
  rw [read] at general ⊢
  obtain ⟨distinct, offered, -⟩ := general (by decide) (by decide)
  refine ⟨by decide, by decide, distinct, ?_⟩
  intro symbol found
  have same := List.all_eq_true.mp seen symbol found
  rw [decide_eq_true_eq] at same
  have listed : symbol.name ∈ ["added", "add", "address"] ↔
      symbol.isVisibleOn 3 ∧ "ad".toList <:+: symbol.name.toList := by
    rw [← List.contains_iff_mem, ← same, Bool.and_eq_true, Text.occurs_iff]
  rw [offered symbol, listed, and_iff_right found, isVisibleOn_iff, and_comm]
  rfl

end ScriptLens
