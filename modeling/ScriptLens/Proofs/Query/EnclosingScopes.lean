import ScriptLens.Proofs.Query.Offered

/-! # The scopes around a line
The scopes around a line are found by going down: of the scopes that lie directly in the document the
first one that is open on the line is entered, then the first open one of those that lie directly in
that scope, and so on. Numbers rise on the way, so that it comes to an end. Only one scope of each
level is entered; where no two scopes with the same owner are open on the line this misses nothing,
since a scope that is open lies in open scopes only.
Main definitions:
* `Outline.entered?`: the scope that is entered from a scope, or from the document.
* `Outline.Descends`: the ways down that end where no scope is left to be entered.
* `Outline.ScopesAround`: what the list of the scopes around a line is.
Main statements:
* `descends_iff`: there is one way down, and it leads through the scopes around the line.
* `isOpenOn_of_mem_enclosing`, `mem_enclosing_of_isOpenOn`: the scopes around a line are the open ones.
* `enclosing_ofTokens`: the same for every source, with the owners along the way. -/

namespace ScriptLens

open Reader

/-! ## The way down -/

namespace Outline

/-- What lies in the document, or in the scope with the number of a given one. -/
def inside (outline : Outline) : Option Symbol → Outline
  | none => outline
  | some scope => (outline.get? scope.id).elim .nil Prod.snd

/-- The scope that is entered next, directly from the document or from a given scope: the first one
there that is open on a line. -/
def entered? (outline : Outline) (line : Nat) (scope : Option Symbol) : Option Symbol :=
  ((outline.inside scope).openRoots line).head?.map Prod.fst

/-- The scopes on a way down, the outermost one first, from the document or from a given scope to
where no scope can be entered. -/
inductive Descends (outline : Outline) (line : Nat) : Option Symbol → List Symbol → Prop
  /-- No scope is open there. -/
  | stop {scope : Option Symbol} (closed : outline.entered? line scope = none) :
    Descends outline line scope []
  /-- A scope is entered. -/
  | enter {scope : Option Symbol} {inner : Symbol} {path : List Symbol}
    (first : outline.entered? line scope = some inner)
    (deeper : Descends outline line (some inner) path) : Descends outline line scope (inner :: path)

/-- There is at most one way down. -/
theorem Descends.unique {outline : Outline} {line : Nat} {scope : Option Symbol}
    {path other : List Symbol} (descends : outline.Descends line scope path)
    (descendsToo : outline.Descends line scope other) : path = other := by
  induction descends generalizing other with
  | stop closed =>
    cases descendsToo with
    | stop => rfl
    | enter first => rw [closed] at first; cases first
  | enter first _ ih =>
    cases descendsToo with
    | stop closed => rw [closed] at first; cases first
    | enter firstToo deeper =>
      obtain rfl := Option.some.inj (first.symm.trans firstToo)
      rw [ih deeper]

end Outline

section

variable {forest : Forest Declaration} {owners : List Entry} {first line : Nat} {symbol : Symbol}

/-- What lies in the document or in one of its symbols is found from there. -/
theorem inside_holder {holder : Option Symbol × Outline}
    (listed : holder ∈ Outline.holders (forest.number [] 0)) :
    Outline.inside (forest.number [] 0) holder.1 = holder.2 := by
  rcases List.mem_cons.mp listed with rfl | below
  · rfl
  · obtain ⟨node, subtree, rfl⟩ := List.mem_map.mp below
    show (Outline.get? _ node.1.id).elim .nil Prod.snd = node.2
    rw [get?_id subtree]
    rfl

/-- From the document and from each of its symbols the way down leads through the scopes around the
line there. -/
theorem descends_enclosing {holder : Option Symbol × Outline}
    (listed : holder ∈ Outline.holders (forest.number [] 0)) :
    Outline.Descends (forest.number [] 0) line holder.1 (holder.2.enclosing line).reverse := by
  obtain ⟨scope, inner⟩ := holder
  induction inner using Forest.induction_below generalizing scope with
  | step inner ih =>
    have next : Outline.entered? (forest.number [] 0) line scope =
        (Outline.openRoots inner line).head?.map Prod.fst := by
      rw [Outline.entered?, inside_holder listed]
    rw [Outline.enclosing_eq]
    cases isFirst : (Outline.openRoots inner line).head? with
    | none =>
      rw [isFirst] at next
      exact .stop next
    | some node =>
      rw [isFirst] at next
      have root := mem_roots_of_head? isFirst
      have subtree := Forest.roots_subset_subtrees _ root
      have deeper := Outline.mem_holders_of_mem_roots listed root
      show Outline.Descends _ line scope (node.2.enclosing line ++ [node.1]).reverse
      rw [List.reverse_concat]
      exact .enter next (ih node subtree (some node.1) deeper)

/-- **There is one way down**, and it leads through the scopes around the line. -/
theorem descends_iff {path : List Symbol} :
    Outline.Descends (forest.number [] 0) line none path ↔
      path = (Outline.enclosing (forest.number [] 0) line).reverse := by
  have document : (none, forest.number [] 0) ∈ Outline.holders (forest.number [] 0) :=
    List.mem_cons_self
  have descends : Outline.Descends (forest.number [] 0) line none
      (Outline.enclosing (forest.number [] 0) line).reverse := descends_enclosing document
  constructor
  · exact fun other => other.unique descends
  · rintro rfl
    exact descends

/-! ## Owners along the way -/

/-- Every scope around a line is owned by the next one, and the last one is at the top. -/
theorem isChain_enclosing (forest : Forest Declaration) (owners : List Entry) (first line : Nat) :
    (Outline.enclosing (forest.number owners first) line).IsChain
        (fun inner outer => outer.Owns inner) ∧
      ∀ outermost ∈ (Outline.enclosing (forest.number owners first) line).getLast?,
        outermost.owners = owners := by
  induction forest using Forest.induction_below generalizing owners first with
  | step forest ih =>
    rcases enclosing_cases (forest.number owners first) line with none | ⟨node, root, eq⟩
    · rw [none]
      exact ⟨List.isChain_nil, fun _ last => by cases last⟩
    · obtain ⟨below, original, numbered⟩ :=
        Forest.mem_subtrees_number (Forest.roots_subset_subtrees _ root)
      obtain ⟨chain, last⟩ := ih _ original (node.1.toEntry :: node.1.owners) (node.1.id + 1)
      rw [← numbered] at chain last
      rw [eq]
      constructor
      · refine List.isChain_append.mpr ⟨chain, List.isChain_singleton _, ?_⟩
        rintro inner isLast outer ⟨⟩
        exact Symbol.owns_iff.mpr (last inner isLast)
      · intro outermost isLast
        rw [List.getLast?_concat] at isLast
        rw [← Option.some.inj isLast]
        exact Forest.owners_of_mem_tops (List.mem_map_of_mem root)

/-! ## Open scopes -/

/-- A symbol with an open symbol below it is an open scope. -/
theorem isOpenOn_of_below {low high : Nat} {owner : Option Declaration.Kind}
    {node : Symbol × Outline} (laminar : forest.Laminar low high) (placed : forest.Placed owner)
    (subtree : node ∈ (forest.number owners first).subtrees) (lies : symbol ∈ node.2.toList)
    (isOpen : symbol.isOpenOn line) : node.1.isOpenOn line := by
  obtain ⟨below, original, numbered⟩ := Forest.mem_subtrees_number subtree
  rw [numbered] at lies
  have isScope : node.1.declaration.isScope := by
    have placedBelow := placed.below original
    cases below with
    | nil => exact absurd lies List.not_mem_nil
    | cons declaration inner beside => exact isScope_of_mayHold placedBelow.1
  -- The lines of a symbol enclose those of everything below it.
  obtain ⟨lowest, highest⟩ := (laminar.below original).bounds lies
  have lowest : node.1.lines.first ≤ symbol.lines.first := lowest
  have highest : symbol.lines.last ≤ node.1.lines.last := highest
  simp only [Symbol.isOpenOn, LineRange.contains, Bool.and_eq_true, decide_eq_true_eq] at isOpen ⊢
  exact ⟨isScope, by omega⟩

/-- The scopes around a line are open. -/
theorem isOpenOn_of_mem_enclosing {outline : Outline} (around : symbol ∈ outline.enclosing line) :
    symbol.isOpenOn line := by
  induction outline using Forest.induction_below with
  | step outline ih =>
    rw [Outline.enclosing_eq] at around
    cases isFirst : (Outline.openRoots outline line).head? with
    | none => rw [isFirst] at around; exact absurd around List.not_mem_nil
    | some node =>
      rw [isFirst] at around
      obtain ⟨root, isOpen⟩ := Outline.mem_roots_of_mem_openRoots (List.mem_of_mem_head? isFirst)
      rcases List.mem_append.mp around with inner | itself
      · exact ih node (Forest.roots_subset_subtrees _ root) inner
      · rw [List.mem_singleton.mp itself]
        exact isOpen

/-- Where no two scopes with the same owner are open, no open scope is missed. -/
theorem mem_enclosing_of_isOpenOn {low high : Nat} {owner : Option Declaration.Kind}
    (laminar : forest.Laminar low high) (placed : forest.Placed owner)
    (opensOne : Outline.OpensOne (forest.number owners first) line)
    (found : symbol ∈ (forest.number owners first).toList) (isOpen : symbol.isOpenOn line) :
    symbol ∈ Outline.enclosing (forest.number owners first) line := by
  induction forest using Forest.induction_below generalizing owners first low high owner with
  | step forest ih =>
    obtain ⟨members, subtree⟩ := Forest.exists_mem_subtrees found
    rw [Outline.enclosing_eq]
    rcases Forest.mem_roots_or_below subtree with root | ⟨node, root, inside⟩
    · rw [head?_openRoots opensOne (Outline.mem_openRoots.mpr ⟨root, isOpen⟩)]
      exact List.mem_append_right _ List.mem_cons_self
    · -- The root above the symbol is entered, and the symbol is found there.
      have outer := Forest.roots_subset_subtrees _ root
      have lies := Forest.mem_toList_of_mem_subtrees inside
      have rootOpen := isOpenOn_of_below laminar placed outer lies isOpen
      rw [head?_openRoots opensOne (Outline.mem_openRoots.mpr ⟨root, rootOpen⟩)]
      obtain ⟨below, original, numbered⟩ := Forest.mem_subtrees_number outer
      have opensOneBelow := opensOne.below outer
      rw [numbered] at lies opensOneBelow
      refine List.mem_append_left _ ?_
      rw [numbered]
      exact ih _ original (laminar.below original) (placed.below original) opensOneBelow lies

end

/-- What the list of the scopes around a line is, from the inside out. -/
structure Outline.ScopesAround (outline : Outline) (line : Nat) (scopes : List Symbol) : Prop where
  /-- The scopes are those on the only way down. -/
  descends_iff : ∀ path, outline.Descends line none path ↔ path = scopes.reverse
  /-- Each scope is listed once. -/
  nodup : scopes.Nodup
  /-- Each scope has its owner behind it. -/
  chain : scopes.IsChain fun inner outer => inner.owner? = some outer
  /-- The last scope has no owner. -/
  outermost : ∀ scope ∈ scopes.getLast?, scope.owner? = none
  /-- Where no two scopes with the same owner are open, all open scopes are listed, and nothing else. -/
  mem_iff : outline.OpensOne line → ∀ symbol, symbol ∈ scopes ↔
    symbol ∈ outline.symbols ∧ symbol.declaration.isScope ∧ symbol.lines.contains line

/-- **The scopes around a line.** For every source and line there is exactly one way down through open
scopes, and it ends at the innermost one; the scopes on it are listed, each once, from the inside out,
each with its owner behind it, and the last one has no owner. Where no two scopes with the same owner
are open on the line, all scopes that are open on it are listed, and nothing else. -/
theorem enclosing_ofTokens (source : String) (line : Nat) :
    (Outline.ofTokens (tokenize source)).ScopesAround line
      ((Outline.ofTokens (tokenize source)).enclosing line) := by
  obtain ⟨high, laminar⟩ := exists_laminar_read (inLineOrder_tokenize source)
  have placed := placed_read .outer {} {} (tokenize source) none fun _ h => h
  obtain ⟨listed, descending⟩ :=
    enclosing_descends (read .outer {} {} (tokenize source)).1 [] 0 line
  obtain ⟨chain, last⟩ := isChain_enclosing (read .outer {} {} (tokenize source)).1 [] 0 line
  exact
    { descends_iff := fun _ => descends_iff
      nodup := descending.imp fun smaller same =>
        absurd smaller (by rw [same]; exact Nat.lt_irrefl _)
      chain
      outermost := fun scope isLast => Symbol.owner?_eq_none_iff.mpr (last scope isLast)
      mem_iff := by
        intro opensOne symbol
        rw [← Bool.and_eq_true]
        exact ⟨fun around => ⟨listed around, isOpenOn_of_mem_enclosing around⟩,
          fun ⟨found, isOpen⟩ => mem_enclosing_of_isOpenOn laminar placed opensOne found isOpen⟩ }

/-- A namespace with a class with two methods, on lines of their own. -/
def nestedSource : String :=
  "namespace N \x7b\nclass C \x7b\nfunction f() \x7b\nvar v;\n\x7d\nfunction g() \x7b\x7d\n\x7d\n\x7d"

/-- The tokens of that document. -/
def nestedTokens : List Token :=
  [⟨.keyword, "namespace", 1, 0⟩, ⟨.text, "N", 1, 10⟩, ⟨.braceOpen, "\x7b", 1, 12⟩,
    ⟨.keyword, "class", 2, 0⟩, ⟨.text, "C", 2, 6⟩, ⟨.braceOpen, "\x7b", 2, 8⟩,
    ⟨.keyword, "function", 3, 0⟩, ⟨.text, "f", 3, 9⟩, ⟨.parenthesisOpen, "(", 3, 10⟩,
    ⟨.parenthesisClose, ")", 3, 11⟩, ⟨.braceOpen, "\x7b", 3, 13⟩, ⟨.keyword, "var", 4, 0⟩,
    ⟨.text, "v", 4, 4⟩, ⟨.semicolon, ";", 4, 5⟩, ⟨.braceClose, "\x7d", 5, 0⟩,
    ⟨.keyword, "function", 6, 0⟩, ⟨.text, "g", 6, 9⟩, ⟨.parenthesisOpen, "(", 6, 10⟩,
    ⟨.parenthesisClose, ")", 6, 11⟩, ⟨.braceOpen, "\x7b", 6, 13⟩, ⟨.braceClose, "\x7d", 6, 14⟩,
    ⟨.braceClose, "\x7d", 7, 0⟩, ⟨.braceClose, "\x7d", 8, 0⟩]

/-- In the first method the scopes around the line are that method, the class and the namespace. -/
theorem enclosing_ofTokens_nestedSource :
    let outline := Outline.ofTokens (tokenize nestedSource)
    outline.OpensOne 4 ∧ (outline.enclosing 4).map (·.name) = ["f", "C", "N"] ∧
      ∀ symbol, symbol ∈ outline.enclosing 4 ↔
        symbol ∈ outline.symbols ∧ symbol.declaration.isScope ∧ symbol.lines.contains 4 := by
  have read : tokenize nestedSource = nestedTokens := by decide +kernel
  have around := enclosing_ofTokens nestedSource 4
  rw [read] at around ⊢
  have apart : (Outline.ofTokens nestedTokens).symbols.all fun scope =>
      (Outline.ofTokens nestedTokens).symbols.all fun other =>
        decide (scope.owner? = other.owner? → scope.isOpenOn 4 → other.isOpenOn 4 →
          scope = other) := by cbv
  have opensOne : (Outline.ofTokens nestedTokens).OpensOne 4 := by
    intro scope listed other otherListed
    exact of_decide_eq_true (List.all_eq_true.mp (List.all_eq_true.mp apart scope listed) other
      otherListed)
  exact ⟨opensOne, by cbv, around.mem_iff opensOne⟩

end ScriptLens
