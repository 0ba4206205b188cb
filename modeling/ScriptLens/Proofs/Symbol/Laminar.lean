import ScriptLens.Proofs.Symbol.Holders
import ScriptLens.Proofs.Token.SourceLines

/-! # Laminar line ranges
As long as the lines of the tokens never go back, the lines of a declaration enclose those of its
members, and declarations side by side follow each other. This also holds where brackets are
missing, since a declaration never reaches behind the last token that is read for it.
Main definitions:
* `Forest.Laminar`: forests whose line ranges nest and follow each other within some bounds.
* `Outline.Laminar`: the same for symbols, said with owners and numbers.
Main statement:
* `laminar_ofTokens`: the outlines of tokens in line order, and so those of all sources, are
  laminar. -/

namespace ScriptLens

open Reader

/-! ## Forests -/

/-- The line ranges of a forest nest and follow each other between the lines `low` and `high`. -/
def Forest.Laminar (low high : Nat) : Forest Declaration → Prop
  | nil => True
  | cons declaration below beside =>
    low ≤ declaration.lines.first ∧ declaration.lines.last ≤ high ∧
      Laminar declaration.lines.first declaration.lines.last below ∧
      Laminar declaration.lines.last high beside

/-- The lower bound of a laminar forest may be lowered. -/
theorem Forest.Laminar.mono_low {low lower high : Nat} {forest : Forest Declaration}
    (laminar : forest.Laminar low high) (le : lower ≤ low) : forest.Laminar lower high := by
  cases forest with
  | nil => trivial
  | cons declaration below beside => exact ⟨Nat.le_trans le laminar.1, laminar.2⟩

/-- Leaves on single lines in line order may stand before a laminar forest that starts behind
them. -/
theorem Forest.Laminar.withLeaves {low middle high : Nat} {leaves : List Declaration}
    {names : List Token} {forest : Forest Declaration} (laminar : forest.Laminar middle high)
    (declared : List.Forall₂
      (fun declaration name => ∃ typeName, declaration = .ofParameter typeName name) leaves names)
    (ordered : InLineOrder names) (within : ∀ name ∈ names, low ≤ name.line ∧ name.line ≤ middle)
    (lowest : low ≤ middle) (highest : middle ≤ high) :
    (forest.withLeaves leaves).Laminar low high := by
  induction declared generalizing low with
  | nil => exact laminar.mono_low lowest
  | @cons declaration name leaves names hd tl ih =>
    obtain ⟨typeName, rfl⟩ := hd
    obtain ⟨here, later⟩ := List.forall_mem_cons.mp within
    obtain ⟨before, ordered⟩ := List.pairwise_cons.mp ordered
    -- A parameter takes up the line of its name, which bounds the parameters behind it.
    have single : (Declaration.ofParameter typeName name).lines.last = name.line :=
      Nat.max_self name.line
    refine ⟨here.1, ?_, trivial, ?_⟩
    · rw [single]
      exact Nat.le_trans here.2 highest
    · rw [single]
      exact ih ordered (fun other listed => ⟨before other listed, (later other listed).2⟩) here.2

/-! ## Reading in line order -/

/-- The last of some tokens in line order is on the last line. -/
theorem line_le_getLastD {tokens : List Token} (ordered : InLineOrder tokens) {token : Token}
    (listed : token ∈ tokens) (name : Token) : token.line ≤ (tokens.getLastD name).line := by
  have nonempty : tokens ≠ [] := List.ne_nil_of_mem listed
  rw [List.getLastD_eq_getLast?, List.getLast?_eq_some_getLast nonempty]
  rw [← List.dropLast_concat_getLast nonempty] at listed ordered
  rcases List.mem_append.mp listed with earlier | last
  · exact (List.pairwise_append.mp ordered).2.2 token earlier _ List.mem_cons_self
  · rw [List.mem_singleton.mp last]
    exact Nat.le_refl _

/-- The first of some tokens in line order, or what stands before all of them, is on no later line
than any token behind them. -/
theorem getLastD_line_le {name : Token} {tokens later : List Token}
    (ordered : InLineOrder (name :: (tokens ++ later))) :
    name.line ≤ (tokens.getLastD name).line ∧
      ∀ token ∈ later, (tokens.getLastD name).line ≤ token.line := by
  obtain ⟨first, ordered⟩ := List.pairwise_cons.mp ordered
  have between := (List.pairwise_append.mp ordered).2.2
  have last : tokens.getLastD name ∈ name :: tokens := List.getLastD_mem_cons
  rcases List.mem_cons.mp last with same | listed
  · rw [same]
    exact ⟨Nat.le_refl _, fun token found => first token (List.mem_append_right _ found)⟩
  · exact ⟨first _ (List.mem_append_left _ listed), between _ listed⟩

/-- A declaration is laminar with its members and what stands beside it, if these are as soon as
their tokens lie within bounds. -/
theorem laminar_of_fits {layout : Layout} {tokens rest : List Token} {found : Found}
    {inner beside : Forest Declaration} {low high : Nat} (fits : layout.Fits tokens found rest)
    (ordered : InLineOrder tokens) (within : ∀ token ∈ tokens, low ≤ token.line ∧ token.line ≤ high)
    (innerLaminar : ∀ low high, (∀ token ∈ found.body, low ≤ token.line ∧ token.line ≤ high) →
      inner.Laminar low high)
    (besideLaminar : ∀ low high, (∀ token ∈ rest, low ≤ token.line ∧ token.line ≤ high) →
      beside.Laminar low high) :
    (Forest.cons found.declaration (inner.withLeaves found.parameters) beside).Laminar
      low high := by
  have parts := fits.name_window_body_rest_sublist
  have subset := parts.subset
  have ordered : InLineOrder (layout.name :: (layout.window ++ found.body ++ rest)) :=
    ordered.sublist parts
  have spanOrdered : InLineOrder (layout.window ++ found.body) :=
    (List.pairwise_append.mp (List.pairwise_cons.mp ordered).2).1
  -- The name comes before the last token of the span, and that one before the rest; the same is
  -- said of the parameter list alone.
  obtain ⟨nameLe, lastLe⟩ := getLastD_line_le ordered
  rw [List.append_assoc] at ordered
  obtain ⟨nameLeWindow, windowLe⟩ := getLastD_line_le ordered
  have first : found.declaration.lines.first = layout.name.line := by
    rw [fits.lines_eq]
    rfl
  have last : found.declaration.lines.last =
      ((layout.window ++ found.body).getLastD layout.name).line := by
    rw [fits.lines_eq]
    exact Nat.max_eq_right nameLe
  obtain ⟨names, sublist, declared⟩ := exists_parameters_names layout.window
  refine ⟨?_, ?_, ?_, ?_⟩
  · rw [first]
    exact (within _ (subset List.mem_cons_self)).1
  · rw [last]
    refine (within _ (subset ?_)).2
    rw [← List.cons_append]
    exact List.mem_append_left _ List.getLastD_mem_cons
  · -- The parameters lie before the last token of the parameter list, the body behind it.
    rw [first, last, fits.parameters_eq]
    refine Forest.Laminar.withLeaves (innerLaminar _ _ fun token listed => ⟨?_, ?_⟩) declared ?_
      (fun name listed => ⟨?_, ?_⟩) nameLeWindow ?_
    · exact windowLe token (List.mem_append_left _ listed)
    · exact line_le_getLastD spanOrdered (List.mem_append_right _ listed) _
    · exact (List.pairwise_append.mp spanOrdered).1.sublist sublist
    · exact (List.pairwise_cons.mp ordered).1 name
        (List.mem_append_left _ (sublist.subset listed))
    · exact line_le_getLastD (List.pairwise_append.mp spanOrdered).1 (sublist.subset listed) _
    · have windowLast : layout.window.getLastD layout.name ∈ layout.name :: layout.window :=
        List.getLastD_mem_cons
      rcases List.mem_cons.mp windowLast with same | listed
      · rw [same]
        exact nameLe
      · exact line_le_getLastD spanOrdered (List.mem_append_left _ listed) _
  · rw [last]
    refine besideLaminar _ _ fun token listed => ⟨lastLe token listed, (within token ?_).2⟩
    exact subset (List.mem_cons_of_mem _ (List.mem_append_right _ listed))

/-- Tokens in line order are read into a laminar forest, between the bounds of their lines. -/
theorem laminar_read (region : Region) (context : Context) (access : Access) (tokens : List Token)
    (ordered : InLineOrder tokens) (low high : Nat)
    (within : ∀ token ∈ tokens, low ≤ token.line ∧ token.line ≤ high) :
    (read region context access tokens).1.Laminar low high := by
  refine read_induction (motive := fun _ tokens forest => InLineOrder tokens → ∀ low high,
    (∀ token ∈ tokens, low ≤ token.line ∧ token.line ≤ high) → forest.Laminar low high) ?_ ?_ ?_
    region context access tokens ordered low high within
  · exact fun region _ low high _ => trivial
  · intro region tokens rest forest suffix ih ordered low high within
    exact ih (ordered.sublist suffix.sublist) low high
      fun token listed => within token (suffix.subset listed)
  · intro region tokens found rest inner beside finds _ innerIh besideIh ordered low high within
    obtain ⟨layout, fits⟩ := finds.layout
    have parts := ordered.sublist fits.name_window_body_rest_sublist
    have parts := List.pairwise_append.mp (List.pairwise_cons.mp parts).2
    refine laminar_of_fits fits ordered within (innerIh ?_) (besideIh parts.2.1)
    exact (List.pairwise_append.mp parts.1).2.1

/-! ## Outlines -/

/-- The line ranges of an outline nest as the symbols do, and those of neighbours follow each
other. -/
structure Outline.Laminar (outline : Outline) : Prop where
  /-- The lines of a symbol lie in those of its owner, of the owner of that one, and so on. -/
  nested : ∀ symbol ∈ outline.symbols, ∀ owner, Relation.TransGen Symbol.Owns owner symbol →
    owner.lines.encloses symbol.lines
  /-- Of two symbols with the same owner the first one ends before or where the second starts. -/
  ordered : ∀ left ∈ outline.symbols, ∀ right ∈ outline.symbols, left.owner? = right.owner? →
    left.id < right.id → left.lines.last ≤ right.lines.first
  /-- Two symbols with the same owner share at most one line. -/
  shared : ∀ left ∈ outline.symbols, ∀ right ∈ outline.symbols, left.owner? = right.owner? →
    left.id ≠ right.id → ∀ line other, left.lines.contains line → right.lines.contains line →
      left.lines.contains other → right.lines.contains other → line = other

/-- Below a declaration of a laminar forest the lines lie in those of the declaration. -/
theorem Forest.Laminar.below {low high : Nat} {forest : Forest Declaration}
    {node : Declaration × Forest Declaration} (laminar : forest.Laminar low high)
    (found : node ∈ forest.subtrees) :
    node.2.Laminar node.1.lines.first node.1.lines.last := by
  induction forest generalizing low high with
  | nil => exact absurd found List.not_mem_nil
  | cons declaration below beside belowInduction besideInduction =>
    rcases mem_subtrees_cons.mp found with rfl | inside | outside
    · exact laminar.2.2.1
    · exact belowInduction laminar.2.2.1 inside
    · exact besideInduction laminar.2.2.2 outside

/-- All lines of a laminar forest lie between its bounds. -/
theorem Forest.Laminar.bounds {low high first : Nat} {owners : List Entry}
    {forest : Forest Declaration} {symbol : Symbol} (laminar : forest.Laminar low high)
    (found : symbol ∈ (forest.number owners first).toList) :
    low ≤ symbol.lines.first ∧ symbol.lines.last ≤ high := by
  induction forest generalizing owners first low high with
  | nil => exact absurd found List.not_mem_nil
  | cons declaration below beside belowInduction besideInduction =>
    obtain ⟨lowest, highest, inner, outer⟩ := laminar
    have proper := declaration.lines.first_le_last
    rcases mem_toList_cons.mp found with rfl | inside | outside
    · exact ⟨lowest, highest⟩
    · have bounds := belowInduction inner inside
      exact ⟨Nat.le_trans lowest bounds.1, Nat.le_trans bounds.2 highest⟩
    · have bounds := besideInduction outer outside
      exact ⟨Nat.le_trans (Nat.le_trans lowest proper) bounds.1, bounds.2⟩

/-- The tops of a laminar forest follow each other. -/
theorem Forest.Laminar.tops_ordered {low high first : Nat} {owners : List Entry}
    {forest : Forest Declaration} {left right : Symbol} (laminar : forest.Laminar low high)
    (hleft : left ∈ (forest.number owners first).tops)
    (hright : right ∈ (forest.number owners first).tops) (smaller : left.id < right.id) :
    left.lines.last ≤ right.lines.first := by
  induction forest generalizing first low with
  | nil => exact absurd hleft List.not_mem_nil
  | cons declaration below beside _ besideInduction =>
    have inside {symbol : Symbol}
        (found : symbol ∈ (beside.number owners (first + 1 + below.size)).tops) :
        symbol ∈ (beside.number owners (first + 1 + below.size)).toList := by
      obtain ⟨node, root, rfl⟩ := List.mem_map.mp found
      exact mem_toList_of_mem_subtrees (roots_subset_subtrees _ root)
    rcases List.mem_cons.mp hleft with rfl | leftLater
    · rcases List.mem_cons.mp hright with rfl | rightLater
      · exact absurd smaller (Nat.lt_irrefl _)
      · exact (laminar.2.2.2.bounds (inside rightLater)).1
    · rcases List.mem_cons.mp hright with rfl | rightLater
      · -- The left one is numbered after the first root, so it cannot come before it.
        have bounds := id_bounds_of_mem (inside leftLater)
        have smaller : left.id < first := smaller
        omega
      · exact besideInduction laminar.2.2.2 leftLater rightLater

/-- What lies in the document or in a symbol of a laminar forest is laminar. -/
theorem exists_laminar_of_mem_holders {low high : Nat} {forest : Forest Declaration}
    {holder : Option Symbol × Outline} (laminar : forest.Laminar low high)
    (listed : holder ∈ Outline.holders (forest.number [] 0)) :
    ∃ (inner : Forest Declaration) (owners : List Entry) (first low high : Nat),
      holder.2 = inner.number owners first ∧ inner.Laminar low high := by
  rcases List.mem_cons.mp listed with rfl | below
  · exact ⟨forest, [], 0, low, high, rfl, laminar⟩
  · obtain ⟨node, subtree, rfl⟩ := List.mem_map.mp below
    obtain ⟨inner, original, eq⟩ := Forest.mem_subtrees_number subtree
    exact ⟨inner, _, _, _, _, eq, laminar.below original⟩

/-- In a laminar forest owners enclose what they own. -/
theorem Forest.Laminar.nested {low high : Nat} {forest : Forest Declaration} {owner symbol : Symbol}
    (laminar : forest.Laminar low high) (found : symbol ∈ (forest.number [] 0).toList)
    (owned : Relation.TransGen Symbol.Owns owner symbol) : owner.lines.encloses symbol.lines := by
  rcases exists_of_owner_suffix found (Symbol.transGen_owns_iff.mp owned) with
    around | ⟨below, listed, lies⟩
  · exact absurd (List.suffix_nil.mp around) (List.cons_ne_nil _ _)
  · obtain ⟨inner, original, eq⟩ := mem_subtrees_number listed
    dsimp only at eq original
    rw [eq] at lies
    obtain ⟨lowest, highest⟩ := (laminar.below original).bounds lies
    rw [LineRange.encloses, Bool.and_eq_true, decide_eq_true_eq, decide_eq_true_eq]
    exact ⟨lowest, highest⟩

/-- In a laminar forest symbols with the same owner follow each other. -/
theorem Forest.Laminar.ordered {low high : Nat} {forest : Forest Declaration} {left right : Symbol}
    (laminar : forest.Laminar low high) (hleft : left ∈ (forest.number [] 0).toList)
    (hright : right ∈ (forest.number [] 0).toList) (same : left.owner? = right.owner?)
    (smaller : left.id < right.id) : left.lines.last ≤ right.lines.first := by
  obtain ⟨holder, listed, leftTop⟩ := mem_symbols_iff.mp hleft
  have rightTop : right ∈ holder.2.tops :=
    (mem_tops_iff listed hright).mpr (same ▸ owner?_of_mem_tops listed leftTop)
  obtain ⟨inner, owners, first, low, high, eq, innerLaminar⟩ :=
    exists_laminar_of_mem_holders laminar listed
  rw [eq] at leftTop rightTop
  exact innerLaminar.tops_ordered leftTop rightTop smaller

/-- Ranges of which one ends before or where the other starts share at most one line. -/
theorem LineRange.eq_of_contains {left right : LineRange} (before : left.last ≤ right.first)
    {line other : Nat} (hline : left.contains line ∧ right.contains line)
    (hother : left.contains other ∧ right.contains other) : line = other := by
  simp only [contains, Bool.and_eq_true, decide_eq_true_eq] at hline hother
  omega

/-- A numbered forest with laminar lines is a laminar outline. -/
theorem laminar_number {low high : Nat} {forest : Forest Declaration}
    (laminar : forest.Laminar low high) : Outline.Laminar (forest.number [] 0) where
  nested symbol found owner owned := laminar.nested found owned
  ordered left hleft right hright same smaller := laminar.ordered hleft hright same smaller
  shared left hleft right hright same differs line other hline hline' hother hother' := by
    rcases Nat.lt_or_gt_of_ne differs with smaller | greater
    · exact LineRange.eq_of_contains (laminar.ordered hleft hright same smaller)
        ⟨hline, hline'⟩ ⟨hother, hother'⟩
    · exact LineRange.eq_of_contains (laminar.ordered hright hleft same.symm greater)
        ⟨hline', hline⟩ ⟨hother', hother⟩

/-- Tokens in line order are read into a laminar forest. -/
theorem exists_laminar_read {tokens : List Token} (ordered : InLineOrder tokens) :
    ∃ high, (read .outer {} {} tokens).1.Laminar 0 high := by
  refine ⟨(tokens.getLastD .missing).line, laminar_read .outer {} {} tokens ordered _ _ ?_⟩
  exact fun token listed => ⟨Nat.zero_le _, line_le_getLastD ordered listed _⟩

/-- Tokens in line order have a laminar outline. -/
theorem laminar_of_inLineOrder {tokens : List Token} (ordered : InLineOrder tokens) :
    (Outline.ofTokens tokens).Laminar := by
  obtain ⟨high, laminar⟩ := exists_laminar_read ordered
  exact laminar_number laminar

/-- **Line ranges are laminar**: those of the outline of tokens in line order are, and so those of
the outline of every source. -/
theorem laminar_ofTokens :
    (∀ tokens, InLineOrder tokens → (Outline.ofTokens tokens).Laminar) ∧
      ∀ source, (Outline.ofTokens (tokenize source)).Laminar :=
  ⟨fun _ ordered => laminar_of_inLineOrder ordered,
    fun source => laminar_of_inLineOrder (inLineOrder_tokenize source)⟩

/-- A class with a method, then a namespace that is never closed. -/
def brokenTokens : List Token :=
  [{ kind := .keyword, lexeme := "class", line := 1, column := 0 },
    { kind := .text, lexeme := "A", line := 1, column := 6 },
    { kind := .braceOpen, lexeme := "\x7b", line := 1, column := 8 },
    { kind := .keyword, lexeme := "function", line := 2, column := 2 },
    { kind := .text, lexeme := "f", line := 2, column := 11 },
    { kind := .parenthesisOpen, lexeme := "(", line := 2, column := 12 },
    { kind := .text, lexeme := "x", line := 3, column := 4 },
    { kind := .braceClose, lexeme := "\x7d", line := 4, column := 0 },
    { kind := .keyword, lexeme := "namespace", line := 4, column := 2 },
    { kind := .text, lexeme := "N", line := 4, column := 12 },
    { kind := .braceOpen, lexeme := "\x7b", line := 5, column := 0 },
    { kind := .keyword, lexeme := "var", line := 6, column := 2 }]

/-- Brackets that never close leave the lines laminar. -/
theorem laminar_brokenTokens :
    InLineOrder brokenTokens ∧ (Outline.ofTokens brokenTokens).Laminar :=
  have ordered : InLineOrder brokenTokens := by unfold InLineOrder; decide
  ⟨ordered, laminar_ofTokens.1 brokenTokens ordered⟩

end ScriptLens
