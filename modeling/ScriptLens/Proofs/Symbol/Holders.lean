import Mathlib.Data.List.Chain
import Mathlib.Data.List.Perm.Basic
import ScriptLens.Proofs.Symbol.Numbering
import ScriptLens.Proofs.Symbol.Reading
import ScriptLens.Query.Visible

/-! # Holders and their members
The document and every scope in it hold what lies directly in them. Which kinds a holder may hold
depends on its own kind, and what is read keeps to that. Every symbol has exactly one holder, its
owner, and walks along the members stay inside the outline.
Main definitions:
* `mayHold`, `Forest.Placed`: which declarations may lie in which, and forests that keep to it.
* `Outline.holders`: the document and all symbols, each with what lies in it.
Main statements:
* `placed_read`: whatever is read is placed.
* `mem_tops_iff`, `flatMap_tops_perm`: a symbol lies directly in its owner and in nothing else.
* `arrange_perm`: an order of all kinds leaves out no member. -/

namespace ScriptLens

open Reader

/-! ## Kinds of members -/

/-- Whether a declaration of one kind may lie directly in an owner of another kind, where `none`
stands for the document. -/
def mayHold : Option Declaration.Kind → Declaration.Kind → Bool
  | none, kind => kind ≠ .parameterDecl
  | some .namespaceDecl, kind => kind ≠ .parameterDecl
  | some .classDecl, kind => kind = .functionDecl || kind = .variableDecl
  | some .functionDecl, kind => kind = .parameterDecl || kind = .variableDecl
  | some .parameterDecl, _ => false
  | some .variableDecl, _ => false

/-- A forest in which every declaration lies in an owner that may hold it; `owner` is the kind of
what lies around the forest. -/
def Forest.Placed (owner : Option Declaration.Kind) : Forest Declaration → Prop
  | nil => True
  | cons declaration below beside =>
    mayHold owner declaration.kind ∧ Placed (some declaration.kind) below ∧ Placed owner beside

/-- Leaves in front of a forest are placed if each of them is. -/
theorem Forest.Placed.withLeaves {owner : Option Declaration.Kind} {leaves : List Declaration}
    {forest : Forest Declaration} (placed : forest.Placed owner)
    (allowed : ∀ leaf ∈ leaves, mayHold owner leaf.kind) :
    (forest.withLeaves leaves).Placed owner := by
  induction leaves with
  | nil => exact placed
  | cons leaf leaves ih =>
    refine ⟨allowed leaf List.mem_cons_self, trivial, ih fun other listed => ?_⟩
    exact allowed other (List.mem_cons_of_mem _ listed)

/-- What a parameter list declares are parameters. -/
theorem kind_of_mem_parameters {window : List Token} {declaration : Declaration}
    (found : declaration ∈ parameters window) : declaration.kind = .parameterDecl := by
  obtain ⟨segment, -, read⟩ := List.mem_filterMap.mp found
  obtain ⟨typeName, name, -, rfl⟩ := parameter?_eq_some read
  rfl

/-- Everything that is read is placed. -/
theorem placed_read (region : Region) (context : Context) (access : Access) (tokens : List Token) :
    ∀ owner, (∀ kind, region.holds kind → mayHold owner kind) →
      (read region context access tokens).1.Placed owner := by
  refine read_induction (motive := fun region _ forest => ∀ owner,
    (∀ kind, region.holds kind → mayHold owner kind) → forest.Placed owner) ?_ ?_ ?_ region context
    access tokens
  · exact fun region owner _ => trivial
  · exact fun region tokens rest forest _ ih => ih
  · intro region tokens found rest inner beside finds bare innerIh besideIh owner allowed
    obtain ⟨holds, coherent⟩ := finds.holds_and_coherent
    obtain ⟨layout, fits⟩ := finds.layout
    refine ⟨allowed _ holds, ?_, besideIh owner allowed⟩
    -- One case for each kind of the found declaration, which settles how its body was read.
    unfold Found.Coherent at coherent
    split at coherent
    · next kind =>
      rw [coherent.2, kind]
      exact innerIh _ (by rw [coherent.1]; exact fun _ h => h)
    · next kind =>
      rw [coherent.2, kind]
      exact innerIh _ (by rw [coherent.1]; exact fun _ h => h)
    · next kind =>
      rw [fits.parameters_eq, kind]
      refine Forest.Placed.withLeaves (innerIh _ ?_) fun leaf listed => ?_
      · rw [coherent]
        exact fun _ h => by simp [mayHold, of_decide_eq_true h]
      · rw [kind_of_mem_parameters listed]
        rfl
    · exact coherent.elim
    · rw [bare coherent.1, coherent.2]
      trivial

/-- Below a placed declaration everything is placed as its kind demands. -/
theorem Forest.Placed.below {owner : Option Declaration.Kind} {forest : Forest Declaration}
    {node : Declaration × Forest Declaration} (placed : forest.Placed owner)
    (found : node ∈ forest.subtrees) : node.2.Placed (some node.1.kind) := by
  induction forest generalizing owner with
  | nil => exact absurd found List.not_mem_nil
  | cons declaration below beside belowInduction besideInduction =>
    rcases mem_subtrees_cons.mp found with rfl | inside | outside
    · exact placed.2.1
    · exact belowInduction placed.2.1 inside
    · exact besideInduction placed.2.2 outside

/-- The tops of a placed forest are of the kinds that may lie there. -/
theorem Forest.Placed.mayHold_of_mem_tops {owner : Option Declaration.Kind}
    {forest : Forest Declaration} {owners : List Entry} {first : Nat} {symbol : Symbol}
    (placed : forest.Placed owner) (found : symbol ∈ (forest.number owners first).tops) :
    mayHold owner symbol.kind := by
  induction forest generalizing first with
  | nil => exact absurd found List.not_mem_nil
  | cons declaration below beside _ besideInduction =>
    rcases List.mem_cons.mp found with rfl | later
    · exact placed.1
    · exact besideInduction placed.2.2 later

/-! ## Orders -/

/-- Members in the order of some kinds are all the members, if no kind is missing or named twice. -/
theorem arrange_perm {β : Type} {order : List Declaration.Kind} {members : List (Symbol × β)}
    (nodup : order.Nodup) (covered : ∀ member ∈ members, member.1.kind ∈ order) :
    (arrange order members).Perm members := by
  induction order generalizing members with
  | nil =>
    have none : members = [] :=
      List.eq_nil_iff_forall_not_mem.mpr fun member found =>
        List.not_mem_nil (covered member found)
    rw [none]
    exact List.Perm.refl []
  | cons kind order ih =>
    obtain ⟨fresh, nodup⟩ := List.nodup_cons.mp nodup
    -- Members of the first kind go to the front; to the other kinds they make no difference.
    have others : arrange order members = arrange order (members.filter (·.1.kind ≠ kind)) := by
      unfold arrange
      refine List.flatMap_congr fun other listed => ?_
      rw [List.filter_filter]
      refine List.filter_congr fun member _ => ?_
      by_cases same : member.1.kind = other
      · have differs : member.1.kind ≠ kind := fun eq => fresh (eq ▸ same ▸ listed)
        simp [same, same ▸ differs]
      · simp [same]
    have rest : (arrange order (members.filter (·.1.kind ≠ kind))).Perm
        (members.filter (·.1.kind ≠ kind)) := by
      refine ih nodup fun member found => ?_
      obtain ⟨found, differs⟩ := List.mem_filter.mp found
      exact (List.mem_cons.mp (covered member found)).resolve_left (by simpa using differs)
    have parted : arrange (kind :: order) members =
        members.filter (·.1.kind = kind) ++ arrange order members := rfl
    rw [parted, others]
    refine (rest.append_left _).trans ?_
    simpa using List.filter_append_perm (fun member => member.1.kind = kind) members

/-! ## Holders -/

/-- The document and all symbols, each with what lies in it. -/
def Outline.holders (outline : Outline) : List (Option Symbol × Outline) :=
  (none, outline) :: outline.subtrees.map fun (symbol, below) => (some symbol, below)

/-- Every symbol is a holder, with what lies in it. -/
theorem Outline.mem_holders_of_mem_subtrees {outline : Outline} {node : Symbol × Outline}
    (listed : node ∈ outline.subtrees) : (some node.1, node.2) ∈ outline.holders :=
  List.mem_cons_of_mem _ (List.mem_map_of_mem listed)

section

variable {outline : Outline} {holder : Option Symbol × Outline} {node : Symbol × Outline}

/-- What lies directly in a holder is a subtree of the outline. -/
theorem Outline.mem_subtrees_of_mem_roots (listed : holder ∈ outline.holders)
    (root : node ∈ holder.2.roots) : node ∈ outline.subtrees := by
  have subtree := Forest.roots_subset_subtrees _ root
  rcases List.mem_cons.mp listed with rfl | below
  · exact subtree
  · obtain ⟨outer, outerSubtree, rfl⟩ := List.mem_map.mp below
    exact Forest.subtrees_trans outerSubtree subtree

/-- What lies directly in a holder is a holder. -/
theorem Outline.mem_holders_of_mem_roots (listed : holder ∈ outline.holders)
    (root : node ∈ holder.2.roots) : (some node.1, node.2) ∈ outline.holders :=
  mem_holders_of_mem_subtrees (mem_subtrees_of_mem_roots listed root)

end

section

variable {forest : Forest Declaration} {holder : Option Symbol × Outline}

/-- What lies directly in a holder may lie there. -/
theorem mayHold_of_mem_holders (placed : forest.Placed none)
    (listed : holder ∈ Outline.holders (forest.number [] 0)) :
    ∀ symbol ∈ holder.2.tops, mayHold (holder.1.map (·.kind)) symbol.kind := by
  intro symbol found
  rcases List.mem_cons.mp listed with rfl | inner
  · exact placed.mayHold_of_mem_tops found
  · obtain ⟨node, subtree, rfl⟩ := List.mem_map.mp inner
    obtain ⟨below, original, eq⟩ := Forest.mem_subtrees_number subtree
    have found : symbol ∈ node.2.tops := found
    rw [eq] at found
    exact (placed.below original).mayHold_of_mem_tops found

/-- What lies directly in a holder has that holder as its owner. -/
theorem owner?_of_mem_tops (listed : holder ∈ Outline.holders (forest.number [] 0))
    {symbol : Symbol} (found : symbol ∈ holder.2.tops) : symbol.owner? = holder.1 := by
  rcases List.mem_cons.mp listed with rfl | inner
  · unfold Symbol.owner?
    rw [Forest.owners_of_mem_tops found]
  · obtain ⟨node, subtree, rfl⟩ := List.mem_map.mp inner
    obtain ⟨below, -, eq⟩ := Forest.mem_subtrees_number subtree
    have found : symbol ∈ node.2.tops := found
    rw [eq] at found
    exact Symbol.owns_iff.mpr (Forest.owners_of_mem_tops found)

/-- A holder is known by the symbol it belongs to. -/
theorem holder_eq_of_fst_eq {other : Option Symbol × Outline}
    (listed : holder ∈ Outline.holders (forest.number [] 0))
    (otherListed : other ∈ Outline.holders (forest.number [] 0)) (h : holder.1 = other.1) :
    holder = other := by
  rcases List.mem_cons.mp listed with rfl | inner
  · rcases List.mem_cons.mp otherListed with rfl | otherInner
    · rfl
    · obtain ⟨node, -, rfl⟩ := List.mem_map.mp otherInner
      exact absurd h (Option.some_ne_none _).symm
  · obtain ⟨node, subtree, rfl⟩ := List.mem_map.mp inner
    rcases List.mem_cons.mp otherListed with rfl | otherInner
    · exact absurd h (Option.some_ne_none _)
    · obtain ⟨otherNode, otherSubtree, rfl⟩ := List.mem_map.mp otherInner
      rw [Forest.eq_of_fst_eq subtree otherSubtree (Option.some.inj h)]

/-- Everything lies directly in one of the holders, and in one only. -/
theorem flatMap_tops_perm (outline : Outline) :
    (outline.holders.flatMap fun holder => holder.2.tops).Perm outline.symbols := by
  have flat : outline.holders.flatMap (fun holder => holder.2.tops) =
      outline.tops ++ outline.subtrees.flatMap fun node => node.2.tops := by
    unfold Outline.holders
    rw [List.flatMap_cons, List.flatMap_map]
  rw [flat]
  exact Forest.tops_perm outline

/-- What an outline declares is what lies directly in one of its holders. -/
theorem mem_symbols_iff {outline : Outline} {symbol : Symbol} :
    symbol ∈ outline.symbols ↔ ∃ holder ∈ outline.holders, symbol ∈ holder.2.tops := by
  rw [← (flatMap_tops_perm outline).mem_iff, List.mem_flatMap]

/-- A symbol lies directly in the holder that is its owner. -/
theorem mem_tops_iff (listed : holder ∈ Outline.holders (forest.number [] 0)) {symbol : Symbol}
    (found : symbol ∈ Outline.symbols (forest.number [] 0)) :
    symbol ∈ holder.2.tops ↔ symbol.owner? = holder.1 := by
  constructor
  · exact owner?_of_mem_tops listed
  · intro owned
    obtain ⟨other, otherListed, lies⟩ := mem_symbols_iff.mp found
    -- Some holder has the symbol at its top; that one is its owner, and so it is this one.
    have same : holder = other :=
      holder_eq_of_fst_eq listed otherListed (owned ▸ owner?_of_mem_tops otherListed lies)
    rwa [same]

/-- A symbol lies in something that may hold it. -/
theorem mayHold_owner (placed : forest.Placed none) {symbol : Symbol}
    (found : symbol ∈ Outline.symbols (forest.number [] 0)) :
    mayHold (symbol.owner?.map (·.kind)) symbol.kind := by
  obtain ⟨holder, listed, lies⟩ := mem_symbols_iff.mp found
  rw [owner?_of_mem_tops listed lies]
  exact mayHold_of_mem_holders placed listed symbol lies

end

/-! ## Walks -/

/-- The scopes around a line are none, or those around it in a scope at the top and then that
scope. -/
theorem enclosing_cases (outline : Outline) (line : Nat) :
    outline.enclosing line = [] ∨
      ∃ node ∈ outline.roots,
        outline.enclosing line = Outline.enclosing node.2 line ++ [node.1] := by
  unfold Outline.enclosing
  rw [Forest.fold_eq]
  split
  · exact Or.inl rfl
  · next scope inner found =>
    obtain ⟨listed, -⟩ := mem_arrange.mp (List.mem_of_find?_eq_some found)
    obtain ⟨node, root, eq⟩ := List.mem_map.mp listed
    obtain ⟨rfl, rfl⟩ := Prod.mk.inj eq
    exact Or.inr ⟨node, root, rfl⟩

/-- The scopes around a line are symbols of the outline, and their numbers fall from the innermost
one to the outermost one. -/
theorem enclosing_descends (forest : Forest Declaration) (owners : List Entry) (first line : Nat) :
    Outline.enclosing (forest.number owners first) line ⊆ (forest.number owners first).toList ∧
      (Outline.enclosing (forest.number owners first) line).Pairwise
        fun inner outer => outer.id < inner.id := by
  induction forest using Forest.induction_below generalizing owners first with
  | step forest ih =>
    rcases enclosing_cases (forest.number owners first) line with none | ⟨node, root, eq⟩
    · rw [none]
      exact ⟨List.nil_subset _, List.Pairwise.nil⟩
    · have subtree := Forest.roots_subset_subtrees _ root
      have inside := Forest.toList_below_subset subtree
      obtain ⟨below, original, hbelow⟩ := Forest.mem_subtrees_number subtree
      obtain ⟨within, sorted⟩ :=
        ih _ original (node.1.toEntry :: node.1.owners) (node.1.id + 1)
      rw [← hbelow] at within sorted
      rw [eq]
      refine ⟨List.append_subset.mpr ⟨List.Subset.trans within inside, ?_⟩, ?_⟩
      · exact fun scope listed =>
          List.mem_singleton.mp listed ▸ Forest.mem_toList_of_mem_subtrees subtree
      · refine List.pairwise_append.mpr ⟨sorted, List.pairwise_singleton _ _, ?_⟩
        intro inner found scope listed
        rw [List.mem_singleton.mp listed]
        exact ((Forest.mem_below_iff_id subtree (inside (within found))).mp (within found)).1

/-- Looking a name up finds symbols of the outline only. -/
theorem mem_symbols_of_lookup? {outline : Outline} {name : String} {line : Nat} {symbol : Symbol}
    (h : outline.lookup? name line = some symbol) : symbol ∈ outline.symbols := by
  induction outline using Forest.induction_below with
  | step outline ih =>
    unfold Outline.lookup? at h
    rw [Forest.fold_eq, Option.orElse_eq_orElse, Option.orElse_eq_or, Option.or_eq_some_iff] at h
    rcases h with inner | ⟨-, direct⟩
    · -- Found further in, in the scope of a root.
      obtain ⟨⟨scope, result⟩, listed, found⟩ := List.exists_of_findSome?_eq_some inner
      obtain ⟨arranged, -⟩ := List.mem_filter.mp listed
      obtain ⟨node, root, eq⟩ := List.mem_map.mp (mem_arrange.mp arranged).1
      obtain ⟨rfl, rfl⟩ := Prod.mk.inj eq
      have subtree := Forest.roots_subset_subtrees _ root
      exact Forest.toList_below_subset subtree (ih node subtree found)
    · -- Found among the roots themselves.
      obtain ⟨member, listed, rfl⟩ := List.mem_map.mp (List.mem_of_find?_eq_some direct)
      obtain ⟨node, root, rfl⟩ := List.mem_map.mp (mem_arrange.mp listed).1
      exact Forest.mem_toList_of_mem_subtrees (Forest.roots_subset_subtrees _ root)

/-- Symbols of the outline only are offered. -/
theorem offered_subset_symbols (outline : Outline) (part : String) (line : Nat) :
    outline.offered part line ⊆ outline.symbols := by
  induction outline using Forest.induction_below with
  | step outline ih =>
    intro symbol found
    unfold Outline.offered at found
    rw [Forest.fold_eq] at found
    obtain ⟨⟨member, inner⟩, listed, among⟩ := List.mem_flatMap.mp found
    obtain ⟨node, root, eq⟩ := List.mem_map.mp (mem_arrange.mp listed).1
    obtain ⟨rfl, rfl⟩ := Prod.mk.inj eq
    have subtree := Forest.roots_subset_subtrees _ root
    rcases List.mem_append.mp among with below | itself
    · split at below
      · exact Forest.toList_below_subset subtree (ih node subtree below)
      · exact absurd below List.not_mem_nil
    · split at itself
      · rw [List.mem_singleton.mp itself]
        exact Forest.mem_toList_of_mem_subtrees subtree
      · exact absurd itself List.not_mem_nil

/-! ## Numbers as indexes -/

/-- The symbols are numbered from zero on. -/
@[simp] theorem map_id_symbols (forest : Forest Declaration) :
    (Outline.symbols (forest.number [] 0)).map (·.id) =
      List.range (forest.number [] 0).size := by
  rw [List.range_eq_range', Forest.size_number]
  exact Forest.map_id_number [] 0 forest

/-- The symbols in the order of their numbers have these numbers as their indexes. -/
theorem getElem?_id {forest : Forest Declaration} {symbol : Symbol}
    (found : symbol ∈ Outline.symbols (forest.number [] 0)) :
    (Outline.symbols (forest.number [] 0))[symbol.id]? = some symbol := by
  obtain ⟨index, found⟩ := List.getElem?_of_mem found
  -- The numbers count up from zero, so the number at an index is the index.
  have here : ((Outline.symbols (forest.number [] 0)).map (·.id))[index]? = some symbol.id := by
    rw [List.getElem?_map, found]
    rfl
  rw [map_id_symbols, List.getElem?_eq_some_iff] at here
  obtain ⟨bound, same⟩ := here
  rw [List.getElem_range] at same
  rw [← same]
  exact found

/-- The number of a symbol leads to the symbol with its members. -/
theorem get?_id {forest : Forest Declaration} {node : Symbol × Outline}
    (listed : node ∈ (forest.number [] 0).subtrees) :
    Outline.get? (forest.number [] 0) node.1.id = some node := by
  have here := getElem?_id (Forest.mem_toList_of_mem_subtrees listed)
  rw [Outline.symbols, ← Forest.map_fst_subtrees, List.getElem?_map] at here
  obtain ⟨other, found, same⟩ := Option.map_eq_some_iff.mp here
  rw [Outline.get?, found, Forest.eq_of_fst_eq (List.mem_of_getElem? found) listed same]

/-- The symbol that a number leads to has that number. -/
theorem id_of_get? {forest : Forest Declaration} {node : Symbol × Outline} {id : Nat}
    (found : Outline.get? (forest.number [] 0) id = some node) : node.1.id = id := by
  have here : ((Outline.symbols (forest.number [] 0)).map (·.id))[id]? = some node.1.id := by
    rw [Outline.symbols, ← Forest.map_fst_subtrees, List.map_map, List.getElem?_map]
    exact congrArg (Option.map _) found
  rw [map_id_symbols, List.getElem?_eq_some_iff] at here
  obtain ⟨bound, same⟩ := here
  rw [← same, List.getElem_range]

end ScriptLens
