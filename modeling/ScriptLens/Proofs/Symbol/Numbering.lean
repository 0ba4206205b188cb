import Mathlib.Data.List.Nodup
import Mathlib.Logic.Relation
import ScriptLens.Symbol.Outline

/-! # Numbered forests
Numbering turns a forest of declarations into a forest of symbols. The numbers, the owners and the
places in the forest then say the same thing in three ways.
Main statements:
* `tops_perm`: every element of a forest is once at the top of it or of what lies below an element.
* `mem_subtrees_number`: what lies below a symbol is numbered from the next number on.
* `mem_below_iff_owned`, `mem_below_iff_id`: the symbols below a symbol are those that it owns, and
  those with the numbers right after its own.
* `number_map`: declarations may be replaced before or after they are numbered. -/

namespace ScriptLens

/-! ## Tops and subtrees -/

namespace Forest

variable {α : Type}

/-- The elements at the top of a forest. -/
def tops (forest : Forest α) : List α :=
  forest.roots.map Prod.fst

/-- An element of a forest is its first root, or it lies below or beside that one. -/
@[simp, grind =] theorem mem_toList_cons {element root : α} {below beside : Forest α} :
    element ∈ (cons root below beside).toList ↔
      element = root ∨ element ∈ below.toList ∨ element ∈ beside.toList := by
  rw [toList, List.mem_cons, List.mem_append]

/-- A subtree of a forest is the first one, or it lies below or beside that one. -/
@[simp, grind =] theorem mem_subtrees_cons {node : α × Forest α} {root : α} {below beside : Forest α} :
    node ∈ (cons root below beside).subtrees ↔
      node = (root, below) ∨ node ∈ below.subtrees ∨ node ∈ beside.subtrees := by
  rw [subtrees, List.mem_cons, List.mem_append]

/-- Roots with what lies below them are among the subtrees. -/
theorem roots_subset_subtrees (forest : Forest α) : forest.roots ⊆ forest.subtrees := by
  induction forest with
  | nil => exact List.Subset.refl []
  | cons root below beside _ besideInduction =>
    intro node found
    rcases List.mem_cons.mp found with rfl | later
    · exact List.mem_cons_self
    · simp [besideInduction later]

/-- Subtrees of what lies below an element are subtrees. -/
theorem subtrees_trans {forest : Forest α} {node inner : α × Forest α}
    (outer : node ∈ forest.subtrees) (found : inner ∈ node.2.subtrees) :
    inner ∈ forest.subtrees := by
  induction forest with
  | nil => exact absurd outer List.not_mem_nil
  | cons root below beside belowInduction besideInduction =>
    rcases mem_subtrees_cons.mp outer with rfl | inside | outside
    · simp [found]
    · simp [belowInduction inside]
    · simp [besideInduction outside]

/-- The element of a subtree is an element. -/
theorem mem_toList_of_mem_subtrees {forest : Forest α} {node : α × Forest α}
    (found : node ∈ forest.subtrees) : node.1 ∈ forest.toList :=
  map_fst_subtrees forest ▸ List.mem_map_of_mem found

/-- An element has a subtree. -/
theorem exists_mem_subtrees {forest : Forest α} {element : α} (found : element ∈ forest.toList) :
    ∃ below, (element, below) ∈ forest.subtrees := by
  rw [← map_fst_subtrees, List.mem_map] at found
  obtain ⟨node, listed, rfl⟩ := found
  exact ⟨node.2, listed⟩

/-- What lies below an element lies in the forest. -/
theorem toList_below_subset {forest : Forest α} {node : α × Forest α}
    (outer : node ∈ forest.subtrees) : node.2.toList ⊆ forest.toList := by
  intro element found
  obtain ⟨below, listed⟩ := exists_mem_subtrees found
  exact mem_toList_of_mem_subtrees (subtrees_trans outer listed)

/-- Induction from what lies below the elements of a forest to the forest. -/
theorem induction_below {motive : Forest α → Prop}
    (step : ∀ forest, (∀ node ∈ forest.subtrees, motive node.2) → motive forest)
    (forest : Forest α) : motive forest := by
  refine step forest ?_
  -- For all subtrees at once the statement goes by the structure of the forest.
  induction forest with
  | nil => exact fun node found => absurd found List.not_mem_nil
  | cons root below beside belowInduction besideInduction =>
    intro node found
    rcases mem_subtrees_cons.mp found with rfl | inside | outside
    · exact step below belowInduction
    · exact belowInduction node inside
    · exact besideInduction node outside

/-- The elements at the top keep their order. -/
theorem tops_sublist_toList (forest : Forest α) :
    forest.tops.Sublist forest.toList := by
  induction forest with
  | nil => exact List.Sublist.refl []
  | cons root below beside _ besideInduction =>
    exact (besideInduction.trans (List.sublist_append_right _ _)).cons_cons root

/-- The tops of the forest and of what lies below each element are the elements, each of them
once. -/
theorem tops_perm (forest : Forest α) :
    (forest.tops ++ forest.subtrees.flatMap fun node => node.2.tops).Perm forest.toList := by
  induction forest with
  | nil => exact List.Perm.refl []
  | cons root below beside belowInduction besideInduction =>
    have parts := belowInduction.append besideInduction
    simp only [tops, roots, subtrees, toList, List.map_cons, List.flatMap_cons,
      List.flatMap_append, List.cons_append, List.perm_cons] at parts ⊢
    refine List.Perm.trans ?_ parts
    -- The tops beside move over everything below.
    rw [← List.append_assoc (below.roots.map Prod.fst)]
    exact List.perm_append_comm_assoc _ _ _

end Forest

/-! ## Numbers and owners -/

namespace Forest

/-- Numbering keeps the size. -/
@[simp] theorem size_number (owners : List Entry) (first : Nat) (forest : Forest Declaration) :
    (forest.number owners first).size = forest.size := by
  induction forest generalizing owners first with
  | nil => rfl
  | cons declaration below beside belowInduction besideInduction =>
    simp only [number, size, belowInduction, besideInduction]

/-- What lies below a symbol is numbered from the next number on, with the symbol as an owner. -/
theorem mem_subtrees_number {owners : List Entry} {first : Nat} {forest : Forest Declaration}
    {node : Symbol × Outline} (found : node ∈ (forest.number owners first).subtrees) :
    ∃ below, (node.1.declaration, below) ∈ forest.subtrees ∧
      node.2 = below.number (node.1.toEntry :: node.1.owners) (node.1.id + 1) := by
  induction forest generalizing owners first with
  | nil => exact absurd found List.not_mem_nil
  | cons declaration below beside belowInduction besideInduction =>
    rcases mem_subtrees_cons.mp found with rfl | inside | outside
    · exact ⟨below, List.mem_cons_self, rfl⟩
    · obtain ⟨inner, listed, eq⟩ := belowInduction inside
      exact ⟨inner, by simp [listed], eq⟩
    · obtain ⟨inner, listed, eq⟩ := besideInduction outside
      exact ⟨inner, by simp [listed], eq⟩

/-- The tops have exactly the owners around the forest. -/
theorem owners_of_mem_tops {owners : List Entry} {first : Nat} {forest : Forest Declaration}
    {symbol : Symbol} (found : symbol ∈ (forest.number owners first).tops) :
    symbol.owners = owners := by
  induction forest generalizing first with
  | nil => exact absurd found List.not_mem_nil
  | cons declaration below beside _ besideInduction =>
    rcases List.mem_cons.mp found with rfl | later
    · rfl
    · exact besideInduction later

/-- The owners around the forest own every symbol. -/
theorem owners_suffix_of_mem {owners : List Entry} {first : Nat} {forest : Forest Declaration}
    {symbol : Symbol} (found : symbol ∈ (forest.number owners first).toList) :
    owners <:+ symbol.owners := by
  induction forest generalizing owners first with
  | nil => exact absurd found List.not_mem_nil
  | cons declaration below beside belowInduction besideInduction =>
    rcases mem_toList_cons.mp found with rfl | inside | outside
    · exact List.suffix_refl _
    · exact (List.suffix_cons _ _).trans (belowInduction inside)
    · exact besideInduction outside

/-- A symbol that only the owners around the forest own is at the top. -/
theorem mem_tops_of_owners_eq {owners : List Entry} {first : Nat} {forest : Forest Declaration}
    {symbol : Symbol} (found : symbol ∈ (forest.number owners first).toList)
    (h : symbol.owners = owners) : symbol ∈ (forest.number owners first).tops := by
  induction forest generalizing first with
  | nil => exact absurd found List.not_mem_nil
  | cons declaration below beside _ besideInduction =>
    rcases mem_toList_cons.mp found with rfl | inside | outside
    · exact List.mem_cons_self
    · -- What lies below has one owner more.
      have longer := (owners_suffix_of_mem inside).length_le
      rw [h, List.length_cons] at longer
      omega
    · exact List.mem_cons_of_mem _ (besideInduction outside)

/-- An owner that is not around the forest is a symbol of it, and what it owns lies below it. -/
theorem exists_of_owner_suffix {owners : List Entry} {first : Nat} {forest : Forest Declaration}
    {symbol owner : Symbol} (found : symbol ∈ (forest.number owners first).toList)
    (owned : owner.toEntry :: owner.owners <:+ symbol.owners) :
    owner.toEntry :: owner.owners <:+ owners ∨
      ∃ below, (owner, below) ∈ (forest.number owners first).subtrees ∧ symbol ∈ below.toList := by
  induction forest generalizing owners first with
  | nil => exact absurd found List.not_mem_nil
  | cons declaration below beside belowInduction besideInduction =>
    rcases mem_toList_cons.mp found with rfl | inside | outside
    · exact Or.inl owned
    · rcases belowInduction inside with around | ⟨inner, listed, lies⟩
      · -- Either the root itself is the owner, or one of those around the forest.
        rcases List.suffix_cons_iff.mp around with eq | around
        · obtain ⟨eqEntry, eqOwners⟩ := List.cons.inj eq
          refine Or.inr ⟨_, List.mem_cons.mpr (Or.inl ?_), inside⟩
          obtain ⟨entry, ownerOwners⟩ := owner
          simp only at eqEntry eqOwners
          rw [eqEntry, eqOwners]
        · exact Or.inl around
      · exact Or.inr ⟨inner, mem_subtrees_cons.mpr (Or.inr (Or.inl listed)), lies⟩
    · rcases besideInduction outside with around | ⟨inner, listed, lies⟩
      · exact Or.inl around
      · exact Or.inr ⟨inner, mem_subtrees_cons.mpr (Or.inr (Or.inr listed)), lies⟩

/-- No two symbols have the same number. -/
theorem nodup_ids (owners : List Entry) (first : Nat) (forest : Forest Declaration) :
    ((forest.number owners first).toList.map (·.id)).Nodup := by
  rw [map_id_number]
  exact List.nodup_range'

/-- The numbers lie between the first one and the first one after the forest. -/
theorem id_bounds_of_mem {owners : List Entry} {first : Nat} {forest : Forest Declaration}
    {symbol : Symbol} (found : symbol ∈ (forest.number owners first).toList) :
    first ≤ symbol.id ∧ symbol.id < first + forest.size := by
  have listed : symbol.id ∈ (forest.number owners first).toList.map (·.id) :=
    List.mem_map_of_mem found
  rwa [map_id_number, List.mem_range'_1] at listed

/-- Every number between these bounds is the number of a symbol. -/
theorem exists_mem_of_id_bounds {owners : List Entry} {first : Nat} {forest : Forest Declaration}
    {id : Nat} (low : first ≤ id) (high : id < first + forest.size) :
    ∃ symbol ∈ (forest.number owners first).toList, symbol.id = id := by
  have listed : id ∈ (forest.number owners first).toList.map (·.id) := by
    rw [map_id_number, List.mem_range'_1]
    exact ⟨low, high⟩
  exact List.mem_map.mp listed

section

variable {owners : List Entry} {first : Nat} {forest : Forest Declaration}

/-- A symbol is known by its number. -/
theorem eq_of_id_eq {left right : Symbol} (hleft : left ∈ (forest.number owners first).toList)
    (hright : right ∈ (forest.number owners first).toList) (h : left.id = right.id) :
    left = right :=
  List.inj_on_of_nodup_map (nodup_ids owners first forest) hleft hright h

/-- A symbol has one subtree. -/
theorem eq_of_fst_eq {left right : Symbol × Outline}
    (hleft : left ∈ (forest.number owners first).subtrees)
    (hright : right ∈ (forest.number owners first).subtrees) (h : left.1 = right.1) :
    left = right := by
  have nodup : ((forest.number owners first).subtrees.map (·.1.id)).Nodup := by
    have ids := nodup_ids owners first forest
    rwa [← map_fst_subtrees, List.map_map] at ids
  exact List.inj_on_of_nodup_map nodup hleft hright (congrArg (·.id) h)

/-- The symbols below a symbol are those with the numbers right after its own. -/
theorem mem_below_iff_id {node : Symbol × Outline} {symbol : Symbol}
    (listed : node ∈ (forest.number owners first).subtrees)
    (found : symbol ∈ (forest.number owners first).toList) :
    symbol ∈ node.2.toList ↔ node.1.id < symbol.id ∧ symbol.id ≤ node.1.id + node.2.size := by
  obtain ⟨below, -, eq⟩ := mem_subtrees_number listed
  constructor
  · intro lies
    rw [eq] at lies
    have bounds := id_bounds_of_mem lies
    rw [eq, size_number]
    omega
  · rintro ⟨low, high⟩
    rw [eq, size_number] at high
    have reached : ∃ other ∈
        (below.number (node.1.toEntry :: node.1.owners) (node.1.id + 1)).toList,
        other.id = symbol.id := exists_mem_of_id_bounds low (by omega)
    obtain ⟨other, lies, same⟩ := reached
    rw [← eq] at lies
    -- Both have the same number, so the symbol found by its number is the one asked for.
    rwa [eq_of_id_eq found (toList_below_subset listed lies) same.symm]

/-- A symbol owns what lies below it. -/
theorem owners_suffix_of_mem_below {node : Symbol × Outline} {symbol : Symbol}
    (listed : node ∈ (forest.number owners first).subtrees) (lies : symbol ∈ node.2.toList) :
    node.1.toEntry :: node.1.owners <:+ symbol.owners := by
  obtain ⟨below, -, eq⟩ := mem_subtrees_number listed
  rw [eq] at lies
  exact owners_suffix_of_mem lies

/-- The symbols below a symbol are those that it owns. -/
theorem mem_below_iff_owned {node : Symbol × Outline} {symbol : Symbol}
    (listed : node ∈ (forest.number [] first).subtrees)
    (found : symbol ∈ (forest.number [] first).toList) :
    symbol ∈ node.2.toList ↔ node.1.toEntry :: node.1.owners <:+ symbol.owners := by
  constructor
  · exact owners_suffix_of_mem_below listed
  · intro owned
    rcases exists_of_owner_suffix found owned with around | ⟨below, same, lies⟩
    · exact absurd (List.suffix_nil.mp around) (List.cons_ne_nil _ _)
    · -- A symbol has one subtree, so the one found through the owners is the given one.
      have eq := eq_of_fst_eq listed same rfl
      rwa [eq]

end

end Forest

/-! ## Ancestors -/

/-- A symbol lies directly in another one. -/
def Symbol.Owns (owner symbol : Symbol) : Prop :=
  symbol.owner? = some owner

/-- A symbol that lies in no other one has no owners. -/
@[simp] theorem Symbol.owner?_eq_none_iff {symbol : Symbol} :
    symbol.owner? = none ↔ symbol.owners = [] := by
  unfold owner?
  cases symbol.owners <;> simp

/-- The owner of a symbol comes first among its owners, before its own ones. -/
@[grind =] theorem Symbol.owns_iff {owner symbol : Symbol} :
    owner.Owns symbol ↔ symbol.owners = owner.toEntry :: owner.owners := by
  unfold Owns owner?
  cases symbol.owners with
  | nil => simp
  | cons entry entries =>
    constructor
    · rintro ⟨⟩
      rfl
    · intro eq
      obtain ⟨rfl, rfl⟩ := List.cons.inj eq
      rfl

/-- The owner of an owner, and so on, are the owners of a symbol. -/
theorem Symbol.transGen_owns_iff {owner symbol : Symbol} :
    Relation.TransGen Owns owner symbol ↔ owner.toEntry :: owner.owners <:+ symbol.owners := by
  constructor
  · intro chain
    induction chain with
    | single last => exact (owns_iff.mp last) ▸ List.suffix_refl _
    | tail _ last ih =>
      rw [owns_iff.mp last]
      exact ih.trans (List.suffix_cons _ _)
  · -- Up the owners, one at a time; the invariant is that the owner asked for is still ahead.
    generalize hentries : symbol.owners = entries
    intro owned
    induction entries generalizing symbol with
    | nil => exact absurd (List.suffix_nil.mp owned) (List.cons_ne_nil _ _)
    | cons entry entries ih =>
      have direct : Owns { entry with owners := entries } symbol := owns_iff.mpr hentries
      rcases List.suffix_cons_iff.mp owned with eq | later
      · obtain ⟨rfl, rfl⟩ := List.cons.inj eq
        exact Relation.TransGen.single direct
      · exact Relation.TransGen.tail (ih rfl later) direct

/-- An owner is a symbol of the outline, and what it owns lies below it. -/
theorem Symbol.Owns.exists_below {forest : Forest Declaration} {first : Nat}
    {owner symbol : Symbol} (owned : owner.Owns symbol)
    (found : symbol ∈ (forest.number [] first).toList) :
    ∃ below, (owner, below) ∈ (forest.number [] first).subtrees ∧ symbol ∈ below.toList := by
  have suffix : owner.toEntry :: owner.owners <:+ symbol.owners :=
    (owns_iff.mp owned) ▸ List.suffix_refl _
  rcases Forest.exists_of_owner_suffix found suffix with around | inner
  · exact absurd (List.suffix_nil.mp around) (List.cons_ne_nil _ _)
  · exact inner

/-- An owner is a symbol of the outline with a smaller number. -/
theorem Symbol.Owns.mem_and_id_lt {forest : Forest Declaration} {first : Nat}
    {owner symbol : Symbol} (owned : owner.Owns symbol)
    (found : symbol ∈ (forest.number [] first).toList) :
    owner ∈ (forest.number [] first).toList ∧ owner.id < symbol.id := by
  obtain ⟨below, listed, lies⟩ := owned.exists_below found
  exact ⟨Forest.mem_toList_of_mem_subtrees listed,
    ((Forest.mem_below_iff_id listed found).mp lies).1⟩

/-! ## Other elements in the same places -/

namespace Forest

variable {α β : Type}

/-- A forest of the same shape, with every element replaced. -/
def map (f : α → β) : Forest α → Forest β
  | nil => nil
  | cons root below beside => cons (f root) (map f below) (map f beside)

/-- The elements are replaced one by one. -/
@[simp] theorem toList_map (f : α → β) (forest : Forest α) :
    (forest.map f).toList = forest.toList.map f := by
  induction forest with
  | nil => rfl
  | cons root below beside belowInduction besideInduction =>
    simp only [map, toList, belowInduction, besideInduction, List.map_cons, List.map_append]

/-- The number of elements stays the same. -/
@[simp] theorem size_map (f : α → β) (forest : Forest α) : (forest.map f).size = forest.size := by
  rw [← length_toList, toList_map, List.length_map, length_toList]

/-- Only what becomes of the elements of the forest matters. -/
theorem map_congr {f g : α → β} {forest : Forest α}
    (h : ∀ element ∈ forest.toList, f element = g element) : forest.map f = forest.map g := by
  induction forest with
  | nil => rfl
  | cons root below beside belowInduction besideInduction =>
    simp only [mem_toList_cons, or_imp, forall_and, forall_eq] at h
    simp only [map, h.1, belowInduction h.2.1, besideInduction h.2.2]

/-- Replacing elements twice. -/
@[simp] theorem map_map {γ : Type} (g : β → γ) (f : α → β) (forest : Forest α) :
    (forest.map f).map g = forest.map fun element => g (f element) := by
  induction forest with
  | nil => rfl
  | cons root below beside belowInduction besideInduction =>
    simp only [map, belowInduction, besideInduction]

/-- Leaves in front of a forest are replaced with it. -/
theorem map_withLeaves (f : α → β) (leaves : List α) (forest : Forest α) :
    (forest.withLeaves leaves).map f = (forest.map f).withLeaves (leaves.map f) := by
  induction leaves with
  | nil => rfl
  | cons leaf leaves ih =>
    simp only [withLeaves, List.foldr_cons, List.map_cons, map] at ih ⊢
    rw [ih]

end Forest

/-- A symbol with its own entry and those of its owners replaced. -/
def Symbol.mapEntries (f : Entry → Entry) (symbol : Symbol) : Symbol :=
  { f symbol.toEntry with owners := symbol.owners.map f }

/-- Replacing entries twice. -/
theorem Symbol.mapEntries_mapEntries (g f : Entry → Entry) (symbol : Symbol) :
    (symbol.mapEntries f).mapEntries g = symbol.mapEntries fun entry => g (f entry) := by
  simp only [mapEntries, List.map_map]
  rfl

namespace Forest

/-- Declarations may be replaced before or after they are numbered. -/
theorem number_map (f : Declaration → Declaration) (owners : List Entry) (first : Nat)
    (forest : Forest Declaration) :
    (forest.map f).number
        (owners.map fun entry => { entry with declaration := f entry.declaration }) first =
      (forest.number owners first).map
        (Symbol.mapEntries fun entry => { entry with declaration := f entry.declaration }) := by
  induction forest generalizing owners first with
  | nil => rfl
  | cons declaration below beside belowInduction besideInduction =>
    simp only [map, number, size_map]
    rw [← belowInduction, ← besideInduction]
    rfl

/-- The owners of a symbol are symbols of the forest, or around it. -/
theorem exists_mem_of_mem_owners {owners : List Entry} {first : Nat} {forest : Forest Declaration}
    {symbol : Symbol} (found : symbol ∈ (forest.number owners first).toList) {entry : Entry}
    (owner : entry ∈ symbol.owners) :
    entry ∈ owners ∨ ∃ other ∈ (forest.number owners first).toList, other.toEntry = entry := by
  obtain ⟨inner, outer, parts⟩ := List.append_of_mem owner
  let scope : Symbol := { entry with owners := outer }
  have owned : scope.toEntry :: scope.owners <:+ symbol.owners := parts ▸ List.suffix_append _ _
  rcases exists_of_owner_suffix found owned with around | ⟨below, listed, -⟩
  · exact Or.inl (around.subset List.mem_cons_self)
  · exact Or.inr ⟨scope, mem_toList_of_mem_subtrees listed, rfl⟩

/-- What becomes of the entries of the symbols decides what becomes of their owners. -/
theorem map_mapEntries_congr {f g : Entry → Entry} {first : Nat} {forest : Forest Declaration}
    (h : ∀ symbol ∈ (forest.number [] first).toList, f symbol.toEntry = g symbol.toEntry) :
    (forest.number [] first).map (Symbol.mapEntries f) =
      (forest.number [] first).map (Symbol.mapEntries g) := by
  refine map_congr fun symbol found => ?_
  have owners : symbol.owners.map f = symbol.owners.map g := by
    refine List.map_congr_left fun entry owner => ?_
    rcases exists_mem_of_mem_owners found owner with around | ⟨other, listed, rfl⟩
    · exact absurd around List.not_mem_nil
    · exact h other listed
  unfold Symbol.mapEntries
  rw [owners, h symbol found]

end Forest

end ScriptLens
