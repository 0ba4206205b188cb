import Mathlib.Data.List.TakeWhile
import ScriptLens.Proofs.Query.MemberAccess

/-! # Paths of types
A class or a namespace can be meant by its name, by its dotted path, or by the names on that path
written one by one with dots between them. Paths are told apart as long as no name has a dot; if
besides every name of a type stands for that type only, all three ways lead to the same type.
Main definitions:
* `Symbol.ancestry`: the names on the way to a symbol, with its own.
* `Outline.NamesUndotted`, `Outline.TypeNamesOwn`: when paths and names of types can be relied on.
Main statements:
* `eq_of_intercalate_dot_eq`: undotted names can be read off the text they are joined to.
* `path_eq_intercalate_ancestry`: a type lies in namespaces only, all of which are on its path.
* `findType?_name`, `findType?_path`, `resolve?_ancestry`: the three ways to a type.
* `types_found_by_path`: all of them for the outline of any tokens. -/

namespace ScriptLens

open Reader

/-- The names of all that a symbol lies in, the outermost one first, and its own. -/
def Symbol.ancestry (symbol : Symbol) : List String :=
  (symbol.owners.map (·.declaration.name)).reverse ++ [symbol.name]

/-- No symbol has a name with a dot. -/
def Outline.NamesUndotted (outline : Outline) : Prop :=
  ∀ symbol ∈ outline.symbols, '.' ∉ symbol.name.toList

/-- The name of a class or a namespace is its own. -/
structure Outline.TypeNamesOwn (outline : Outline) : Prop where
  /-- No two classes or namespaces have the same name. -/
  distinct : ∀ left ∈ outline.symbols, ∀ right ∈ outline.symbols, left.declaration.isType →
    right.declaration.isType → left.name = right.name → left = right
  /-- No variable, parameter or function has the name of a class or a namespace. -/
  apart : ∀ symbol ∈ outline.symbols, ¬ symbol.declaration.isType →
    ∀ type ∈ outline.symbols, type.declaration.isType → symbol.name ≠ type.name

/-! ## Joined names -/

/-- Names without dots can be read off the text that they are joined to. -/
theorem eq_of_intercalate_dot_eq {names others : List String} (some : names ≠ [])
    (someToo : others ≠ []) (undotted : ∀ name ∈ names, '.' ∉ name.toList)
    (undottedToo : ∀ name ∈ others, '.' ∉ name.toList)
    (h : ".".intercalate names = ".".intercalate others) : names = others := by
  have split {names : List String} (some : names ≠ [])
      (undotted : ∀ name ∈ names, '.' ∉ name.toList) :
      (".".intercalate names).toList.splitOn '.' = names.map String.toList := by
    rw [String.toList_intercalate]
    exact List.splitOn_intercalate '.' (List.forall_mem_map.mpr undotted) (by simpa using some)
  have same : names.map String.toList = others.map String.toList := by
    rw [← split some undotted, h, split someToo undottedToo]
  exact List.map_injective_iff.mpr (fun _ _ => String.toList_injective) same

/-! ## Ancestors of types -/

/-- The own name of a symbol is the last one on the way to it. -/
@[simp] theorem Symbol.getLast?_ancestry (symbol : Symbol) :
    symbol.ancestry.getLast? = some symbol.name :=
  List.getLast?_concat

section

variable {forest : Forest Declaration} {symbol other : Symbol} {node : Symbol × Outline}

/-- Only a namespace owns a class or a namespace. -/
theorem kind_of_owns_type (placed : forest.Placed none)
    (found : symbol ∈ Outline.symbols (forest.number [] 0)) (isType : symbol.declaration.isType)
    (owned : other.Owns symbol) : other.kind = .namespaceDecl := by
  have holds := mayHold_owner placed found
  rw [owned] at holds
  have holds : mayHold (some other.kind) symbol.kind := holds
  have isType : symbol.kind.isType := isType
  revert holds isType
  cases other.kind <;> cases symbol.kind <;> decide

/-- A class or a namespace lies in namespaces only. -/
theorem isType_of_mem_owners (placed : forest.Placed none)
    (found : symbol ∈ Outline.symbols (forest.number [] 0)) (isType : symbol.declaration.isType)
    {entry : Entry} (owner : entry ∈ symbol.owners) : entry.declaration.isType := by
  generalize owners : symbol.owners = entries at owner
  induction entries generalizing symbol with
  | nil => exact absurd owner List.not_mem_nil
  | cons first outer ih =>
    let scope : Symbol := { first with owners := outer }
    have owned : scope.Owns symbol := Symbol.owns_iff.mpr owners
    have scopeIsType : scope.declaration.isType :=
      congrArg Declaration.Kind.isType (kind_of_owns_type placed found isType owned)
    rcases List.mem_cons.mp owner with rfl | further
    · exact scopeIsType
    · exact ih (owned.mem_and_id_lt found).1 scopeIsType rfl further

/-- The names on the path of a type are those of all that it lies in. -/
theorem pathNames_eq_ancestry (placed : forest.Placed none)
    (found : symbol ∈ Outline.symbols (forest.number [] 0)) (isType : symbol.declaration.isType) :
    symbol.pathNames = symbol.ancestry := by
  have all : symbol.owners.takeWhile (·.declaration.isType) = symbol.owners :=
    List.takeWhile_eq_self_iff.mpr fun entry owner =>
      isType_of_mem_owners placed found isType owner
  rw [Symbol.pathNames, all, Symbol.ancestry]

/-- The path of a type is made of the names of all that it lies in. -/
theorem path_eq_intercalate_ancestry (placed : forest.Placed none)
    (found : symbol ∈ Outline.symbols (forest.number [] 0)) (isType : symbol.declaration.isType) :
    symbol.path = ".".intercalate symbol.ancestry := by
  rw [Symbol.path, pathNames_eq_ancestry placed found isType]

/-- The names on the way to a symbol are names of symbols. -/
theorem undotted_of_mem_ancestry (undotted : Outline.NamesUndotted (forest.number [] 0))
    (found : symbol ∈ Outline.symbols (forest.number [] 0)) :
    ∀ name ∈ symbol.ancestry, '.' ∉ name.toList := by
  intro name listed
  rcases List.mem_append.mp listed with around | own
  · obtain ⟨entry, owner, rfl⟩ := List.mem_map.mp (List.mem_reverse.mp around)
    rcases Forest.exists_mem_of_mem_owners found owner with none | ⟨scope, scopeFound, rfl⟩
    · exact absurd none List.not_mem_nil
    · exact undotted scope scopeFound
  · rw [List.mem_singleton.mp own]
    exact undotted symbol found

/-- Types with the same path have the same names on the way to them. -/
theorem ancestry_eq_of_path_eq (placed : forest.Placed none)
    (undotted : Outline.NamesUndotted (forest.number [] 0))
    (found : symbol ∈ Outline.symbols (forest.number [] 0))
    (foundToo : other ∈ Outline.symbols (forest.number [] 0))
    (isType : symbol.declaration.isType) (isTypeToo : other.declaration.isType)
    (same : symbol.path = other.path) : symbol.ancestry = other.ancestry := by
  rw [path_eq_intercalate_ancestry placed found isType,
    path_eq_intercalate_ancestry placed foundToo isTypeToo] at same
  exact eq_of_intercalate_dot_eq (List.concat_ne_nil _ _) (List.concat_ne_nil _ _)
    (undotted_of_mem_ancestry undotted found) (undotted_of_mem_ancestry undotted foundToo) same

/-- A path without a dot is the name of its type. -/
theorem name_eq_of_path_eq (placed : forest.Placed none)
    (undotted : Outline.NamesUndotted (forest.number [] 0))
    (found : symbol ∈ Outline.symbols (forest.number [] 0)) (isType : symbol.declaration.isType)
    {name : String} (plain : '.' ∉ name.toList) (h : symbol.path = name) : symbol.name = name := by
  have joined : ".".intercalate symbol.ancestry = ".".intercalate [name] := by
    rw [← path_eq_intercalate_ancestry placed found isType, h, String.intercalate_singleton]
  have single : symbol.ancestry = [name] :=
    eq_of_intercalate_dot_eq (List.concat_ne_nil _ _) (List.cons_ne_nil _ _)
      (undotted_of_mem_ancestry undotted found) (List.forall_mem_singleton.mpr plain) joined
  have last := symbol.getLast?_ancestry
  rw [single] at last
  exact (Option.some.inj last).symm

/-! ## Types by name and by path -/

/-- A symbol with the name of a type is that type. -/
theorem Outline.TypeNamesOwn.eq_of_name_eq {outline : Outline} (own : outline.TypeNamesOwn)
    (found : symbol ∈ outline.symbols) (isType : symbol.declaration.isType)
    (foundToo : other ∈ outline.symbols) (same : other.name = symbol.name) : other = symbol := by
  by_cases isTypeToo : other.declaration.isType
  · exact own.distinct other foundToo symbol found isTypeToo isType same
  · exact absurd same (own.apart other foundToo isTypeToo symbol found isType)

/-- What is found in a list is the only element that meets the condition. -/
theorem find?_eq_some_of_unique {α : Type} {elements : List α} {condition : α → Bool} {element : α}
    (listed : element ∈ elements) (meets : condition element)
    (unique : ∀ other ∈ elements, condition other → other = element) :
    elements.find? condition = some element := by
  cases found : elements.find? condition with
  | none => exact absurd meets (List.find?_eq_none.mp found element listed)
  | some other =>
    rw [unique other (List.mem_of_find?_eq_some found) (List.find?_some found)]

/-- A type is found by a name or a path if every type that answers to it is that one. -/
theorem findType?_eq_some (listed : node ∈ (forest.number [] 0).subtrees)
    (isType : node.1.declaration.isType) {text : String}
    (answers : node.1.name = text ∨ node.1.path = text)
    (unique : ∀ other ∈ Outline.symbols (forest.number [] 0), other.declaration.isType →
      other.name = text ∨ other.path = text → other.name = node.1.name)
    (own : Outline.TypeNamesOwn (forest.number [] 0)) :
    Outline.findType? (forest.number [] 0) text = some node := by
  refine find?_eq_some_of_unique listed (by simpa [isType] using answers) ?_
  intro other otherListed meets
  have otherFound := Forest.mem_toList_of_mem_subtrees otherListed
  simp only [Bool.and_eq_true, Bool.or_eq_true, decide_eq_true_eq] at meets
  have same := own.eq_of_name_eq (Forest.mem_toList_of_mem_subtrees listed) isType otherFound
    (unique other.1 otherFound meets.1 meets.2)
  exact Forest.eq_of_fst_eq otherListed listed same

/-- A type is found by its name. -/
theorem findType?_name (placed : forest.Placed none)
    (undotted : Outline.NamesUndotted (forest.number [] 0))
    (own : Outline.TypeNamesOwn (forest.number [] 0))
    (listed : node ∈ (forest.number [] 0).subtrees) (isType : node.1.declaration.isType) :
    Outline.findType? (forest.number [] 0) node.1.name = some node := by
  have found := Forest.mem_toList_of_mem_subtrees listed
  refine findType?_eq_some listed isType (Or.inl rfl) ?_ own
  rintro other otherFound otherIsType (named | pathed)
  · exact named
  · exact name_eq_of_path_eq placed undotted otherFound otherIsType (undotted node.1 found) pathed

/-- A type is found by its path. -/
theorem findType?_path (placed : forest.Placed none)
    (undotted : Outline.NamesUndotted (forest.number [] 0))
    (own : Outline.TypeNamesOwn (forest.number [] 0))
    (listed : node ∈ (forest.number [] 0).subtrees) (isType : node.1.declaration.isType) :
    Outline.findType? (forest.number [] 0) node.1.path = some node := by
  have found := Forest.mem_toList_of_mem_subtrees listed
  refine findType?_eq_some listed isType (Or.inr rfl) ?_ own
  rintro other otherFound otherIsType (named | pathed)
  · exact (name_eq_of_path_eq placed undotted found isType (undotted other otherFound)
      named.symm).symm
  · have same := ancestry_eq_of_path_eq placed undotted otherFound found otherIsType isType pathed
    exact Option.some.inj (by rw [← other.getLast?_ancestry, same, node.1.getLast?_ancestry])

/-! ## Types by the names on their path -/

/-- A variable that a name stands for is a variable of that name. -/
theorem name_of_visibleVariable? {outline : Outline} {name : String} {line : Nat}
    (h : outline.visibleVariable? name line = some symbol) :
    symbol.name = name ∧ symbol.kind ∈ variableOrder := by
  induction outline using Forest.induction_below with
  | step outline ih =>
    rw [Outline.visibleVariable?_eq, Option.or_eq_some_iff] at h
    rcases h with inner | ⟨-, direct⟩
    · obtain ⟨node, isFirst, visible⟩ := Option.bind_eq_some_iff.mp inner
      exact ih node (Forest.roots_subset_subtrees _ (mem_roots_of_head? isFirst)) visible
    · exact ⟨by simpa using List.find?_some direct,
        (Outline.mem_tops_of_mem_arranged (List.mem_of_find?_eq_some direct)).2⟩

/-- The name of a type stands for no variable. -/
theorem visibleVariable?_name_of_type (own : Outline.TypeNamesOwn (forest.number [] 0))
    (found : symbol ∈ Outline.symbols (forest.number [] 0)) (isType : symbol.declaration.isType)
    (line : Nat) : Outline.visibleVariable? (forest.number [] 0) symbol.name line = none := by
  refine Option.eq_none_iff_forall_ne_some.mpr fun other visible => ?_
  obtain ⟨named, kind⟩ := name_of_visibleVariable? visible
  obtain rfl := own.eq_of_name_eq found isType
    (Outline.mem_symbols_of_visibleVariable? visible) named
  have isType : other.kind.isType := isType
  revert kind isType
  cases other.kind <;> decide

/-- A class or a namespace gives access to its own members. -/
@[simp] theorem container?_of_isType (outline : Outline) (isType : node.1.declaration.isType) :
    outline.container? node = some node := by
  have isType : node.1.kind.isType := isType
  unfold Outline.container?
  cases kind : node.1.kind <;> simp [kind, Declaration.Kind.isType] at isType ⊢

/-- Behind the dot after a namespace the name of a type in it leads to that type. -/
theorem follow?_eq_some {container : Symbol × Outline} {name : Token} (placed : forest.Placed none)
    (own : Outline.TypeNamesOwn (forest.number [] 0))
    (isContainer : Outline.IsContainer (forest.number [] 0) container)
    (listed : node ∈ (forest.number [] 0).subtrees) (isType : node.1.declaration.isType)
    (owned : container.1.Owns node.1) (named : name.lexeme = node.1.name) :
    Outline.follow? (forest.number [] 0) container name = some node := by
  have found := Forest.mem_toList_of_mem_subtrees listed
  have among : node.1 ∈ (members container).map Prod.fst :=
    (mem_members_iff placed isContainer).mpr
      ⟨found, owned, Or.inl (kind_of_owns_type placed found isType owned)⟩
  obtain ⟨member, listedMember, same⟩ := List.mem_map.mp among
  obtain rfl := Forest.eq_of_fst_eq (isContainer.members_subset listedMember) listed same
  have selected : member? container name.lexeme = some member := by
    refine find?_eq_some_of_unique listedMember (by simp [named]) fun other listedOther meets => ?_
    have otherInside := isContainer.members_subset listedOther
    have sameName : other.1.name = member.1.name := by simpa [named] using meets
    exact Forest.eq_of_fst_eq otherInside listed
      (own.eq_of_name_eq found isType (Forest.mem_toList_of_mem_subtrees otherInside) sameName)
  rw [Outline.follow?, selected]
  exact container?_of_isType _ isType

/-- The names on the way to a type lead to it, one behind the other. -/
theorem resolve?_ancestry (placed : forest.Placed none)
    (undotted : Outline.NamesUndotted (forest.number [] 0))
    (own : Outline.TypeNamesOwn (forest.number [] 0))
    (listed : node ∈ (forest.number [] 0).subtrees) (isType : node.1.declaration.isType)
    {segments : List Token} (spelled : segments.map (·.lexeme) = node.1.ancestry) :
    Outline.resolve? (forest.number [] 0) segments = some node := by
  have found := Forest.mem_toList_of_mem_subtrees listed
  generalize owners : node.1.owners = entries
  induction entries generalizing node segments with
  | nil =>
    rw [Symbol.ancestry, owners] at spelled
    obtain ⟨segment, rfl, named⟩ := List.map_eq_singleton_iff.mp spelled
    have noVariable := visibleVariable?_name_of_type own found isType segment.line
    have received : Outline.receiver? (forest.number [] 0) segment = some node := by
      rw [Outline.receiver?, named, noVariable, findType?_name placed undotted own listed isType]
      rfl
    rw [Outline.resolve?, received]
    rfl
  | cons first outer ih =>
    let scope : Symbol := { first with owners := outer }
    have owned : scope.Owns node.1 := Symbol.owns_iff.mpr owners
    obtain ⟨below, scopeListed, -⟩ := owned.exists_below found
    have scopeFound := Forest.mem_toList_of_mem_subtrees scopeListed
    have scopeIsType : scope.declaration.isType :=
      isType_of_mem_owners placed found isType (owners ▸ List.mem_cons_self)
    have longer : node.1.ancestry = scope.ancestry ++ [node.1.name] := by
      simp [Symbol.ancestry, owners, scope, Symbol.name]
    rw [longer] at spelled
    obtain ⟨names, last, rfl, spelledScope, spelledLast⟩ := List.map_eq_append_iff.mp spelled
    obtain ⟨segment, rfl, named⟩ := List.map_eq_singleton_iff.mp spelledLast
    have nonempty : names ≠ [] := by
      rintro rfl
      exact List.concat_ne_nil _ _ spelledScope.symm
    rw [Outline.resolve?_append_singleton _ _ nonempty,
      ih scopeListed scopeIsType spelledScope scopeFound rfl]
    exact follow?_eq_some placed own ⟨scopeListed, scopeIsType⟩ listed isType owned named

end

/-- **Types are found by their paths.** In an outline in which no name has a dot, types with the same
path have the same names on the way to them. If besides the name of every type is its own, then a type
is found by its path, by its name, and by the names on its path written one behind the other, on
whatever lines these stand. -/
theorem types_found_by_path (tokens : List Token) :
    let outline := Outline.ofTokens tokens
    outline.NamesUndotted →
      (outline.TypeNamesOwn → ∀ node ∈ outline.subtrees, node.1.declaration.isType →
        outline.findType? node.1.path = some node ∧
        outline.findType? node.1.name = some node ∧
        ∀ segments : List Token, segments.map (·.lexeme) = node.1.ancestry →
          outline.resolve? segments = some node) ∧
      ∀ left ∈ outline.symbols, ∀ right ∈ outline.symbols, left.declaration.isType →
        right.declaration.isType → left.path = right.path → left.ancestry = right.ancestry := by
  intro outline undotted
  have placed := placed_read .outer {} {} tokens none fun _ h => h
  constructor
  · intro own node listed isType
    exact ⟨findType?_path placed undotted own listed isType,
      findType?_name placed undotted own listed isType,
      fun segments spelled => resolve?_ancestry placed undotted own listed isType spelled⟩
  · intro left found right foundToo isType isTypeToo same
    exact ancestry_eq_of_path_eq placed undotted found foundToo isType isTypeToo same

/-- A namespace in a namespace, with a class in it and a variable beside it. -/
def geometryTokens : List Token :=
  [⟨.keyword, "namespace", 1, 0⟩, ⟨.text, "Geometry", 1, 10⟩, ⟨.braceOpen, "\x7b", 1, 19⟩,
    ⟨.keyword, "namespace", 2, 0⟩, ⟨.text, "Flat", 2, 10⟩, ⟨.braceOpen, "\x7b", 2, 15⟩,
    ⟨.keyword, "class", 3, 0⟩, ⟨.text, "Point", 3, 6⟩, ⟨.braceOpen, "\x7b", 3, 12⟩,
    ⟨.braceClose, "\x7d", 3, 13⟩, ⟨.braceClose, "\x7d", 4, 0⟩, ⟨.keyword, "var", 5, 0⟩,
    ⟨.text, "origin", 5, 4⟩, ⟨.semicolon, ";", 5, 10⟩, ⟨.braceClose, "\x7d", 6, 0⟩]

/-- Two namespaces of the same name, each with a class of the same name. -/
def twinTokens : List Token :=
  [⟨.keyword, "namespace", 1, 0⟩, ⟨.text, "A", 1, 10⟩, ⟨.braceOpen, "\x7b", 1, 12⟩,
    ⟨.keyword, "class", 1, 14⟩, ⟨.text, "B", 1, 20⟩, ⟨.braceClose, "\x7d", 1, 22⟩,
    ⟨.keyword, "namespace", 2, 0⟩, ⟨.text, "A", 2, 10⟩, ⟨.braceOpen, "\x7b", 2, 12⟩,
    ⟨.keyword, "class", 2, 14⟩, ⟨.text, "B", 2, 20⟩, ⟨.braceClose, "\x7d", 2, 22⟩]

/-- Names are undotted if the list of all names is. -/
theorem namesUndotted_of_names {outline : Outline} {names : List String}
    (h : outline.symbols.map (·.name) = names) (undotted : ∀ name ∈ names, '.' ∉ name.toList) :
    outline.NamesUndotted :=
  fun symbol found => undotted symbol.name (h ▸ List.mem_map_of_mem found)

/-- The class is found by its path, by its name and by the names on its path. The two classes of the
same name and path lie in namespaces of the same name. -/
theorem types_found_by_path_geometry :
    (∃ outline, outline = Outline.ofTokens geometryTokens ∧ outline.NamesUndotted ∧
      outline.TypeNamesOwn ∧ ∃ node ∈ outline.subtrees, node.1.declaration.isType ∧
        node.1.path = "Geometry.Flat.Point" ∧
        outline.findType? "Geometry.Flat.Point" = some node ∧
        outline.findType? "Point" = some node ∧
        outline.resolve? [⟨.text, "Geometry", 9, 0⟩, ⟨.text, "Flat", 9, 9⟩, ⟨.text, "Point", 9, 14⟩] =
          some node) ∧
    ∃ outline, outline = Outline.ofTokens twinTokens ∧ outline.NamesUndotted ∧
      ∃ left ∈ outline.symbols, ∃ right ∈ outline.symbols, left.id ≠ right.id ∧
        left.declaration.isType ∧ right.declaration.isType ∧ left.path = right.path ∧
        left.ancestry = right.ancestry := by
  constructor
  · have names : (Outline.ofTokens geometryTokens).symbols.map (·.name) =
        ["Geometry", "Flat", "Point", "origin"] := by cbv
    have undotted := namesUndotted_of_names names (by decide)
    have nodup : ((Outline.ofTokens geometryTokens).symbols.map (·.name)).Nodup := by
      rw [names]
      decide
    have distinct := List.inj_on_of_nodup_map nodup
    have own : (Outline.ofTokens geometryTokens).TypeNamesOwn :=
      ⟨fun left found right foundToo _ _ same => distinct found foundToo same,
        fun symbol found noType type foundToo isType same =>
          noType (distinct found foundToo same ▸ isType)⟩
    have third : ((Outline.ofTokens geometryTokens).get? 2).map (fun node =>
        (node.1.declaration.isType, node.1.path, node.1.name, node.1.ancestry)) =
          some (true, "Geometry.Flat.Point", "Point", ["Geometry", "Flat", "Point"]) := by cbv
    obtain ⟨node, here, shown⟩ := Option.map_eq_some_iff.mp third
    simp only [Prod.mk.injEq] at shown
    obtain ⟨isType, path, name, ancestry⟩ := shown
    have listed := List.mem_of_getElem? here
    obtain ⟨byPath, byName, bySegments⟩ :=
      (types_found_by_path geometryTokens undotted).1 own node listed isType
    exact ⟨_, rfl, undotted, own, node, listed, isType, path, path ▸ byPath, name ▸ byName,
      bySegments _ ancestry.symm⟩
  · have names : (Outline.ofTokens twinTokens).symbols.map (·.name) = ["A", "B", "A", "B"] := by cbv
    have undotted := namesUndotted_of_names names (by decide)
    have second : ((Outline.ofTokens twinTokens).symbols[1]?).map (fun symbol =>
        (symbol.id, symbol.declaration.isType, symbol.path)) = some (1, true, "A.B") := by cbv
    have fourth : ((Outline.ofTokens twinTokens).symbols[3]?).map (fun symbol =>
        (symbol.id, symbol.declaration.isType, symbol.path)) = some (3, true, "A.B") := by cbv
    obtain ⟨left, here, shown⟩ := Option.map_eq_some_iff.mp second
    obtain ⟨right, there, shownToo⟩ := Option.map_eq_some_iff.mp fourth
    simp only [Prod.mk.injEq] at shown shownToo
    have found := List.mem_of_getElem? here
    have foundToo := List.mem_of_getElem? there
    have same : left.path = right.path := shown.2.2.trans shownToo.2.2.symm
    exact ⟨_, rfl, undotted, left, found, right, foundToo, by omega, shown.2.1, shownToo.2.1, same,
      (types_found_by_path twinTokens undotted).2 left found right foundToo shown.2.1 shownToo.2.1
        same⟩

end ScriptLens
