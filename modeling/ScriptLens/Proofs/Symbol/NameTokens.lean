import ScriptLens.Proofs.Symbol.ClassNames
import ScriptLens.Proofs.Symbol.Relocation

/-! # The tokens that name symbols
Every symbol takes its name and its place from a token of its own, and the symbols come in the order
of these tokens.
Main definitions:
* `Declaration.NamedBy`: a declaration takes its name and its place from a token.
* `Reader.Found.LiesBehind`: how a found declaration lies behind its name.
* `indexed`, `nameIndex`: which token names a symbol.
Main statements:
* `Reader.exists_names_read`: the names of all declarations that are read.
* `pairwise_symbols`: symbols are in the order of their tokens.
* `exists_name_symbol`, `pairwise_nameIndex`: where the names of symbols stand. -/

namespace ScriptLens

/-! ## Names -/

/-- A declaration takes its name and its place from a token. -/
structure Declaration.NamedBy (declaration : Declaration) (token : Token) : Prop where
  /-- The name is the text of the token. -/
  name : declaration.name = token.lexeme
  /-- The declaration stands on the line of the token. -/
  line : declaration.line = token.line
  /-- It stands in the column of the token. -/
  column : declaration.column = token.column

/-- A declaration is named by the token it is made of. -/
theorem Declaration.namedBy_ofName (kind : Kind) (typeName : String) (access : Access)
    (name : Token) : (ofName kind typeName access name).NamedBy name :=
  ⟨rfl, rfl, rfl⟩

/-- A declaration keeps its name when its lines are stretched. -/
theorem Declaration.NamedBy.through {declaration : Declaration} {name : Token}
    (named : declaration.NamedBy name) (span : List Token) :
    (declaration.through span).NamedBy name := by
  unfold Declaration.through
  split
  · exact named
  · exact ⟨named.name, named.line, named.column⟩

/-- A declaration in another place is named by the token in that place. -/
theorem Declaration.NamedBy.moved {declaration : Declaration} {name : Token}
    (named : declaration.NamedBy name) (displacement : Displacement) :
    (declaration.moved displacement).NamedBy (name.moved displacement) :=
  ⟨named.name, congrArg displacement.line named.line, congrArg displacement.column named.column⟩

namespace Reader

/-- How a found declaration lies in the tokens behind its name, with `rest` behind it. -/
inductive Found.LiesBehind (name : Token) (later : List Token) (found : Found)
    (rest : List Token) : Prop where
  /-- The body and the rest come somewhere behind the name. -/
  | plain (named : found.declaration.NamedBy name) (none : found.parameters = [])
      (body : found.body ++ rest <:+ later)
  /-- A parameter list comes first, and the body and the rest behind it. -/
  | listed {list : Bracket.Span} (named : found.declaration.NamedBy name)
      (enclosed : Bracket.parentheses.enclosed? later = some list) (closed : list.closed)
      (declared : found.parameters = Reader.parameters list.inside)
      (body : found.body ++ rest <:+ list.rest)

/-- The name is the token it lies behind. -/
theorem Found.LiesBehind.named {name : Token} {later rest : List Token} {found : Found}
    (lies : found.LiesBehind name later rest) : found.declaration.NamedBy name := by
  cases lies with
  | plain named => exact named
  | listed named => exact named

/-- A function lies behind its name. -/
theorem readFunction_liesBehind {context : Context} {access : Access} {name : Token}
    {tokens : List Token} {found : Found}
    (h : (readFunction context access name tokens).found = some found) :
    found.LiesBehind name tokens (readFunction context access name tokens).rest := by
  have named : (Declaration.ofFunction access name).NamedBy name :=
    Declaration.namedBy_ofName _ _ _ _
  unfold readFunction at h ⊢
  dsimp only at h ⊢
  cases hlist : Bracket.parentheses.enclosed? tokens with
  | none =>
    rw [hlist] at h
    cases h
    exact .plain named rfl (List.suffix_refl _)
  | some list =>
    rw [hlist] at h
    dsimp only at h ⊢
    by_cases listClosed : list.closed
    · rw [if_pos listClosed] at h ⊢
      cases hbody : Bracket.braces.enclosed? list.rest with
      | none =>
        rw [hbody] at h
        cases h
        exact .listed (named.through _) hlist listClosed rfl (List.suffix_refl _)
      | some body =>
        have taken := enclosed?_suffix hbody
        rw [hbody] at h
        dsimp only at h ⊢
        by_cases bodyClosed : body.closed
        · rw [if_pos bodyClosed] at h ⊢
          cases h
          exact .listed (named.through _) hlist listClosed rfl taken
        · -- A body that never closes is passed over, but the parameters are there.
          rw [if_neg bodyClosed] at h ⊢
          cases h
          have stretched := named.through list.inside
          refine .listed ⟨stretched.name, stretched.line, stretched.column⟩ hlist listClosed rfl ?_
          exact (List.suffix_append _ _).trans taken
    · -- A list that never closes declares nothing.
      rw [if_neg listClosed] at h ⊢
      cases h
      exact .plain ⟨rfl, rfl, rfl⟩ rfl ((List.suffix_append _ _).trans (enclosed?_suffix hlist))

/-- A container lies behind its name. -/
theorem readContainer_liesBehind {context : Context} {access : Access} {declaration : Declaration}
    {region : Region} {name : Token} {tokens : List Token} {found : Found}
    (named : declaration.NamedBy name)
    (h : (readContainer context access declaration region tokens).found = some found) :
    found.LiesBehind name tokens
      (readContainer context access declaration region tokens).rest := by
  unfold readContainer at h ⊢
  cases hbody : Bracket.braces.enclosed? tokens with
  | none =>
    rw [hbody] at h
    cases h
    exact .plain named rfl (List.suffix_refl _)
  | some body =>
    have taken := enclosed?_suffix hbody
    rw [hbody] at h
    dsimp only at h ⊢
    by_cases closed : body.closed
    · rw [if_pos closed] at h ⊢
      cases h
      exact .plain (named.through _) rfl taken
    · rw [if_neg closed] at h ⊢
      cases h
      exact .plain ⟨named.name, named.line, named.column⟩ rfl
        ((List.suffix_append _ _).trans taken)

/-- Whatever a step finds lies behind its name. -/
theorem Opens.liesBehind {region : Region} {context : Context} {access : Access} {token : Token}
    {tokens : List Token} {next : Step} {found : Found}
    (opened : Opens region context access token tokens next) (h : next.found = some found) :
    ∃ name later, name :: later <:+ token :: tokens ∧ found.LiesBehind name later next.rest := by
  cases opened with
  | «variable» starts =>
    obtain ⟨name, later, typeName, rfl, rfl, hrest⟩ := readVariable_found h
    refine ⟨name, later, List.suffix_cons _ _, .plain (Declaration.namedBy_ofName ..) rfl ?_⟩
    rw [hrest]
    exact takeWrittenType_suffix later
  | function => exact ⟨_, _, List.suffix_cons _ _, readFunction_liesBehind h⟩
  | construct => exact ⟨_, _, List.suffix_refl _, readFunction_liesBehind h⟩
  | classBody =>
    exact ⟨_, _, List.suffix_cons _ _,
      readContainer_liesBehind (Declaration.namedBy_ofName ..) h⟩
  | namespaceBody =>
    exact ⟨_, _, List.suffix_cons _ _,
      readContainer_liesBehind (Declaration.namedBy_ofName ..) h⟩

/-- Behind its name a declaration has the names of its parameters, its body and the rest. -/
theorem Found.LiesBehind.exists_names {name : Token} {later rest : List Token} {found : Found}
    (lies : found.LiesBehind name later rest) :
    ∃ names : List Token, (names ++ (found.body ++ rest)).Sublist later ∧
      List.Forall₂ Declaration.NamedBy found.parameters names := by
  cases lies with
  | plain _ none body =>
    rw [none]
    exact ⟨[], body.sublist, .nil⟩
  | listed _ enclosed closed declared body =>
    obtain ⟨names, within, spelt⟩ := exists_parameters_names _
    rw [declared]
    refine ⟨names, ?_, spelt.imp ?_⟩
    · obtain ⟨opening, -, rfl⟩ := Bracket.enclosed?_eq_some enclosed
      exact (within.append body.sublist).cons _
    · rintro parameter token ⟨typeName, rfl⟩
      exact Declaration.namedBy_ofName _ _ _ _

/-- **The names of all declarations** that are read are tokens, in the order of the declarations. -/
theorem exists_names_read (region : Region) (context : Context) (access : Access)
    (tokens : List Token) :
    ∃ names : List Token, names.Sublist tokens ∧
      List.Forall₂ Declaration.NamedBy (read region context access tokens).1.toList names := by
  refine read_induction (motive := fun _ tokens forest => ∃ names : List Token,
    names.Sublist tokens ∧ List.Forall₂ Declaration.NamedBy forest.toList names) ?_ ?_ ?_ region
    context access tokens
  · exact fun region => ⟨[], List.nil_sublist _, .nil⟩
  · rintro region tokens rest forest suffix ⟨names, within, named⟩
    exact ⟨names, within.trans suffix.sublist, named⟩
  · rintro region tokens found rest inner beside ⟨context, access, token, later, rfl, h, rfl⟩ -
      ⟨innerNames, innerWithin, innerNamed⟩ ⟨besideNames, besideWithin, besideNamed⟩
    obtain ⟨name, behind, suffix, lies⟩ := (opens_of_found h).liesBehind h
    obtain ⟨parameterNames, within, parametersNamed⟩ := lies.exists_names
    refine ⟨name :: (parameterNames ++ innerNames ++ besideNames), ?_, .cons lies.named ?_⟩
    · -- The names come in the order of the parts they are names of.
      have parts := (List.Sublist.refl parameterNames).append (innerWithin.append besideWithin)
      rw [List.append_assoc]
      exact ((parts.trans within).cons_cons name).trans suffix.sublist
    · rw [Forest.toList_withLeaves]
      exact List.rel_append (List.rel_append parametersNamed innerNamed) besideNamed

end Reader

/-! ## Order -/

/-- Each of some named declarations is named by one of the names. -/
theorem exists_name_of_mem {declarations : List Declaration} {names : List Token}
    (named : List.Forall₂ Declaration.NamedBy declarations names) {declaration : Declaration}
    (found : declaration ∈ declarations) : ∃ name ∈ names, declaration.NamedBy name := by
  induction named with
  | nil => exact absurd found List.not_mem_nil
  | cons first _ ih =>
    rcases List.mem_cons.mp found with rfl | later
    · exact ⟨_, List.mem_cons_self, first⟩
    · obtain ⟨name, listed, names⟩ := ih later
      exact ⟨name, List.mem_cons_of_mem _ listed, names⟩

/-- Declarations are in the order of their names. -/
theorem pairwise_of_names {declarations : List Declaration} {names : List Token}
    (named : List.Forall₂ Declaration.NamedBy declarations names) {R : Token → Token → Prop}
    (ordered : names.Pairwise R) {S : Declaration → Declaration → Prop}
    (carries : ∀ ⦃left right name other⦄, left.NamedBy name → right.NamedBy other → R name other →
      S left right) : declarations.Pairwise S := by
  induction named with
  | nil => exact .nil
  | cons first later ih =>
    obtain ⟨before, ordered⟩ := List.pairwise_cons.mp ordered
    refine .cons (fun other found => ?_) (ih ordered)
    obtain ⟨name, listed, named⟩ := exists_name_of_mem later found
    exact carries first named (before name listed)

/-- Symbols are in the order of their tokens. -/
theorem pairwise_symbols {tokens : List Token} {R : Token → Token → Prop}
    (ordered : tokens.Pairwise R) {S : Declaration → Declaration → Prop}
    (carries : ∀ ⦃left right name other⦄, left.NamedBy name → right.NamedBy other → R name other →
      S left right) :
    (Outline.ofTokens tokens).symbols.Pairwise fun left right =>
      S left.declaration right.declaration := by
  obtain ⟨names, within, named⟩ := Reader.exists_names_read .outer {} {} tokens
  rw [← List.pairwise_map, Outline.symbols, Outline.ofTokens, Forest.map_declaration_number]
  exact pairwise_of_names named (ordered.sublist within) carries

/-! ## Indexes -/

/-- The tokens, each with its index in the place of its column. Reading copies the column of a name
and looks at no column, so a symbol that is read off these tokens tells which one is its name. -/
def indexed (tokens : List Token) : List Token :=
  tokens.mapIdx fun index token => { token with column := index }

/-- The index of the token that names the symbol with a given number. -/
def nameIndex (tokens : List Token) (id : Nat) : Nat :=
  ((Outline.ofTokens (indexed tokens)).symbols[id]?.map (·.declaration.column)).getD 0

/-- Each token goes from its index back to its column. -/
def columnsOf (tokens : List Token) : Displacement where
  line := OrderHom.id
  column index := (tokens[index]?.map (·.column)).getD 0

section

variable {tokens : List Token}

/-- The token at an index has that index for its column. -/
@[simp] theorem getElem?_indexed (tokens : List Token) (index : Nat) :
    (indexed tokens)[index]? = tokens[index]?.map fun token => { token with column := index } := by
  rw [indexed, List.getElem?_mapIdx]

/-- The column of an indexed token is its index. -/
theorem column_of_getElem? {index : Nat} {token : Token}
    (found : (indexed tokens)[index]? = some token) : token.column = index := by
  rw [getElem?_indexed] at found
  obtain ⟨original, -, rfl⟩ := Option.map_eq_some_iff.mp found
  rfl

/-- An indexed token is found at its column. -/
theorem getElem?_column {token : Token} (found : token ∈ indexed tokens) :
    (indexed tokens)[token.column]? = some token := by
  obtain ⟨index, here⟩ := List.getElem?_of_mem found
  rw [column_of_getElem? here, here]

/-- The columns of indexed tokens rise. -/
theorem pairwise_indexed (tokens : List Token) :
    (indexed tokens).Pairwise (·.column < ·.column) := by
  rw [List.pairwise_iff_getElem]
  intro left right _ _ before
  simpa [indexed] using before

/-- A token goes back to where it was. -/
theorem getElem?_of_indexed {index : Nat} {token : Token}
    (found : (indexed tokens)[index]? = some token) :
    tokens[index]? = some (token.moved (columnsOf tokens)) := by
  rw [getElem?_indexed] at found
  obtain ⟨original, here, rfl⟩ := Option.map_eq_some_iff.mp found
  simp [here, Token.moved, columnsOf]

variable (tokens) in
/-- All tokens go back to where they were. -/
@[simp] theorem map_moved_indexed : (indexed tokens).map (·.moved (columnsOf tokens)) = tokens := by
  refine List.ext_getElem? fun index => ?_
  rw [List.getElem?_map, getElem?_indexed]
  cases here : tokens[index]? with
  | none => rfl
  | some token => simp [here, Token.moved, columnsOf]

variable (tokens) in
/-- The outline is that of the indexed tokens, with the columns put back. -/
theorem ofTokens_eq_map_indexed :
    Outline.ofTokens tokens =
      (Outline.ofTokens (indexed tokens)).map (Symbol.mapEntries (·.moved (columnsOf tokens))) := by
  simp [← ofTokens_moved]

/-- A symbol of the indexed tokens tells the index of its name. -/
theorem nameIndex_id {symbol : Symbol}
    (found : symbol ∈ (Outline.ofTokens (indexed tokens)).symbols) :
    nameIndex tokens symbol.id = symbol.declaration.column := by
  unfold nameIndex
  rw [Outline.ofTokens, getElem?_id found]
  rfl

/-- Every symbol is one of the indexed tokens, with the columns put back. -/
theorem exists_indexed_symbol {symbol : Symbol}
    (found : symbol ∈ (Outline.ofTokens tokens).symbols) :
    ∃ origin ∈ (Outline.ofTokens (indexed tokens)).symbols,
      origin.mapEntries (·.moved (columnsOf tokens)) = symbol := by
  rw [ofTokens_eq_map_indexed, Outline.symbols, Forest.toList_map] at found
  exact List.mem_map.mp found

/-- **The name of a symbol** is the token at its index. -/
theorem exists_name_symbol {symbol : Symbol} (found : symbol ∈ (Outline.ofTokens tokens).symbols) :
    ∃ name, tokens[nameIndex tokens symbol.id]? = some name ∧ symbol.declaration.NamedBy name := by
  obtain ⟨origin, listed, rfl⟩ := exists_indexed_symbol found
  have declared : origin.declaration ∈ (Reader.read .outer {} {} (indexed tokens)).1.toList := by
    rw [← Forest.map_declaration_number [] 0]
    exact List.mem_map_of_mem listed
  obtain ⟨names, within, named⟩ := Reader.exists_names_read .outer {} {} (indexed tokens)
  obtain ⟨name, mem, named⟩ := exists_name_of_mem named declared
  have index : nameIndex tokens origin.id = name.column := (nameIndex_id listed).trans named.column
  refine ⟨name.moved (columnsOf tokens), ?_, named.moved _⟩
  exact getElem?_of_indexed (index ▸ getElem?_column (within.subset mem))

variable (tokens) in
/-- **The names of symbols** come in the order of their numbers. -/
theorem pairwise_nameIndex : (Outline.ofTokens tokens).symbols.Pairwise
    fun left right => nameIndex tokens left.id < nameIndex tokens right.id := by
  have ordered : (Outline.ofTokens (indexed tokens)).symbols.Pairwise
      fun left right => left.declaration.column < right.declaration.column :=
    pairwise_symbols (S := fun left right => left.column < right.column) (pairwise_indexed tokens)
      fun left right name other named namedOther before => by
        rwa [named.column, namedOther.column]
  rw [ofTokens_eq_map_indexed, Outline.symbols, Forest.toList_map, List.pairwise_map]
  refine ordered.imp_of_mem fun {left right} hleft hright before => ?_
  show nameIndex tokens left.id < nameIndex tokens right.id
  rw [nameIndex_id hleft, nameIndex_id hright]
  exact before

end

end ScriptLens
