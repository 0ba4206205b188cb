import ScriptLens.Proofs.Query.ScopeWalks

/-! # Access through dots
Behind a dot stand the members of what the names before it lead to. A namespace gives access to all
its members and a class to its public variables and functions; every name on the way selects such a
member, so nothing else can be listed behind a dot or passed through by one.
Main definitions:
* `Symbol.GivesAccessTo`: a member may stand behind a dot after a class or a namespace.
* `Outline.IsContainer`: a class or a namespace of an outline, with its members.
Main statements:
* `mem_members_iff`, `nodup_members`: the members behind a dot are those that a container gives access
  to, each once.
* `isContainer_follow?`, `isContainer_resolve?`: every name leads from one container to another.
* `completions_dotted`: what is offered behind a dot, and what a chain of names passes through. -/

namespace ScriptLens

open Reader

/-! ## Members -/

/-- Whether a member may stand behind a dot after a class or a namespace that it lies in: every member
of a namespace may, and of a class the public variables and functions. -/
def Symbol.GivesAccessTo (container member : Symbol) : Prop :=
  container.Owns member ∧ (container.kind = .namespaceDecl ∨
    container.kind = .classDecl ∧ (member.kind = .variableDecl ∨ member.kind = .functionDecl) ∧
      member.declaration.access.visibility = .publicAccess)

/-- A class or a namespace of an outline, with its members. -/
structure Outline.IsContainer (outline : Outline) (node : Symbol × Outline) : Prop where
  /-- It is a symbol of the outline. -/
  listed : node ∈ outline.subtrees
  /-- It is a class or a namespace. -/
  isType : node.1.declaration.isType

/-- What may stand behind a dot after a container lies in the outline, with its own members. -/
theorem Outline.IsContainer.members_subset {outline : Outline} {container : Symbol × Outline}
    (isContainer : outline.IsContainer container) : members container ⊆ outline.subtrees := by
  intro member listed
  have among := (List.mem_filter.mp listed).1
  exact Forest.subtrees_trans isContainer.listed
    (Forest.roots_subset_subtrees _ (mem_arrange.mp among).1)

/-- What a class or a namespace may hold is of a kind that may stand behind a dot. -/
theorem mem_memberOrder {owner kind : Declaration.Kind} (isType : owner.isType)
    (holds : mayHold (some owner) kind) : kind ∈ memberOrder owner := by
  cases owner with
  | namespaceDecl => cases kind <;> simp [mayHold, memberOrder] at holds ⊢
  | classDecl => cases kind <;> simp [mayHold, memberOrder] at holds ⊢
  | functionDecl | parameterDecl | variableDecl => cases isType

/-- No kind stands behind a dot twice. -/
theorem nodup_memberOrder (owner : Declaration.Kind) : (memberOrder owner).Nodup := by
  cases owner <;> decide

/-- What a class or a namespace may hold can be used from outside exactly if the container is a
namespace, or it is a public variable or function. -/
theorem shows_iff {owner : Declaration.Kind} {member : Symbol} (isType : owner.isType)
    (holds : mayHold (some owner) member.kind) :
    shows owner member ↔ owner = .namespaceDecl ∨
      owner = .classDecl ∧ (member.kind = .variableDecl ∨ member.kind = .functionDecl) ∧
        member.declaration.access.visibility = .publicAccess := by
  cases owner with
  | namespaceDecl => simp [shows]
  | classDecl =>
    have kind : member.kind = .variableDecl ∨ member.kind = .functionDecl := by
      simpa [mayHold, or_comm] using holds
    simp [shows, kind]
  | functionDecl | parameterDecl | variableDecl => cases isType

section

variable {forest : Forest Declaration} {container : Symbol × Outline}

/-- The members behind a dot are the members of the container that can be used from outside, in
another order. -/
theorem members_perm (placed : forest.Placed none)
    (isContainer : Outline.IsContainer (forest.number [] 0) container) :
    ((members container).map Prod.fst).Perm (container.2.tops.filter (shows container.1.kind)) := by
  have holder := Outline.mem_holders_of_mem_subtrees isContainer.listed
  -- A container holds nothing of a kind that its order of members leaves out.
  have covered : ∀ member ∈ container.2.roots,
      member.1.kind ∈ memberOrder container.1.kind := by
    intro member root
    exact mem_memberOrder isContainer.isType
      (mayHold_of_mem_holders placed holder member.1 (List.mem_map_of_mem root))
  have arranged := arrange_perm (nodup_memberOrder container.1.kind) covered
  unfold members Forest.tops
  rw [List.filter_map]
  exact (arranged.filter _).map Prod.fst

/-- The members behind a dot are distinct. -/
theorem nodup_members (placed : forest.Placed none)
    (isContainer : Outline.IsContainer (forest.number [] 0) container) :
    ((members container).map Prod.fst).Nodup := by
  rw [(members_perm placed isContainer).nodup_iff]
  obtain ⟨below, -, numbered⟩ := Forest.mem_subtrees_number isContainer.listed
  have distinct : container.2.toList.Nodup := by
    rw [numbered]
    exact List.Nodup.of_map _ (Forest.nodup_ids _ _ below)
  exact (distinct.sublist (Forest.tops_sublist_toList _)).filter _

/-- The members behind a dot are the symbols that the container gives access to. -/
theorem mem_members_iff (placed : forest.Placed none)
    (isContainer : Outline.IsContainer (forest.number [] 0) container) {symbol : Symbol} :
    symbol ∈ (members container).map Prod.fst ↔
      symbol ∈ Outline.symbols (forest.number [] 0) ∧ container.1.GivesAccessTo symbol := by
  have holder := Outline.mem_holders_of_mem_subtrees isContainer.listed
  rw [(members_perm placed isContainer).mem_iff, List.mem_filter]
  constructor
  · rintro ⟨top, shown⟩
    have found : symbol ∈ Outline.symbols (forest.number [] 0) :=
      Forest.toList_below_subset isContainer.listed ((Forest.tops_sublist_toList _).subset top)
    have holds := mayHold_of_mem_holders placed holder symbol top
    exact ⟨found, owner?_of_mem_tops holder top, (shows_iff isContainer.isType holds).mp shown⟩
  · rintro ⟨found, owned, allowed⟩
    have top : symbol ∈ container.2.tops := (mem_tops_iff holder found).mpr owned
    have holds := mayHold_of_mem_holders placed holder symbol top
    exact ⟨top, (shows_iff isContainer.isType holds).mpr allowed⟩

/-- A member that a name selects is one that the container gives access to. -/
theorem givesAccessTo_of_member? (placed : forest.Placed none)
    (isContainer : Outline.IsContainer (forest.number [] 0) container) {name : String}
    {member : Symbol × Outline} (selected : member? container name = some member) :
    member.1 ∈ Outline.symbols (forest.number [] 0) ∧ member.1.name = name ∧
      container.1.GivesAccessTo member.1 := by
  have listed : member ∈ members container := List.mem_of_find?_eq_some selected
  have named : member.1.name = name := by simpa using List.find?_some selected
  obtain ⟨found, access⟩ := (mem_members_iff placed isContainer).mp (List.mem_map_of_mem listed)
  exact ⟨found, named, access⟩

end

/-! ## Chains -/

namespace Outline

/-- A type that is found is a class or a namespace of the outline. -/
theorem isContainer_findType? {outline : Outline} {name : String} {node : Symbol × Outline}
    (h : outline.findType? name = some node) : outline.IsContainer node := by
  refine ⟨List.mem_of_find?_eq_some h, ?_⟩
  have meets := List.find?_some h
  exact (Bool.and_eq_true _ _ ▸ meets : _ ∧ _).1

/-- What the first name of a chain stands for is a class or a namespace. -/
theorem isContainer_receiver? {outline : Outline} {name : Token} {node : Symbol × Outline}
    (h : outline.receiver? name = some node) : outline.IsContainer node := by
  unfold receiver? at h
  rw [Option.orElse_eq_orElse, Option.orElse_eq_or, Option.or_eq_some_iff] at h
  rcases h with declared | ⟨-, named⟩
  · obtain ⟨_, -, found⟩ := Option.bind_eq_some_iff.mp declared
    exact isContainer_findType? found
  · exact isContainer_findType? named

/-- One more name leads from a container to a container. -/
theorem isContainer_follow? {outline : Outline} {container next : Symbol × Outline} {name : Token}
    (isContainer : outline.IsContainer container)
    (h : outline.follow? container name = some next) : outline.IsContainer next := by
  obtain ⟨member, selected, leads⟩ := Option.bind_eq_some_iff.mp h
  have listed := isContainer.members_subset (List.mem_of_find?_eq_some selected)
  unfold container? at leads
  -- One case for each kind of the selected member.
  split at leads
  · next kind =>
    obtain rfl := Option.some.inj leads
    exact ⟨listed, congrArg Declaration.Kind.isType kind⟩
  · next kind =>
    obtain rfl := Option.some.inj leads
    exact ⟨listed, congrArg Declaration.Kind.isType kind⟩
  · exact isContainer_findType? leads
  · exact isContainer_findType? leads
  · cases leads

/-- Any number of names lead from a container to a container. -/
theorem isContainer_foldlM {outline : Outline} {names : List Token}
    {container last : Symbol × Outline} (isContainer : outline.IsContainer container)
    (h : names.foldlM outline.follow? container = some last) : outline.IsContainer last := by
  induction names generalizing container with
  | nil =>
    obtain rfl := Option.some.inj h
    exact isContainer
  | cons name names ih =>
    rw [List.foldlM_cons] at h
    obtain ⟨next, followed, later⟩ := Option.bind_eq_some_iff.mp h
    exact ih (isContainer_follow? isContainer followed) later

/-- A chain of names leads to a class or a namespace. -/
theorem isContainer_resolve? {outline : Outline} {names : List Token} {container : Symbol × Outline}
    (h : outline.resolve? names = some container) : outline.IsContainer container := by
  cases names with
  | nil => cases h
  | cons first names =>
    obtain ⟨start, received, followed⟩ := Option.bind_eq_some_iff.mp h
    exact isContainer_foldlM (isContainer_receiver? received) followed

/-- A chain with one more name leads to what this name leads to from where the chain leads to. -/
theorem resolve?_append_singleton (outline : Outline) {names : List Token} (name : Token)
    (nonempty : names ≠ []) :
    outline.resolve? (names ++ [name]) =
      (outline.resolve? names).bind fun container => outline.follow? container name := by
  cases names with
  | nil => exact absurd rfl nonempty
  | cons first names =>
    unfold resolve?
    simp only [List.cons_append, List.foldlM_append, List.foldlM_cons, List.foldlM_nil, bind_pure,
      Option.bind_eq_bind, Option.bind_assoc]

end Outline

/-! ## Completions -/

/-- **Completion behind a dot is sound and complete.** If the names before the dot lead to a container,
then it is a class or a namespace of the outline, and exactly the symbols that it gives access to are
offered, each once; if they lead nowhere, nothing is offered. Every name but the first one leads on
from the container before it by selecting a member that this container gives access to. -/
theorem completions_dotted (source : String) (index : Nat) (chain : Chain) :
    let cursor : Cursor := { tokens := tokenize source, position := index }
    let outline := Outline.ofTokens (tokenize source)
    Chain.at? cursor = some chain →
      (∀ container, outline.resolve? chain.segments = some container →
        container.1 ∈ outline.symbols ∧ container.1.declaration.isType ∧
        (outline.completions cursor).Nodup ∧
        ∀ symbol, symbol ∈ outline.completions cursor ↔
          symbol ∈ outline.symbols ∧ container.1.GivesAccessTo symbol) ∧
      (outline.resolve? chain.segments = none → outline.completions cursor = []) ∧
      ∀ names name, names ≠ [] →
        (outline.resolve? (names ++ [name]) = (outline.resolve? names).bind fun container =>
          (member? container name.lexeme).bind outline.container?) ∧
        ∀ container member, outline.resolve? names = some container →
          member? container name.lexeme = some member →
            member.1 ∈ outline.symbols ∧ member.1.name = name.lexeme ∧
              container.1.GivesAccessTo member.1 := by
  intro cursor outline dotted
  have placed := placed_read .outer {} {} (tokenize source) none fun _ h => h
  have offered : outline.completions cursor = outline.chainMembers chain := by
    unfold Outline.completions
    rw [dotted]
  refine ⟨?_, ?_, ?_⟩
  · intro container resolved
    have isContainer := Outline.isContainer_resolve? resolved
    have listed : outline.completions cursor = (members container).map Prod.fst := by
      rw [offered, Outline.chainMembers, resolved]
    rw [listed]
    exact ⟨Forest.mem_toList_of_mem_subtrees isContainer.listed, isContainer.isType,
      nodup_members placed isContainer, fun symbol => mem_members_iff placed isContainer⟩
  · intro unresolved
    rw [offered, Outline.chainMembers, unresolved]
  · intro names name nonempty
    refine ⟨outline.resolve?_append_singleton name nonempty, ?_⟩
    intro container member resolved selected
    exact givesAccessTo_of_member? placed (Outline.isContainer_resolve? resolved) selected

/-- A namespace with a class that has a public and a private variable, and an access to the public
one. -/
def accessSource : String :=
  "namespace N \x7b\nclass A \x7b\npublic var b; private var c;\n\x7d\n\x7d\nN.A.b"

/-- The tokens of that document. -/
def accessTokens : List Token :=
  [⟨.keyword, "namespace", 1, 0⟩, ⟨.text, "N", 1, 10⟩, ⟨.braceOpen, "\x7b", 1, 12⟩,
    ⟨.keyword, "class", 2, 0⟩, ⟨.text, "A", 2, 6⟩, ⟨.braceOpen, "\x7b", 2, 8⟩,
    ⟨.keyword, "public", 3, 0⟩, ⟨.keyword, "var", 3, 7⟩, ⟨.text, "b", 3, 11⟩,
    ⟨.semicolon, ";", 3, 12⟩, ⟨.keyword, "private", 3, 14⟩, ⟨.keyword, "var", 3, 22⟩,
    ⟨.text, "c", 3, 26⟩, ⟨.semicolon, ";", 3, 27⟩, ⟨.braceClose, "\x7d", 4, 0⟩,
    ⟨.braceClose, "\x7d", 5, 0⟩, ⟨.text, "N", 6, 0⟩, ⟨.dot, ".", 6, 1⟩, ⟨.text, "A", 6, 2⟩,
    ⟨.dot, ".", 6, 3⟩, ⟨.text, "b", 6, 4⟩]

/-- The access leads through the namespace to the class, and only the public variable is offered. -/
theorem completions_dotted_accessSource :
    let cursor : Cursor := { tokens := tokenize accessSource, position := 20 }
    let outline := Outline.ofTokens (tokenize accessSource)
    ∃ chain container, Chain.at? cursor = some chain ∧ chain.segments.map (·.lexeme) = ["N", "A"] ∧
      outline.resolve? chain.segments = some container ∧ container.1.name = "A" ∧
      (outline.completions cursor).map (·.name) = ["b"] ∧
      ∀ symbol ∈ outline.completions cursor, container.1.GivesAccessTo symbol := by
  have read : tokenize accessSource = accessTokens := by decide +kernel
  have general := completions_dotted accessSource 20 ⟨[⟨.text, "N", 6, 0⟩, ⟨.text, "A", 6, 2⟩], "b"⟩
  rw [read] at general ⊢
  have dotted : Chain.at? { tokens := accessTokens, position := 20 } =
      some ⟨[⟨.text, "N", 6, 0⟩, ⟨.text, "A", 6, 2⟩], "b"⟩ := by decide
  have leads : ((Outline.ofTokens accessTokens).resolve?
      [⟨.text, "N", 6, 0⟩, ⟨.text, "A", 6, 2⟩]).map (·.1.name) = some "A" := by cbv
  obtain ⟨container, resolved, named⟩ := Option.map_eq_some_iff.mp leads
  obtain ⟨-, -, -, offered⟩ := (general dotted).1 container resolved
  refine ⟨_, container, dotted, rfl, resolved, named, by cbv, ?_⟩
  intro symbol listed
  exact ((offered symbol).mp listed).2

end ScriptLens
