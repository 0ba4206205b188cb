import ScriptLens.Proofs.Symbol.Holders

/-! # Bracket errors
A scope whose brackets never close takes all tokens of the body that it is declared in, and holds
nothing but its parameters. In a body that was itself cut out between braces every brace closes, so
that further in only parentheses can be left open.
Main definitions:
* `Bracket.AllClose`: every bracket that opens in some tokens closes in them.
* `Reader.Closure`: how the brackets of a found declaration close, or which of them does not.
* `Forest.Contained`: what the scopes whose brackets never close hold, and where they stand.
* `Outline.ErrorsContained`: the same for symbols, said with owners and numbers.
Main statements:
* `Bracket.allClose_inside`: the brackets inside a closed span close.
* `Reader.Finds.closure`: what a step leaves open.
* `errorsContained_ofTokens`: the errors of every outline are contained. -/

namespace ScriptLens

/-! ## Spans -/

namespace Bracket

variable {bracket : Bracket} {tokens : List Token}

/-- Every bracket that opens in some tokens closes in them. -/
def AllClose (bracket : Bracket) (tokens : List Token) : Prop :=
  ∀ token later, token :: later <:+ tokens → token.kind = bracket.opening →
    (bracket.span 1 later).closed

/-- No bracket opens where there are no tokens. -/
theorem allClose_nil (bracket : Bracket) : bracket.AllClose [] := by
  intro token later final
  exact absurd (List.suffix_nil.mp final) (List.cons_ne_nil _ _)

/-- What closes in some tokens and opens in a final part of them closes in that part. -/
theorem AllClose.of_suffix {later : List Token} (h : bracket.AllClose tokens)
    (final : later <:+ tokens) : bracket.AllClose later :=
  fun token rest lies => h token rest (lies.trans final)

/-- Where all open brackets close, the innermost ones close before or with the others. -/
theorem closed_span_inside {low extra : Nat} (h : (bracket.span (low + extra) tokens).closed) :
    (bracket.span low (bracket.span (low + extra) tokens).inside).closed := by
  induction tokens generalizing low with
  | nil =>
    simp only [span, decide_eq_true_eq] at h ⊢
    omega
  | cons token tokens ih =>
    by_cases zero : low = 0
    · cases inside : (bracket.span (low + extra) (token :: tokens)).inside with
      | nil => simp [span, zero]
      | cons => simp [span, zero]
    · -- One more token changes both depths alike, since the smaller one is not zero.
      have together : bracket.depthAfter token.kind (low + extra) =
          bracket.depthAfter token.kind low + extra := by
        unfold depthAfter
        split
        · omega
        · split <;> omega
      have positive : low + extra ≠ 0 := by omega
      simp only [span, positive, zero, ↓reduceIte, together] at h ⊢
      exact ih h

/-- **The brackets inside a closed span close** before its end. -/
theorem allClose_inside {depth : Nat} (h : (bracket.span depth tokens).closed) :
    bracket.AllClose (bracket.span depth tokens).inside := by
  induction tokens generalizing depth with
  | nil => exact allClose_nil bracket
  | cons token tokens ih =>
    unfold span at h ⊢
    by_cases zero : depth = 0
    · rw [if_pos zero]
      exact allClose_nil bracket
    · rw [if_neg zero] at h ⊢
      intro other later final opens
      rcases List.suffix_cons_iff.mp final with here | further
      · obtain ⟨rfl, rfl⟩ := List.cons.inj here
        have deeper : bracket.depthAfter other.kind depth = 1 + depth := by
          rw [depthAfter, if_pos opens, Nat.add_comm]
        dsimp only at h ⊢
        rw [deeper] at h ⊢
        exact closed_span_inside h
      · exact ih h other later further opens

/-- A span behind an opening bracket is closed and all brackets inside it close, or it takes all
tokens and the bracket before it does not close. -/
theorem enclosed?_cases {found : Span} (h : bracket.enclosed? tokens = some found) :
    found.closed ∧ bracket.AllClose found.inside ∨
      ¬ found.closed ∧ found.rest = [] ∧ ¬ bracket.AllClose tokens := by
  cases tokens with
  | nil => simp [enclosed?] at h
  | cons token tokens =>
    simp only [enclosed?, Option.ite_none_right_eq_some, Option.some.injEq] at h
    obtain ⟨opens, rfl⟩ := h
    by_cases closed : (bracket.span 1 tokens).closed
    · exact Or.inl ⟨closed, allClose_inside closed⟩
    · exact Or.inr ⟨closed, rest_eq_nil closed,
        fun all => closed (all token tokens (List.suffix_refl _) opens)⟩

end Bracket

/-! ## Steps -/

/-- The word for a kind of scope. -/
def Declaration.Kind.scopeWord? : Declaration.Kind → Option String
  | namespaceDecl => some "namespace"
  | classDecl => some "class"
  | functionDecl => some "function"
  | parameterDecl | variableDecl => none

namespace Reader

/-- How the brackets of a declaration found in `tokens` close, or which of them does not; `rest` is
what the step leaves. -/
inductive Closure (tokens : List Token) (found : Found) (rest : List Token) : Prop where
  /-- No bracket is left open, and all braces of the body close. -/
  | closed (unclosed : found.declaration.unclosed = none)
      (body : Bracket.braces.AllClose found.body) : Closure tokens found rest
  /-- The parameter list of a function never closes: it takes all tokens, and nothing is read. -/
  | openList (unclosed : found.declaration.unclosed = some .parenthesisOpen)
      (isFunction : found.declaration.kind = .functionDecl)
      (word : found.declaration.kind.scopeWord? = some found.declaration.typeName)
      (noParameters : found.parameters = []) (noBody : found.body = []) (ends : rest = []) :
      Closure tokens found rest
  /-- A body never closes: it takes all tokens, and it is not read. -/
  | openBody (unclosed : found.declaration.unclosed = some .braceOpen)
      (word : found.declaration.kind.scopeWord? = some found.declaration.typeName)
      (noParameters : found.declaration.kind ≠ .functionDecl → found.parameters = [])
      (noBody : found.body = []) (ends : rest = []) (opens : ¬ Bracket.braces.AllClose tokens) :
      Closure tokens found rest

/-- What is left open behind some tokens is left open behind more of them. -/
theorem Closure.of_suffix {tokens later rest : List Token} {found : Found}
    (h : Closure later found rest) (final : later <:+ tokens) : Closure tokens found rest := by
  cases h with
  | closed unclosed body => exact .closed unclosed body
  | openList unclosed isFunction word noParameters noBody ends =>
    exact .openList unclosed isFunction word noParameters noBody ends
  | openBody unclosed word noParameters noBody ends opens =>
    exact .openBody unclosed word noParameters noBody ends fun all => opens (all.of_suffix final)

/-- The braces of a body that is read all close. -/
theorem Closure.allClose_body {tokens rest : List Token} {found : Found}
    (h : Closure tokens found rest) : Bracket.braces.AllClose found.body := by
  cases h with
  | closed unclosed body => exact body
  | openList unclosed isFunction word noParameters noBody ends =>
    exact noBody ▸ Bracket.allClose_nil _
  | openBody unclosed word noParameters noBody ends opens =>
    exact noBody ▸ Bracket.allClose_nil _

/-- What a function leaves open. -/
theorem readFunction_closure {context : Context} {access : Access} {name : Token}
    {tokens : List Token} {found : Found}
    (h : (readFunction context access name tokens).found = some found) :
    Closure tokens found (readFunction context access name tokens).rest := by
  unfold readFunction at h ⊢
  dsimp only at h ⊢
  cases hlist : Bracket.parentheses.enclosed? tokens with
  | none =>
    rw [hlist] at h
    cases h
    exact .closed rfl (Bracket.allClose_nil _)
  | some list =>
    rw [hlist] at h
    dsimp only at h ⊢
    rcases Bracket.enclosed?_cases hlist with ⟨listClosed, -⟩ | ⟨listOpen, ends, -⟩
    · rw [if_pos listClosed] at h ⊢
      cases hbody : Bracket.braces.enclosed? list.rest with
      | none =>
        rw [hbody] at h
        cases h
        exact .closed (Declaration.unclosed_through _ _) (Bracket.allClose_nil _)
      | some body =>
        rw [hbody] at h
        dsimp only at h ⊢
        rcases Bracket.enclosed?_cases hbody with ⟨closed, inside⟩ | ⟨notClosed, ends, opens⟩
        · rw [if_pos closed] at h ⊢
          cases h
          exact .closed (Declaration.unclosed_through _ _) inside
        · rw [if_neg notClosed] at h ⊢
          cases h
          -- The brace that never closes stands behind the parameter list.
          have behind : list.rest <:+ tokens :=
            (List.suffix_append _ _).trans (enclosed?_suffix hlist)
          have isFunction := Declaration.kind_through (.ofFunction access name) list.inside
          refine .openBody rfl ?_ (fun noFunction => absurd isFunction noFunction) rfl ends
            fun all => opens (all.of_suffix behind)
          simp only [Declaration.kind_through, Declaration.typeName_through]
          rfl
    · rw [if_neg listOpen] at h ⊢
      cases h
      exact .openList rfl rfl rfl rfl rfl ends

/-- What a container leaves open. -/
theorem readContainer_closure {context : Context} {access : Access} {declaration : Declaration}
    {region : Region} {tokens : List Token} {found : Found}
    (word : declaration.kind.scopeWord? = some declaration.typeName)
    (unclosed : declaration.unclosed = none)
    (h : (readContainer context access declaration region tokens).found = some found) :
    Closure tokens found (readContainer context access declaration region tokens).rest := by
  unfold readContainer at h ⊢
  cases hbody : Bracket.braces.enclosed? tokens with
  | none =>
    rw [hbody] at h
    cases h
    exact .closed unclosed (Bracket.allClose_nil _)
  | some body =>
    rw [hbody] at h
    dsimp only at h ⊢
    rcases Bracket.enclosed?_cases hbody with ⟨closed, inside⟩ | ⟨notClosed, ends, opens⟩
    · rw [if_pos closed] at h ⊢
      cases h
      exact .closed ((Declaration.unclosed_through _ _).trans unclosed) inside
    · rw [if_neg notClosed] at h ⊢
      cases h
      exact .openBody rfl word (fun _ => rfl) rfl ends opens

/-- What a step leaves open. -/
theorem Opens.closure {region : Region} {context : Context} {access : Access} {token : Token}
    {tokens : List Token} {next : Step} {found : Found}
    (opened : Opens region context access token tokens next) (h : next.found = some found) :
    Closure tokens found next.rest := by
  cases opened with
  | «variable» starts =>
    obtain ⟨name, later, typeName, -, rfl, -⟩ := readVariable_found h
    exact .closed rfl (Bracket.allClose_nil _)
  | function keyword word allowed named =>
    exact (readFunction_closure h).of_suffix (List.suffix_cons _ _)
  | construct keyword word allowed => exact readFunction_closure h
  | classBody keyword word allowed named =>
    exact (readContainer_closure rfl rfl h).of_suffix (List.suffix_cons _ _)
  | namespaceBody keyword word allowed named =>
    exact (readContainer_closure rfl rfl h).of_suffix (List.suffix_cons _ _)

/-- What a step leaves open, whatever has been settled before. -/
theorem Finds.closure {region : Region} {tokens rest : List Token} {found : Found}
    (h : Finds region tokens found rest) : Closure tokens found rest := by
  obtain ⟨context, access, token, later, rfl, hfound, rfl⟩ := h
  exact ((opens_of_found hfound).closure hfound).of_suffix (List.suffix_cons _ _)

end Reader

open Reader

/-! ## Forests -/

/-- A scope with a bracket that never closes, with what lies below it; `top` tells whether it is
declared in the document itself. -/
structure Broken (top : Bool) (declaration : Declaration) (opening : Token.Kind)
    (below : Forest Declaration) : Prop where
  /-- It is a scope, and its type is the word for what it is. -/
  word : declaration.kind.scopeWord? = some declaration.typeName
  /-- It holds parameters only. -/
  parameters : ∃ leaves, below = Forest.withLeaves leaves .nil ∧
    ∀ leaf ∈ leaves, leaf.kind = .parameterDecl
  /-- Unless it is a function with a parameter list that closes, it holds nothing. -/
  bare : declaration.kind ≠ .functionDecl ∨ opening = .parenthesisOpen → below = .nil
  /-- Only a brace of the document itself and a parenthesis can be left open, and the parenthesis
  is that of a function. -/
  opening_cases : opening = .parenthesisOpen ∧ declaration.kind = .functionDecl ∨
    opening = .braceOpen ∧ top

namespace Forest

/-- The scopes whose brackets never close are the last ones of their bodies and hold nothing but
parameters. Outside the document itself, for which `top` is false, no braces are left open. -/
def Contained (top : Bool) : Forest Declaration → Prop
  | nil => True
  | cons declaration below beside =>
    (∀ opening, declaration.unclosed = some opening →
      Broken top declaration opening below ∧ beside = nil) ∧
      Contained false below ∧ Contained top beside

/-- Leaves without brackets may stand in front of a forest. -/
theorem Contained.withLeaves {top : Bool} {leaves : List Declaration} {forest : Forest Declaration}
    (contained : forest.Contained top) (plain : ∀ leaf ∈ leaves, leaf.unclosed = none) :
    (forest.withLeaves leaves).Contained top := by
  induction leaves with
  | nil => exact contained
  | cons leaf leaves ih =>
    obtain ⟨here, later⟩ := List.forall_mem_cons.mp plain
    refine ⟨fun opening unclosed => ?_, trivial, ih later⟩
    rw [here] at unclosed
    cases unclosed

end Forest

/-- Parameters leave no brackets open. -/
theorem unclosed_of_mem_parameters {window : List Token} {declaration : Declaration}
    (found : declaration ∈ parameters window) : declaration.unclosed = none := by
  obtain ⟨segment, -, read⟩ := List.mem_filterMap.mp found
  obtain ⟨typeName, name, -, rfl⟩ := parameter?_eq_some read
  rfl

/-- A scope with a bracket that never closes is broken. -/
theorem Reader.Finds.broken {region : Region} {tokens rest : List Token} {found : Found} {top : Bool}
    {opening : Token.Kind} (finds : Finds region tokens found rest)
    (unclosed : found.declaration.unclosed = some opening)
    (allClose : top = false → Bracket.braces.AllClose tokens) :
    Broken top found.declaration opening (Forest.withLeaves found.parameters .nil) ∧
      found.body = [] ∧ rest = [] := by
  obtain ⟨layout, fits⟩ := finds.layout
  have leaves : ∀ leaf ∈ found.parameters, leaf.kind = .parameterDecl := by
    rw [fits.parameters_eq]
    exact fun leaf => kind_of_mem_parameters
  cases finds.closure with
  | closed none body =>
    rw [none] at unclosed
    cases unclosed
  | openList listOpen isFunction word noParameters noBody ends =>
    obtain rfl := Option.some.inj (listOpen.symm.trans unclosed)
    refine ⟨⟨word, ⟨_, rfl, leaves⟩, fun _ => ?_, Or.inl ⟨rfl, isFunction⟩⟩, noBody, ends⟩
    rw [noParameters]
    rfl
  | openBody bodyOpen word noParameters noBody ends opens =>
    obtain rfl := Option.some.inj (bodyOpen.symm.trans unclosed)
    refine ⟨⟨word, ⟨_, rfl, leaves⟩, fun cases => ?_, Or.inr ⟨rfl, ?_⟩⟩, noBody, ends⟩
    · rw [noParameters (cases.resolve_right (by decide))]
      rfl
    · cases top with
      | true => rfl
      | false => exact absurd (allClose rfl) opens

/-- Everything that is read is contained, as long as all braces close where it is read, unless it is
read off the document itself. -/
theorem contained_read (region : Region) (context : Context) (access : Access)
    (tokens : List Token) (top : Bool) (allClose : top = false → Bracket.braces.AllClose tokens) :
    (read region context access tokens).1.Contained top := by
  -- A broken scope takes all tokens, so the statement has to tell what is read off none.
  refine (read_induction (motive := fun _ tokens forest => (tokens = [] → forest = .nil) ∧
    ∀ top, (top = false → Bracket.braces.AllClose tokens) → forest.Contained top) ?_ ?_ ?_ region
    context access tokens).2 top allClose
  · exact fun _ => ⟨fun _ => rfl, fun _ _ => trivial⟩
  · rintro region tokens rest forest final ⟨nothing, contained⟩
    refine ⟨?_, fun top allClose => contained top fun inner => (allClose inner).of_suffix final⟩
    rintro rfl
    exact nothing (List.suffix_nil.mp final)
  · rintro region tokens found rest inner beside finds bare ⟨-, innerContained⟩
      ⟨nothing, besideContained⟩
    obtain ⟨layout, fits⟩ := finds.layout
    have plain : ∀ leaf ∈ found.parameters, leaf.unclosed = none := by
      rw [fits.parameters_eq]
      exact fun leaf => unclosed_of_mem_parameters
    refine ⟨?_, fun top allClose => ⟨fun opening unclosed => ?_, ?_, ?_⟩⟩
    · obtain ⟨_, _, _, _, rfl, -⟩ := finds
      exact fun none => absurd none (List.cons_ne_nil _ _)
    · obtain ⟨broken, noBody, ends⟩ := finds.broken unclosed allClose
      rw [bare noBody]
      exact ⟨broken, nothing ends⟩
    · exact (innerContained false fun _ => finds.closure.allClose_body).withLeaves plain
    · exact besideContained top fun inner => (allClose inner).of_suffix finds.rest_suffix

/-! ## Symbols -/

namespace Forest

/-- A scope with a bracket that never closes is broken, wherever it is declared. -/
theorem Contained.broken {top : Bool} {forest : Forest Declaration}
    {node : Declaration × Forest Declaration} {opening : Token.Kind}
    (contained : forest.Contained top) (listed : node ∈ forest.subtrees)
    (unclosed : node.1.unclosed = some opening) : ∃ inner, Broken inner node.1 opening node.2 := by
  induction forest generalizing top with
  | nil => exact absurd listed List.not_mem_nil
  | cons declaration below beside belowInduction besideInduction =>
    obtain ⟨here, inner, later⟩ := contained
    rcases mem_subtrees_cons.mp listed with rfl | inside | outside
    · exact ⟨top, (here opening unclosed).1⟩
    · exact belowInduction inner inside
    · exact besideInduction later outside

/-- Leaves are owned by what lies around them. -/
theorem owners_and_mem_of_mem_leaves {leaves : List Declaration} {owners : List Entry} {first : Nat}
    {symbol : Symbol} (found : symbol ∈ ((withLeaves leaves nil).number owners first).toList) :
    symbol.owners = owners ∧ symbol.declaration ∈ leaves := by
  induction leaves generalizing first with
  | nil => exact absurd found List.not_mem_nil
  | cons leaf leaves ih =>
    rcases mem_toList_cons.mp found with rfl | inside | outside
    · exact ⟨rfl, List.mem_cons_self⟩
    · exact absurd inside List.not_mem_nil
    · obtain ⟨owned, listed⟩ := ih outside
      exact ⟨owned, List.mem_cons_of_mem _ listed⟩

section

variable {forest : Forest Declaration} {top : Bool} {owners : List Entry} {first : Nat}
  {culprit symbol : Symbol} {opening : Token.Kind}

/-- What is declared behind a scope with a bracket that never closes, in the body that the scope is
declared in, is a parameter of the scope. -/
theorem Contained.last (contained : forest.Contained top)
    (culpritFound : culprit ∈ (forest.number owners first).toList)
    (unclosed : culprit.declaration.unclosed = some opening)
    (found : symbol ∈ (forest.number owners first).toList)
    (inBody : culprit.owners <:+ symbol.owners) (later : culprit.id < symbol.id) :
    symbol.kind = .parameterDecl ∧ culprit.Owns symbol := by
  induction forest generalizing top owners first with
  | nil => exact absurd found List.not_mem_nil
  | cons declaration below beside belowInduction besideInduction =>
    obtain ⟨here, inner, side⟩ := contained
    -- One case for each place of the scope, and in it one for each place of the other symbol.
    rcases mem_toList_cons.mp culpritFound with rfl | culpritInside | culpritOutside
    · obtain ⟨broken, rfl⟩ := here opening unclosed
      obtain ⟨leaves, rfl, parameters⟩ := broken.parameters
      rcases mem_toList_cons.mp found with rfl | inside | outside
      · exact absurd later (Nat.lt_irrefl _)
      · obtain ⟨owned, listed⟩ := owners_and_mem_of_mem_leaves inside
        exact ⟨parameters _ listed, Symbol.owns_iff.mpr owned⟩
      · exact absurd outside List.not_mem_nil
    · have culpritBounds := id_bounds_of_mem culpritInside
      rcases mem_toList_cons.mp found with rfl | inside | outside
      · exact absurd later (by dsimp only; omega)
      · exact belowInduction inner culpritInside inside
      · -- Nothing beside the root lies in it, as the scope does.
        let root : Symbol := { id := first, declaration, owners }
        have owned : root.toEntry :: root.owners <:+ symbol.owners :=
          (owners_suffix_of_mem culpritInside).trans inBody
        rcases exists_of_owner_suffix outside owned with around | ⟨_, listed, -⟩
        · exact absurd around.length_le (by simp [root])
        · have bounds := id_bounds_of_mem (mem_toList_of_mem_subtrees listed)
          exact absurd bounds.1 (by simp only [root]; omega)
    · have culpritBounds := id_bounds_of_mem culpritOutside
      rcases mem_toList_cons.mp found with rfl | inside | outside
      · exact absurd later (by dsimp only; omega)
      · have bounds := id_bounds_of_mem inside
        omega
      · exact besideInduction side culpritOutside outside

/-- A brace is left open only at the top of the document. -/
theorem Contained.mem_tops_of_brace (contained : forest.Contained top)
    (found : culprit ∈ (forest.number owners first).toList)
    (unclosed : culprit.declaration.unclosed = some .braceOpen) :
    culprit ∈ (forest.number owners first).tops ∧ top := by
  induction forest generalizing top owners first with
  | nil => exact absurd found List.not_mem_nil
  | cons declaration below beside belowInduction besideInduction =>
    obtain ⟨here, inner, side⟩ := contained
    rcases mem_toList_cons.mp found with rfl | inside | outside
    · refine ⟨List.mem_cons_self, ?_⟩
      exact (here _ unclosed).1.opening_cases.elim (fun list => absurd list.1 (by decide)) And.right
    · exact absurd (belowInduction inner inside).2 (by decide)
    · obtain ⟨listed, isTop⟩ := besideInduction side outside
      exact ⟨List.mem_cons_of_mem _ listed, isTop⟩

end

end Forest

/-! ## Outlines -/

/-- The symbols with a bracket that never closes, in the order of their numbers. -/
def Outline.culprits (outline : Outline) : List Symbol :=
  outline.symbols.filter (·.declaration.unclosed.isSome)

/-- An error reports a symbol: it tells the name, the line and the kind of the symbol, and the bracket
that never closes. -/
structure BracketError.Reports (error : BracketError) (symbol : Symbol) : Prop where
  /-- It tells the name. -/
  name_eq : error.name = symbol.name
  /-- It tells the line of the name. -/
  line_eq : error.line = symbol.declaration.line
  /-- It tells what was declared, which is a scope. -/
  scope_eq : symbol.kind.scopeWord? = some error.scope
  /-- It tells the bracket. -/
  opening_eq : symbol.declaration.unclosed = some error.opening

/-- The errors of an outline are reported once, in order, and contained. -/
structure Outline.ErrorsContained (outline : Outline) : Prop where
  /-- The errors report the symbols with a bracket that never closes, in their order. -/
  reported : List.Forall₂ BracketError.Reports outline.errors outline.culprits
  /-- These symbols are distinct. -/
  distinct : outline.culprits.Pairwise (·.id < ·.id)
  /-- A reported symbol holds parameters only. -/
  members : ∀ node ∈ outline.subtrees, node.1 ∈ outline.culprits →
    ∀ member ∈ node.2.toList, member.kind = .parameterDecl
  /-- A reported class or namespace holds nothing, and neither does a function whose parenthesis never
  closes. -/
  empty : ∀ node ∈ outline.subtrees, node.1 ∈ outline.culprits →
    node.1.kind ≠ .functionDecl ∨ node.1.declaration.unclosed = some .parenthesisOpen →
      node.2 = .nil
  /-- What comes after a reported symbol and lies, at any depth, in the body that this one is declared
  in is a parameter of it. -/
  last : ∀ culprit ∈ outline.culprits, ∀ symbol ∈ outline.symbols,
    culprit.owners <:+ symbol.owners → culprit.id < symbol.id →
      symbol.kind = .parameterDecl ∧ culprit.Owns symbol
  /-- No two reported symbols are declared directly in one body. -/
  alone : ∀ culprit ∈ outline.culprits, ∀ other ∈ outline.culprits,
    culprit.owner? = other.owner? → culprit = other
  /-- A brace is reported only of a symbol of the document itself. -/
  brace_top : ∀ culprit ∈ outline.culprits,
    culprit.declaration.unclosed = some .braceOpen → culprit.owner? = none
  /-- No error comes after that of a brace, so there is at most one such error. -/
  brace_last : ∀ earlier error later, outline.errors = earlier ++ error :: later →
    error.opening = .braceOpen → later = []
  /-- In a body only parentheses are reported. -/
  inner : ∀ culprit ∈ outline.culprits, culprit.owner? ≠ none →
    culprit.declaration.unclosed = some .parenthesisOpen

section

variable {forest : Forest Declaration} {top : Bool}

/-- A reported symbol has a bracket that never closes. -/
@[simp, grind =] theorem mem_culprits {outline : Outline} {symbol : Symbol} :
    symbol ∈ outline.culprits ↔
      symbol ∈ outline.symbols ∧ ∃ opening, symbol.declaration.unclosed = some opening := by
  rw [Outline.culprits, List.mem_filter, Option.isSome_iff_exists]

/-- What lies below a reported symbol is that of a broken scope. -/
theorem Forest.Contained.exists_broken (contained : forest.Contained top)
    {node : Symbol × Outline} (listed : node ∈ (forest.number [] 0).subtrees) {opening : Token.Kind}
    (unclosed : node.1.declaration.unclosed = some opening) :
    ∃ inner below, Broken inner node.1.declaration opening below ∧
      node.2 = below.number (node.1.toEntry :: node.1.owners) (node.1.id + 1) := by
  obtain ⟨below, original, numbered⟩ := Forest.mem_subtrees_number listed
  obtain ⟨inner, broken⟩ := contained.broken original unclosed
  exact ⟨inner, below, broken, numbered⟩

/-- A reported symbol is a scope, and its type is the word for what it is. -/
theorem Forest.Contained.scopeWord? (contained : forest.Contained top) {symbol : Symbol}
    (found : symbol ∈ (forest.number [] 0).toList) {opening : Token.Kind}
    (unclosed : symbol.declaration.unclosed = some opening) :
    symbol.kind.scopeWord? = some symbol.typeName := by
  obtain ⟨below, listed⟩ := Forest.exists_mem_subtrees found
  obtain ⟨inner, _, broken, -⟩ := contained.exists_broken listed unclosed
  exact broken.word

/-- A reported symbol is no parameter. -/
theorem Forest.Contained.not_parameter (contained : forest.Contained top) {symbol : Symbol}
    (found : symbol ∈ (forest.number [] 0).toList) {opening : Token.Kind}
    (unclosed : symbol.declaration.unclosed = some opening) : symbol.kind ≠ .parameterDecl := by
  intro isParameter
  have isScope := contained.scopeWord? found unclosed
  rw [isParameter] at isScope
  cases isScope

/-- Errors are read off the symbols with a bracket that never closes, one off each. -/
theorem forall₂_reports {symbols : List Symbol}
    (words : ∀ symbol ∈ symbols, ∀ opening, symbol.declaration.unclosed = some opening →
      symbol.kind.scopeWord? = some symbol.typeName) :
    List.Forall₂ BracketError.Reports (symbols.filterMap (·.declaration.bracketError?))
      (symbols.filter (·.declaration.unclosed.isSome)) := by
  induction symbols with
  | nil => exact List.Forall₂.nil
  | cons symbol symbols ih =>
    obtain ⟨here, later⟩ := List.forall_mem_cons.mp words
    cases unclosed : symbol.declaration.unclosed with
    | none =>
      rw [List.filterMap_cons_none (by rw [Declaration.bracketError?, unclosed]; rfl),
        List.filter_cons_of_neg (by simp [unclosed])]
      exact ih later
    | some opening =>
      rw [List.filterMap_cons_some (by rw [Declaration.bracketError?, unclosed]; rfl),
        List.filter_cons_of_pos (by simp [unclosed])]
      exact .cons ⟨rfl, rfl, here opening unclosed, unclosed⟩ (ih later)

/-- The numbers of the symbols rise. -/
theorem pairwise_id_symbols (forest : Forest Declaration) :
    (Outline.symbols (forest.number [] 0)).Pairwise (·.id < ·.id) := by
  rw [← List.pairwise_map, map_id_symbols]
  exact List.pairwise_lt_range

/-- The owners of a symbol are known by its owner. -/
theorem owners_eq_of_owner?_eq {symbol other : Symbol} (h : symbol.owner? = other.owner?) :
    symbol.owners = other.owners := by
  cases owner : other.owner? with
  | none => rw [Symbol.owner?_eq_none_iff.mp owner, Symbol.owner?_eq_none_iff.mp (h.trans owner)]
  | some found => rw [Symbol.owns_iff.mp owner, Symbol.owns_iff.mp (h.trans owner)]

/-- A symbol with a brace that never closes has no owner. -/
theorem owner?_of_brace (contained : forest.Contained top) {symbol : Symbol}
    (found : symbol ∈ (forest.number [] 0).toList)
    (unclosed : symbol.declaration.unclosed = some .braceOpen) : symbol.owner? = none :=
  Symbol.owner?_eq_none_iff.mpr
    (Forest.owners_of_mem_tops (contained.mem_tops_of_brace found unclosed).1)

/-- An error with others after it is not that of a brace. -/
theorem pairwise_opening_errors (contained : forest.Contained top) :
    (Outline.errors (forest.number [] 0)).Pairwise fun error _ => error.opening ≠ .braceOpen := by
  have single : (Outline.symbols (forest.number [] 0)).Pairwise fun symbol other =>
      symbol.declaration.unclosed = some .braceOpen → other.declaration.unclosed = none := by
    refine (pairwise_id_symbols forest).imp_of_mem fun {symbol other} found otherFound smaller => ?_
    intro unclosed
    -- Everything lies in the body that a symbol without an owner is declared in: the document.
    have isTop := Forest.owners_of_mem_tops (contained.mem_tops_of_brace found unclosed).1
    have inBody : symbol.owners <:+ other.owners := isTop ▸ List.nil_suffix
    refine Option.eq_none_iff_forall_ne_some.mpr fun opening otherUnclosed => ?_
    exact contained.not_parameter otherFound otherUnclosed
      (contained.last found unclosed otherFound inBody smaller).1
  refine List.Pairwise.filterMap _ (fun symbol other behind error read later otherRead brace => ?_)
    single
  obtain ⟨opening, unclosed, rfl⟩ := Option.map_eq_some_iff.mp read
  obtain ⟨otherOpening, otherUnclosed, -⟩ := Option.map_eq_some_iff.mp otherRead
  rw [behind (unclosed.trans (congrArg some brace))] at otherUnclosed
  cases otherUnclosed

/-- The errors of a numbered forest are contained if the forest is. -/
theorem errorsContained_number (contained : forest.Contained top) :
    Outline.ErrorsContained (forest.number [] 0) where
  reported := forall₂_reports fun symbol found opening unclosed =>
    contained.scopeWord? found unclosed
  distinct := (pairwise_id_symbols forest).filter _
  members node listed culprit member lies := by
    obtain ⟨-, opening, unclosed⟩ := mem_culprits.mp culprit
    obtain ⟨inner, below, broken, numbered⟩ := contained.exists_broken listed unclosed
    obtain ⟨leaves, rfl, parameters⟩ := broken.parameters
    rw [numbered] at lies
    exact parameters _ (Forest.owners_and_mem_of_mem_leaves lies).2
  empty node listed culprit cases := by
    obtain ⟨-, opening, unclosed⟩ := mem_culprits.mp culprit
    obtain ⟨inner, below, broken, numbered⟩ := contained.exists_broken listed unclosed
    have nothing : below = .nil :=
      broken.bare (cases.imp_right fun list => Option.some.inj (unclosed.symm.trans list))
    rw [numbered, nothing]
    rfl
  last culprit listed symbol found inBody later := by
    obtain ⟨culpritFound, opening, unclosed⟩ := mem_culprits.mp listed
    exact contained.last culpritFound unclosed found inBody later
  alone culprit listed other otherListed same := by
    obtain ⟨found, opening, unclosed⟩ := mem_culprits.mp listed
    obtain ⟨otherFound, otherOpening, otherUnclosed⟩ := mem_culprits.mp otherListed
    have owners := owners_eq_of_owner?_eq same
    -- The later one of two would be a parameter of the other.
    rcases Nat.lt_trichotomy culprit.id other.id with smaller | equal | greater
    · have behind := contained.last found unclosed otherFound (owners ▸ List.suffix_refl _) smaller
      exact absurd behind.1 (contained.not_parameter otherFound otherUnclosed)
    · exact Forest.eq_of_id_eq found otherFound equal
    · have behind :=
        contained.last otherFound otherUnclosed found (owners ▸ List.suffix_refl _) greater
      exact absurd behind.1 (contained.not_parameter found unclosed)
  brace_top culprit listed unclosed :=
    owner?_of_brace contained (mem_culprits.mp listed).1 unclosed
  brace_last earlier error later parts brace := by
    have single := pairwise_opening_errors contained
    rw [parts] at single
    have none := (List.pairwise_cons.mp (List.pairwise_append.mp single).2.1).1
    exact List.eq_nil_iff_forall_not_mem.mpr fun other listed => none other listed brace
  inner culprit listed owned := by
    obtain ⟨found, opening, unclosed⟩ := mem_culprits.mp listed
    obtain ⟨below, subtree⟩ := Forest.exists_mem_subtrees found
    obtain ⟨inner, _, broken, -⟩ := contained.exists_broken subtree unclosed
    rcases broken.opening_cases with ⟨rfl, -⟩ | ⟨rfl, -⟩
    · exact unclosed
    · exact absurd (owner?_of_brace contained found unclosed) owned

end

/-- **Bracket errors are contained and reported once**, whatever tokens an outline is read off. -/
theorem errorsContained_ofTokens (tokens : List Token) :
    (Outline.ofTokens tokens).ErrorsContained :=
  errorsContained_number (contained_read .outer {} {} tokens true fun none => absurd none (by decide))

end ScriptLens
