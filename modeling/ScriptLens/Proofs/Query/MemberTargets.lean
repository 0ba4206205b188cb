import ScriptLens.Proofs.Query.Innermost
import ScriptLens.Proofs.Query.MemberAccess

/-! # What a name behind a dot stands for
A name behind a dot stands for a member of what the names before the dot lead to. Where they lead
nowhere, or to something without such a member, the name is looked up as if there were no dot, so that
it may stand for a symbol that has nothing to do with the names before it.
Main definition:
* `Outline.Selects`: a symbol is a member of that name behind a chain.
Main statements:
* `selects_iff_mem_chainMembers`: the symbols that a name may select are listed behind the chain.
* `target_of_selects`, `target_of_no_selects`: what a name behind a dot stands for if some member has
  that name, and if none has.
* `target_behind_dot`: the two cases for the tokens of a source. -/

namespace ScriptLens

open Reader

/-- A symbol is what a name behind a chain may stand for: the chain leads to a class or a namespace that
gives access to the symbol, and the symbol has that name. -/
def Outline.Selects (outline : Outline) (chain : Chain) (name : String) (symbol : Symbol) : Prop :=
  ∃ container, outline.resolve? chain.segments = some container ∧ symbol ∈ outline.symbols ∧
    container.1.GivesAccessTo symbol ∧ symbol.name = name

/-! ## The token before a cursor -/

/-- Where there are no tokens before a cursor, there is none right before it. -/
theorem Cursor.previous_of_before_nil {cursor : Cursor} (h : cursor.before = []) :
    cursor.previous = .missing := by
  unfold previous
  by_cases start : cursor.position = 0
  · rw [if_pos start]
  · -- Then the cursor lies so far out that there is no token right before it either.
    have far : cursor.tokens.length ≤ cursor.position - 1 := by
      unfold before at h
      split at h
      · have empty := congrArg List.length h
        simp only [List.length_reverse, List.length_take, List.length_nil] at empty
        omega
      · omega
    rw [if_neg start, get, List.getElem?_eq_none far, Option.getD_none]

/-- A token that is no dot, behind a dot, is the end of a chain. -/
theorem Chain.exists_at?_of_previous {cursor : Cursor} (notDot : cursor.current.kind ≠ .dot)
    (dotted : cursor.previous.kind = .dot) : ∃ chain, Chain.at? cursor = some chain := by
  unfold at?
  rw [if_neg notDot]
  cases before : cursor.before with
  | nil =>
    rw [Cursor.previous_of_before_nil before] at dotted
    cases dotted
  | cons token earlier =>
    rw [Cursor.previous_of_before before] at dotted
    exact ⟨_, if_pos dotted⟩

/-! ## Members and other symbols -/

section

variable {tokens : List Token} {cursor : Cursor} {chain : Chain} {name : String} {symbol : Symbol}

/-- The symbols that a name may select are the members of that name behind the chain. -/
theorem selects_iff_mem_chainMembers :
    (Outline.ofTokens tokens).Selects chain name symbol ↔
      symbol ∈ (Outline.ofTokens tokens).chainMembers chain ∧ symbol.name = name := by
  have placed := placed_read .outer {} {} tokens none fun _ h => h
  unfold Outline.Selects Outline.chainMembers
  cases resolved : (Outline.ofTokens tokens).resolve? chain.segments with
  | none => simp
  | some container =>
    dsimp only
    rw [mem_members_iff placed (Outline.isContainer_resolve? resolved)]
    constructor
    · rintro ⟨other, same, found, access, named⟩
      obtain rfl := Option.some.inj same
      exact ⟨⟨found, access⟩, named⟩
    · rintro ⟨⟨found, access⟩, named⟩
      exact ⟨container, rfl, found, access, named⟩

/-- Where no members are listed behind a chain, no symbol is selected. -/
theorem not_selects_of_chainMembers_nil
    (empty : (Outline.ofTokens tokens).chainMembers chain = []) (symbol : Symbol) :
    ¬ (Outline.ofTokens tokens).Selects chain name symbol := by
  intro selected
  have listed := (selects_iff_mem_chainMembers.mp selected).1
  rw [empty] at listed
  exact absurd listed List.not_mem_nil

/-- A name at the end of a chain stands for the first member of that name, and else for what is looked
up. -/
theorem target_of_at? {outline : Outline} (isText : cursor.current.kind = .text)
    (dotted : Chain.at? cursor = some chain) :
    outline.target cursor =
      match ((outline.chainMembers chain).find? (·.name = cursor.current.lexeme)).or
        (outline.lookup? cursor.current.lexeme cursor.current.line) with
      | some symbol => .ofSymbol symbol
      | none => .ofToken cursor.current := by
  have present : cursor.current.isMissing = false := by simp [Token.isMissing, isText]
  have member : outline.chainTarget? cursor =
      (outline.chainMembers chain).find? (·.name = cursor.current.lexeme) := by
    unfold Outline.chainTarget?
    rw [dotted, Option.bind_some, if_pos isText]
  unfold Outline.target
  dsimp only
  rw [present, member, Option.orElse_eq_orElse, Option.orElse_eq_or]
  rfl

/-- If some member behind the chain has the name, the name stands for such a member. -/
theorem target_of_selects (isText : cursor.current.kind = .text)
    (dotted : Chain.at? cursor = some chain)
    (selected : (Outline.ofTokens tokens).Selects chain cursor.current.lexeme symbol) :
    ∃ member, (Outline.ofTokens tokens).Selects chain cursor.current.lexeme member ∧
      (Outline.ofTokens tokens).target cursor = .ofSymbol member := by
  obtain ⟨listed, named⟩ := selects_iff_mem_chainMembers.mp selected
  rw [target_of_at? isText dotted]
  cases first : ((Outline.ofTokens tokens).chainMembers chain).find?
      (·.name = cursor.current.lexeme) with
  | none =>
    have unnamed := List.find?_eq_none.mp first symbol listed
    exact absurd named (by simpa using unnamed)
  | some member =>
    have firstNamed : member.name = cursor.current.lexeme := by simpa using List.find?_some first
    exact ⟨member,
      selects_iff_mem_chainMembers.mpr ⟨List.mem_of_find?_eq_some first, firstNamed⟩, rfl⟩

/-- If no member behind the chain has the name, the name stands for what is looked up without regard to
the chain. -/
theorem target_of_no_selects (isText : cursor.current.kind = .text)
    (dotted : Chain.at? cursor = some chain)
    (unselected : ∀ symbol,
      ¬ (Outline.ofTokens tokens).Selects chain cursor.current.lexeme symbol) :
    (Outline.ofTokens tokens).target cursor =
      match (Outline.ofTokens tokens).lookup? cursor.current.lexeme cursor.current.line with
      | some symbol => .ofSymbol symbol
      | none => .ofToken cursor.current := by
  have noMember : ((Outline.ofTokens tokens).chainMembers chain).find?
      (·.name = cursor.current.lexeme) = none := by
    rw [List.find?_eq_none]
    intro symbol listed named
    exact unselected symbol (selects_iff_mem_chainMembers.mpr ⟨listed, by simpa using named⟩)
  rw [target_of_at? isText dotted, noMember, Option.none_or]

end

/-! ## Tokens of a source -/

/-- A name is looked up in vain exactly if no visible symbol has it. -/
theorem lookup?_eq_none_iff_visible {source name : String} {line : Nat} :
    (Outline.ofTokens (tokenize source)).lookup? name line = none ↔
      ∀ symbol ∈ (Outline.ofTokens (tokenize source)).symbols,
        symbol.isVisibleOn line → symbol.name ≠ name := by
  rw [Outline.lookup?_eq_none_iff_offered]
  constructor
  · intro unnamed symbol found visible named
    exact unnamed symbol ((mem_offered_tokenize_iff named).mpr ⟨found, visible⟩) named
  · intro unnamed symbol offered named
    obtain ⟨found, visible⟩ := (mem_offered_tokenize_iff named).mp offered
    exact unnamed symbol found visible named

/-- **What a name behind a dot stands for.** If the chain before it leads to a class or a namespace that
gives access to a member of that name, it stands for such a member. Otherwise it stands for itself
exactly if no visible symbol has that name, and else for a visible symbol of that name, which is no such
member. -/
theorem target_behind_dot (source : String) (index : Nat) :
    let cursor : Cursor := { tokens := tokenize source, position := index }
    let outline := Outline.ofTokens (tokenize source)
    let token := cursor.current
    token.kind = .text → cursor.previous.kind = .dot →
      ∃ chain, Chain.at? cursor = some chain ∧
        ((∃ symbol, outline.Selects chain token.lexeme symbol) →
          ∃ symbol, outline.Selects chain token.lexeme symbol ∧
            outline.target cursor = .ofSymbol symbol) ∧
        ((∀ symbol, ¬ outline.Selects chain token.lexeme symbol) →
          (outline.target cursor = .ofToken token ↔
            ∀ symbol ∈ outline.symbols, symbol.isVisibleOn token.line →
              symbol.name ≠ token.lexeme) ∧
          ∀ symbol, outline.target cursor = .ofSymbol symbol →
            symbol ∈ outline.symbols ∧ symbol.isVisibleOn token.line ∧
              symbol.name = token.lexeme) := by
  intro cursor outline token isText dotted
  have notDot : cursor.current.kind ≠ .dot := by
    rw [show cursor.current.kind = .text from isText]
    decide
  obtain ⟨chain, ends⟩ := Chain.exists_at?_of_previous notDot dotted
  refine ⟨chain, ends, ?_, ?_⟩
  · rintro ⟨symbol, selected⟩
    exact target_of_selects isText ends selected
  · intro unselected
    rw [target_of_no_selects isText ends unselected, ← lookup?_eq_none_iff_visible]
    cases found : outline.lookup? token.lexeme token.line with
    | none => simp [token]
    | some symbol =>
      obtain ⟨offered, named⟩ := Outline.mem_offered_of_lookup? found
      obtain ⟨listed, visible⟩ := (mem_offered_tokenize_iff named).mp offered
      refine ⟨by simp, ?_⟩
      rintro other ⟨⟩
      exact ⟨listed, visible, named⟩

/-- A class with a private variable, some text on a line of its own, a variable of that class, and an
access to the private variable. -/
def hiddenSource (between : String) : String :=
  "class P \x7b\n  var x;\n\x7d\n" ++ between ++ "\nvar p P;\np.x;"

/-- The tokens of that document, with those of the text in between. -/
def hiddenTokens (between : List Token) : List Token :=
  [⟨.keyword, "class", 1, 0⟩, ⟨.text, "P", 1, 6⟩, ⟨.braceOpen, "\x7b", 1, 8⟩,
    ⟨.keyword, "var", 2, 2⟩, ⟨.text, "x", 2, 6⟩, ⟨.semicolon, ";", 2, 7⟩,
    ⟨.braceClose, "\x7d", 3, 0⟩] ++ between ++
  [⟨.keyword, "var", 5, 0⟩, ⟨.text, "p", 5, 4⟩, ⟨.text, "P", 5, 6⟩, ⟨.semicolon, ";", 5, 7⟩,
    ⟨.text, "p", 6, 0⟩, ⟨.dot, ".", 6, 1⟩, ⟨.text, "x", 6, 2⟩, ⟨.semicolon, ";", 6, 3⟩]

/-- The chain before the access. -/
def hiddenChain : Chain where
  segments := [⟨.text, "p", 6, 0⟩]
  typed := "x"

/-- The class gives no access to its private variable, no other symbol has that name, and the name
stands for itself. -/
theorem target_behind_dot_hidden :
    let cursor : Cursor := { tokens := tokenize (hiddenSource ""), position := 13 }
    let outline := Outline.ofTokens (tokenize (hiddenSource ""))
    cursor.current.kind = .text ∧ cursor.previous.kind = .dot ∧
      (∀ symbol, ¬ outline.Selects hiddenChain cursor.current.lexeme symbol) ∧
      outline.target cursor = .ofToken cursor.current := by
  have read : tokenize (hiddenSource "") = hiddenTokens [] := by decide +kernel
  have general := target_behind_dot (hiddenSource "") 13
  rw [read] at general ⊢
  have dotted : Chain.at? { tokens := hiddenTokens [], position := 13 } = some hiddenChain := by
    decide
  have empty : (Outline.ofTokens (hiddenTokens [])).chainMembers hiddenChain = [] := by cbv
  have unselected (symbol : Symbol) :
      ¬ (Outline.ofTokens (hiddenTokens [])).Selects hiddenChain "x" symbol :=
    not_selects_of_chainMembers_nil empty symbol
  have unseen : ((Outline.ofTokens (hiddenTokens [])).symbols.filter fun symbol =>
      symbol.isVisibleOn 6 && symbol.name = "x") = [] := by cbv
  obtain ⟨chain, same, -, otherwise⟩ := general rfl rfl
  obtain rfl : hiddenChain = chain := Option.some.inj (dotted.symm.trans same)
  refine ⟨rfl, rfl, unselected, (otherwise unselected).1.mpr ?_⟩
  intro symbol listed visible named
  exact List.filter_eq_nil_iff.mp unseen symbol listed
    (Bool.and_eq_true_iff.mpr ⟨visible, decide_eq_true named⟩)

/-- The variable of the document that is declared in between. -/
def unrelatedVariable : Symbol where
  id := 2
  declaration := .ofVariable "var" {} ⟨.text, "x", 4, 4⟩
  owners := []

/-- With a variable of that name in the document, the name stands for that variable, which is no member
of the class. -/
theorem target_behind_dot_unrelated :
    let cursor : Cursor := { tokens := tokenize (hiddenSource "var x;"), position := 16 }
    let outline := Outline.ofTokens (tokenize (hiddenSource "var x;"))
    cursor.current.kind = .text ∧ cursor.previous.kind = .dot ∧
      Chain.at? cursor = some hiddenChain ∧
      (∀ symbol, ¬ outline.Selects hiddenChain cursor.current.lexeme symbol) ∧
      outline.target cursor = .ofSymbol unrelatedVariable := by
  have read : tokenize (hiddenSource "var x;") =
      hiddenTokens [⟨.keyword, "var", 4, 0⟩, ⟨.text, "x", 4, 4⟩, ⟨.semicolon, ";", 4, 5⟩] := by
    decide +kernel
  rw [read]
  refine ⟨rfl, rfl, by decide, not_selects_of_chainMembers_nil ?_, ?_⟩ <;> cbv

end ScriptLens
