import ScriptLens.Proofs.Symbol.ClassNames
import ScriptLens.Proofs.Symbol.Completeness
import ScriptLens.Proofs.Token.Balance

/-! # Broken bodies
A body whose braces are balanced may be broken in any other way without doing harm to what stands
around it. Whatever its tokens are, reading goes on right behind its closing brace, with the same
classes known and no type pending, so everything outside is read as if the body were empty.
Main definitions:
* `Reader.BodyHead`: the tokens up to the body of a class or a function.
* `Entry.shifted`: numbers from a given one on are raised.
Main statements:
* `Reader.context_read`: the body of a class or a function settles nothing for the tokens behind it.
* `Forest.number_shifted`: the same declarations, numbered later.
* `read_brokenBody`: what stands around a broken body. -/

namespace ScriptLens

namespace Reader

/-! ## What bodies settle -/

/-- Outside the document and the namespaces no classes are declared. -/
theorem classesOf_read_eq_nil (region : Region) (context : Context) (access : Access)
    (tokens : List Token) (inner : region ≠ .outer) :
    classesOf (read region context access tokens).1.toList = [] := by
  revert inner
  refine read_induction (motive := fun region _ forest =>
    region ≠ .outer → classesOf forest.toList = []) ?_ ?_ ?_ region context access tokens
  · exact fun region _ => rfl
  · exact fun region tokens rest forest _ ih => ih
  · intro region tokens found rest inner beside finds bare innerIh besideIh inside
    obtain ⟨holds, coherent⟩ := finds.holds_and_coherent
    obtain ⟨layout, fits⟩ := finds.layout
    rw [Forest.toList, classesOf_cons, Forest.toList_withLeaves, classesOf_append,
      classesOf_append, fits.parameters_eq, classesOf_parameters, besideIh inside]
    -- Only functions and variables are left, and a variable has no body.
    unfold Found.Coherent at coherent
    split at coherent
    · next kind =>
      rw [kind] at holds
      cases region <;> simp [Region.holds] at holds inside
    · next kind =>
      rw [kind] at holds
      cases region <;> simp [Region.holds] at holds inside
    · next kind =>
      rw [className?_of_ne (by simp [kind]), innerIh (by simp [coherent])]
      rfl
    · exact coherent.elim
    · next kind =>
      rw [className?_of_ne (by simp [kind]), bare coherent.1]
      rfl

/-- A variable uses up the pending type. -/
@[simp] theorem pendingType_readVariable (context : Context) (access : Access) (start : Token)
    (tokens : List Token) :
    (readVariable context access start tokens).context.pendingType = none := by
  unfold readVariable
  cases tokens with
  | nil => rfl
  | cons name tokens =>
    dsimp only
    split
    · split <;> rfl
    · rfl

/-- A named declaration keeps the pending type if its rest does. -/
theorem pendingType_readNamed {context : Context} {access : Access} {tokens : List Token}
    {readRest : Token → List Token → Step}
    (h : ∀ name later, (readRest name later).context.pendingType = context.pendingType) :
    (readNamed context access tokens readRest).context.pendingType = context.pendingType := by
  unfold readNamed
  cases tokens with
  | nil => rfl
  | cons name tokens =>
    dsimp only
    split
    · exact h name tokens
    · rfl

/-- A keyword keeps the pending type. -/
@[simp] theorem pendingType_readKeyword (region : Region) (context : Context) (access : Access)
    (keyword : Token) (tokens : List Token) :
    (readKeyword region context access keyword tokens).context.pendingType =
      context.pendingType := by
  unfold readKeyword
  split
  · refine pendingType_readNamed fun name later => ?_
    simp
  split
  · simp
  split
  · refine pendingType_readNamed fun name later => ?_
    rw [(readContainer_context_class _ _ _ _ _).1]
  split
  · refine pendingType_readNamed fun name later => ?_
    rw [(readContainer_context_class _ _ _ _ _).1]
  split
  · split
    · rfl
    · split <;> rfl
  · rfl

/-- A step at a token that is no directive leaves no type pending where none was. -/
theorem pendingType_step {region : Region} {context : Context} {access : Access} {token : Token}
    {tokens : List Token} (plain : token.directedType? = none)
    (settled : context.pendingType = none) :
    (step region context access token tokens).context.pendingType = none := by
  unfold step
  rw [plain]
  dsimp only
  split
  · exact pendingType_readVariable context access token tokens
  split
  · simp [settled]
  · exact settled

/-- Tokens without directives leave no type pending. -/
theorem pendingType_read {region : Region} {context : Context} {access : Access}
    {tokens : List Token} (plain : ∀ token ∈ tokens, token.directedType? = none)
    (settled : context.pendingType = none) :
    (read region context access tokens).2.pendingType = none := by
  fun_induction read region context access tokens with
  | case1 region context access => exact settled
  | case2 region context access token tokens next nothing ih =>
    obtain ⟨first, others⟩ := List.forall_mem_cons.mp plain
    have taken := body_append_rest_suffix region context access token tokens
    refine ih (fun other listed => others other (taken.subset ?_)) (pendingType_step first settled)
    exact List.mem_append_right _ listed
  | case3 region context access token tokens next found hfound inner beside innerIh _ besideIh =>
    obtain ⟨first, others⟩ := List.forall_mem_cons.mp plain
    have taken := body_append_rest_suffix region context access token tokens
    have below := innerIh (fun other listed => others other
      (taken.subset (List.mem_append_left _ listed))) (pendingType_step first settled)
    exact besideIh (fun other listed => others other
      (taken.subset (List.mem_append_right _ listed))) below

/-- **A body settles nothing** for the tokens behind it, unless it holds a directive. -/
theorem context_read {region : Region} {context : Context} {access : Access} {tokens : List Token}
    (inner : region ≠ .outer) (plain : ∀ token ∈ tokens, token.directedType? = none)
    (settled : context.pendingType = none) : (read region context access tokens).2 = context := by
  have classes : (read region context access tokens).2.classNames = context.classNames := by
    rw [classNames_read, classesOf_read_eq_nil region context access tokens inner]
    rfl
  have pending : (read region context access tokens).2.pendingType = context.pendingType := by
    rw [pendingType_read plain settled, settled]
  calc (read region context access tokens).2
      = ⟨(read region context access tokens).2.classNames,
          (read region context access tokens).2.pendingType⟩ := rfl
    _ = ⟨context.classNames, context.pendingType⟩ := by rw [classes, pending]
    _ = context := rfl

/-! ## Heads -/

/-- The tokens of a class, or of a function without parameters, up to the brace that opens its
body. -/
inductive BodyHead : List Token → Prop where
  /-- The keyword of classes, a name and a brace. -/
  | classHead {keyword name brace : Token} (isKeyword : keyword.kind = .keyword)
      (spelt : keyword.lexeme = "class") (named : name.kind = .text)
      (opens : brace.kind = .braceOpen) : BodyHead [keyword, name, brace]
  /-- The keyword of functions, a name, two parentheses and a brace. -/
  | functionHead {keyword name left right brace : Token} (isKeyword : keyword.kind = .keyword)
      (spelt : keyword.lexeme = "function") (named : name.kind = .text)
      (opensList : left.kind = .parenthesisOpen) (closesList : right.kind = .parenthesisClose)
      (opens : brace.kind = .braceOpen) : BodyHead [keyword, name, left, right, brace]

/-- The lines of a declaration end with the last token of its body. -/
@[simp] theorem through_append_singleton (declaration : Declaration) (body : List Token)
    (close : Token) :
    declaration.through (body ++ [close]) = declaration.through [close] := by
  unfold Declaration.through
  rw [List.getLast?_concat]
  rfl

/-- Where only a closing parenthesis is left, there are no parameters. -/
theorem parameters_closing {close : Token} (closes : close.kind = .parenthesisClose) :
    parameters [close] = [] := by
  have cut : splitParameters 0 [] [close] = [[]] := by
    simp [splitParameters, closes, opensBracket, endsParameter]
  rw [parameters, cut]
  rfl

/-- **One step.** A step at the head of a class or a function takes the body up to its closing
brace. What it finds and what it leaves is the same for every body, but for the body itself. -/
theorem BodyHead.exists_step {head : List Token} (isHead : BodyHead head) (context : Context)
    (access : Access) {close : Token} (closes : close.kind = .braceClose) (post : List Token) :
    ∃ token tokens declaration region next nextAccess, head = token :: tokens ∧
      region ≠ .outer ∧ next.pendingType = context.pendingType ∧ declaration.unclosed = none ∧
      ∀ body, Bracket.braces.Balanced body →
        step .outer context access token (tokens ++ (body ++ close :: post)) =
          { found := some { declaration, region, body := body ++ [close] }
            context := next, access := nextAccess, rest := post } := by
  cases isHead with
  | @classHead keyword name brace isKeyword spelt named opens =>
    refine ⟨keyword, [name, brace], (Declaration.ofClass name).through [close], .classBody,
      { context with classNames := name.lexeme :: context.classNames }, access, rfl, by simp, rfl,
      rfl, fun body balanced => ?_⟩
    have inside := Bracket.enclosed?_of_balanced (by decide) balanced opens closes post
    rw [step_of_keyword isKeyword (by rw [spelt]; decide)]
    simp only [readKeyword, spelt, List.cons_append, List.nil_append, readNamed, named,
      readContainer, inside, through_append_singleton]
    simp
  | @functionHead keyword name left right brace isKeyword spelt named opensList closesList opens =>
    refine ⟨keyword, [name, left, right, brace],
      (Declaration.ofFunction access name).through [close], .functionBody, context,
      { access with isStatic := false }, rfl, by simp, rfl, rfl, fun body balanced => ?_⟩
    have list := Bracket.enclosed?_of_balanced (by decide) (Bracket.balanced_nil .parentheses)
      opensList closesList (brace :: (body ++ close :: post))
    have inside := Bracket.enclosed?_of_balanced (by decide) balanced opens closes post
    rw [List.nil_append, List.nil_append] at list
    rw [step_of_keyword isKeyword (by rw [spelt]; decide)]
    simp only [readKeyword, spelt, List.cons_append, List.nil_append, readNamed, named,
      readFunction, list, inside, through_append_singleton, parameters_closing closesList]
    simp

/-- Where only a closing brace is left, nothing is declared. -/
theorem read_closing {region : Region} {context : Context} {access : Access} {close : Token}
    (closes : close.kind = .braceClose) : (read region context access [close]).1 = .nil := by
  have nothing : (step region context access close []).found = none := by
    rw [step, Grammar.directedType?_of_ne_text (by simp [closes])]
    simp only [closes]
    split <;> rfl
  have noRest : (step region context access close []).rest = [] := by
    have taken := body_append_rest_suffix region context access close []
    exact (List.append_eq_nil_iff.mp (List.suffix_nil.mp taken)).2
  rw [read]
  simp only [nothing, noRest, read]

/-- **Reading a body.** Behind the head of a class or a function comes its body, and what is read
behind it does not depend on the body. -/
theorem BodyHead.exists_read {head : List Token} (isHead : BodyHead head) {context : Context}
    (settled : context.pendingType = none) (access : Access) {close : Token}
    (closes : close.kind = .braceClose) (post : List Token) :
    ∃ (declaration : Declaration) (region : Region) (next : Context)
      (beside : Forest Declaration × Context), declaration.unclosed = none ∧
      ∀ body, Bracket.braces.Balanced body → (∀ token ∈ body, token.directedType? = none) →
        read .outer context access (head ++ (body ++ close :: post)) =
          (.cons declaration (read region next {} (body ++ [close])).1 beside.1, beside.2) := by
  obtain ⟨token, tokens, declaration, region, next, nextAccess, rfl, inner, pending, closed,
    step⟩ := isHead.exists_step context access closes post
  refine ⟨declaration, region, next, read .outer next nextAccess post, closed, ?_⟩
  intro body balanced plain
  have unchanged : (read region next {} (body ++ [close])).2 = next := by
    refine context_read inner (fun token listed => ?_) (pending.trans settled)
    rcases List.mem_append.mp listed with inside | last
    · exact plain token inside
    · rw [List.mem_singleton.mp last]
      exact Grammar.directedType?_of_ne_text (by simp [closes])
  rw [List.cons_append, Grammar.read_of_step_found (step body balanced), unchanged]
  rfl

end Reader

/-! ## Numbers -/

/-- An entry with its number raised, if that is at least `first`. -/
def Entry.shifted (first count : Nat) (entry : Entry) : Entry :=
  { entry with id := if entry.id < first then entry.id else entry.id + count }

/-- **The same declarations, numbered later**, have greater numbers, and their owners with them. -/
theorem Forest.number_shifted {low : Nat} (count : Nat) (owners : List Entry) (first : Nat)
    (above : low ≤ first) (forest : Forest Declaration) :
    forest.number (owners.map (·.shifted low count)) (first + count) =
      (forest.number owners first).map (Symbol.mapEntries (·.shifted low count)) := by
  induction forest generalizing owners first with
  | nil => rfl
  | cons declaration below beside belowInduction besideInduction =>
    have raised : Entry.shifted low count { id := first, declaration } =
        { id := first + count, declaration } := by
      rw [Entry.shifted, if_neg (Nat.not_lt.mpr above)]
    have lower := belowInduction ({ id := first, declaration } :: owners) (first + 1) (by omega)
    have later := besideInduction owners (first + 1 + below.size) (by omega)
    rw [List.map_cons, raised, Nat.add_right_comm] at lower
    rw [Nat.add_right_comm, Nat.add_right_comm first 1 count] at later
    simp only [number, map, Symbol.mapEntries, raised]
    rw [lower, later]

/-- Owners with smaller numbers stay as they are. -/
theorem map_shifted_eq_self {first : Nat} (count : Nat) {owners : List Entry}
    (older : ∀ owner ∈ owners, owner.id < first) : owners.map (·.shifted first count) = owners := by
  have same : ∀ owner ∈ owners, owner.shifted first count = owner := by
    intro owner listed
    rw [Entry.shifted, if_pos (older owner listed)]
  exact (List.map_congr_left same).trans (List.map_id owners)

/-- Declarations behind some others have numbers raised by the number of these, where their owners
are older. -/
theorem Forest.number_behind {first : Nat} {owners : List Entry}
    (older : ∀ owner ∈ owners, owner.id < first) (count : Nat) (forest : Forest Declaration) :
    forest.number owners (first + count) =
      (forest.number owners first).map (Symbol.mapEntries (·.shifted first count)) := by
  rw [← number_shifted count owners first (Nat.le_refl _), map_shifted_eq_self count older]

/-- Numbers do not matter to the errors. -/
@[simp] theorem errors_map_shifted (low count : Nat) (outline : Outline) :
    Outline.errors (outline.map (Symbol.mapEntries (·.shifted low count))) = outline.errors := by
  rw [Outline.errors, Outline.symbols, Forest.toList_map, List.filterMap_map]
  rfl

/-- The errors of a tree whose root has none, and of the trees beside it. -/
theorem errors_cons {symbol : Symbol} (closed : symbol.declaration.unclosed = none)
    (inner beside : Outline) :
    Outline.errors (.cons symbol inner beside) = inner.errors ++ beside.errors := by
  have noError : symbol.declaration.bracketError? = none := by
    rw [Declaration.bracketError?, closed, Option.map_none]
  simp only [Outline.errors, Outline.symbols, Forest.toList, List.filterMap_cons, noError,
    List.filterMap_append]

/-! ## Outlines -/

/-- **A broken body does no harm around it.** A class, or a function without parameters, is read
from any state of the document or a namespace in which no type is pending. Its body is balanced in
braces and holds no directive, and is otherwise arbitrary. Then everything but the members of the
body is read as with an empty body, the numbers behind the body are raised by the number of its
members, and the errors are those with the empty body and those of the members. -/
theorem read_brokenBody (context : Reader.Context) (access : Access) (owners : List Entry)
    (first : Nat) (head body post : List Token) (close : Token)
    (settled : context.pendingType = none) (older : ∀ owner ∈ owners, owner.id < first)
    (isHead : Reader.BodyHead head) (balanced : Bracket.braces.Balanced body)
    (plain : ∀ token ∈ body, token.directedType? = none) (closes : close.kind = .braceClose) :
    let broken := Reader.read .outer context access (head ++ body ++ close :: post)
    let clean := Reader.read .outer context access (head ++ close :: post)
    ∃ (symbol : Symbol) (inner beside : Outline),
      broken.1.number owners first = .cons symbol inner
        (beside.map (Symbol.mapEntries (·.shifted (first + 1) inner.size))) ∧
      clean.1.number owners first = .cons symbol .nil beside ∧
      Outline.errors (broken.1.number owners first) =
        inner.errors ++ Outline.errors (clean.1.number owners first) ∧
      broken.2 = clean.2 := by
  obtain ⟨declaration, region, next, beside, closed, read⟩ :=
    isHead.exists_read settled access closes post
  have broken := read body balanced plain
  have clean := read [] (Bracket.balanced_nil _) (fun _ listed => absurd listed List.not_mem_nil)
  rw [List.nil_append, List.nil_append, Reader.read_closing closes] at clean
  rw [← List.append_assoc] at broken
  dsimp only
  rw [broken, clean]
  generalize (Reader.read region next {} (body ++ [close])).1 = members
  have behind := Forest.number_behind
    (fun owner listed => Nat.lt_succ_of_lt (older owner listed)) members.size beside.1
  let symbol : Symbol := { id := first, declaration, owners }
  let inner : Outline := members.number (symbol.toEntry :: owners) (first + 1)
  refine ⟨symbol, inner, beside.1.number owners (first + 1), ?_, rfl, ?_, rfl⟩
  · rw [Forest.size_number, ← behind]
    rfl
  · show Outline.errors (.cons symbol inner (beside.1.number owners (first + 1 + members.size))) =
      inner.errors ++ Outline.errors (.cons symbol .nil (beside.1.number owners (first + 1)))
    rw [behind, errors_cons closed, errors_cons closed, errors_map_shifted]
    rfl

/-- The head of a class. -/
def panelHead : List Token :=
  [⟨.keyword, "class", 1, 0⟩, ⟨.text, "Panel", 1, 6⟩, ⟨.braceOpen, "\x7b", 1, 12⟩]

/-- A body that is being typed in: its parameter list never closes, and two declarations have no
names. -/
def halfTypedBody : List Token :=
  [⟨.keyword, "function", 2, 2⟩, ⟨.text, "draw", 2, 11⟩, ⟨.parenthesisOpen, "(", 2, 15⟩,
    ⟨.braceOpen, "\x7b", 2, 17⟩, ⟨.keyword, "var", 3, 4⟩, ⟨.braceClose, "\x7d", 4, 2⟩,
    ⟨.keyword, "class", 5, 2⟩]

/-- The end of the class, and a variable behind it. -/
def panelEnd : List Token :=
  [⟨.braceClose, "\x7d", 6, 0⟩, ⟨.keyword, "var", 7, 0⟩, ⟨.text, "shown", 7, 4⟩,
    ⟨.semicolon, ";", 7, 9⟩]

/-- The variable is there with and without the body, which brings in one error. -/
theorem read_brokenBody_halfTypedBody :
    Reader.BodyHead panelHead ∧ Bracket.braces.Balanced halfTypedBody ∧
      (Outline.ofTokens (panelHead ++ halfTypedBody ++ panelEnd)).errors =
        [{ scope := "function", name := "draw", line := 2, opening := .parenthesisOpen }] ∧
      ∃ (symbol : Symbol) (inner beside : Outline),
        Outline.ofTokens (panelHead ++ halfTypedBody ++ panelEnd) =
          .cons symbol inner (beside.map (Symbol.mapEntries (·.shifted 1 inner.size))) ∧
        Outline.ofTokens (panelHead ++ panelEnd) = .cons symbol .nil beside := by
  have isHead : Reader.BodyHead panelHead := .classHead rfl rfl rfl rfl
  have balanced : Bracket.braces.Balanced halfTypedBody := by decide
  have plain : ∀ token ∈ halfTypedBody, token.directedType? = none := by decide +kernel
  obtain ⟨symbol, inner, beside, broken, clean, -, -⟩ := read_brokenBody {} {} [] 0 panelHead
    halfTypedBody panelEnd.tail ⟨.braceClose, "\x7d", 6, 0⟩ rfl
    (fun _ listed => absurd listed List.not_mem_nil) isHead balanced plain rfl
  exact ⟨isHead, balanced, by decide +kernel, symbol, inner, beside, broken, clean⟩

end ScriptLens
