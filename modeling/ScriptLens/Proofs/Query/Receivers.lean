import ScriptLens.Query.Chain
import ScriptLens.Token.Source

/-! # Names before a dot
The names before a dot are read from right to left, as long as a name and a dot come in turns. A chain
of names that starts behind something other than a dot is found as a whole. Where the chain starts
behind a dot that has no name before it, as in `f().a.`, its start is missing, and the names behind
that dot are found all the same.
Main definitions:
* `Spells`: tokens that are names with dots between them.
* `EndsInChain`: tokens that end in a chain of names, with no dot before it.
* `EndsInStump`: tokens that end in a chain of names whose start is missing.
Main statements:
* `Spells.namesBefore_append`: reading from the right finds all names of a chain and goes on before it.
* `exists_spells`: what is found are the names of a chain, and nothing is found before it.
* `segments_of_at?`: the chain at a cursor is the whole chain, except where its start is missing. -/

namespace ScriptLens

/-! ## Chains of names -/

/-- Names with dots between them, as tokens spell them. -/
inductive Spells : List Token → List Token → Prop where
  /-- A name alone. -/
  | last {name : Token} (isName : name.kind = .text) : Spells [name] [name]
  /-- A name, a dot, and further names. -/
  | more {name dot : Token} {tokens names : List Token} (isName : name.kind = .text)
      (isDot : dot.kind = .dot) (later : Spells tokens names) :
      Spells (name :: dot :: tokens) (name :: names)

/-- Whether tokens end in a chain of names, and there is no dot before the chain. -/
def EndsInChain (tokens names : List Token) : Prop :=
  ∃ earlier spelling, tokens = earlier ++ spelling ∧ Spells spelling names ∧
    ∀ token ∈ earlier.getLast?, token.kind ≠ .dot

/-- Whether tokens end in a chain of names whose start is missing: there is a dot before the chain, but
no name before that dot. -/
def EndsInStump (tokens : List Token) : Prop :=
  ∃ earlier dot spelling names, tokens = earlier ++ dot :: spelling ∧ dot.kind = .dot ∧
    Spells spelling names ∧ ∀ token ∈ earlier.getLast?, token.kind ≠ .text

namespace Spells

variable {tokens names : List Token}

/-- A chain has a name. -/
theorem names_ne_nil (spelled : Spells tokens names) : names ≠ [] := by
  cases spelled <;> simp

/-- There is one dot less than there are names. -/
theorem length_tokens (spelled : Spells tokens names) : tokens.length + 1 = 2 * names.length := by
  induction spelled with
  | last _ => rfl
  | more _ _ _ ih =>
    simp only [List.length_cons]
    omega

/-- A chain goes on with a dot and a name. -/
theorem append_name {dot name : Token} (spelled : Spells tokens names) (isDot : dot.kind = .dot)
    (isName : name.kind = .text) : Spells (tokens ++ [dot, name]) (names ++ [name]) := by
  induction spelled with
  | last isFirst => exact .more isFirst isDot (.last isName)
  | more isFirst isNext _ ih => exact .more isFirst isNext ih

end Spells

/-! ## Reading from the right -/

namespace Chain

/-- The names that are read before a name, off the tokens before it in reverse order: reading goes on
only behind a dot. -/
def namesBeyond : List Token → List Token
  | [] => []
  | dot :: earlier => if dot.kind = .dot then namesBefore earlier else []

/-- A name is read, and then the names before it. -/
theorem namesBefore_cons (name : Token) (earlier : List Token) :
    namesBefore (name :: earlier) =
      if name.kind = .text then name :: namesBeyond earlier else [] := by
  cases earlier with
  | nil => rfl
  | cons dot earlier =>
    by_cases isName : name.kind = .text <;> by_cases isDot : dot.kind = .dot <;>
      simp [namesBefore, namesBeyond, isName, isDot]

/-- Nothing is read exactly if there is no name to start with. -/
@[simp] theorem namesBefore_eq_nil_iff {reversed : List Token} :
    namesBefore reversed = [] ↔ ∀ token ∈ reversed.head?, token.kind ≠ .text := by
  cases reversed with
  | nil => simp [namesBefore]
  | cons name earlier => simp [namesBefore_cons]

/-- Reading does not go on exactly if there is no dot to go on with, or no name before that dot. -/
theorem namesBeyond_eq_nil_iff {reversed : List Token} :
    namesBeyond reversed = [] ↔
      (∀ token ∈ reversed.head?, token.kind ≠ .dot) ∨
        ∃ dot earlier, reversed = dot :: earlier ∧ dot.kind = .dot ∧
          ∀ token ∈ earlier.head?, token.kind ≠ .text := by
  cases reversed with
  | nil => simp [namesBeyond]
  | cons dot earlier =>
    by_cases isDot : dot.kind = .dot
    · simp only [namesBeyond, if_pos isDot, namesBefore_eq_nil_iff]
      constructor
      · intro noName
        exact Or.inr ⟨dot, earlier, rfl, isDot, noName⟩
      · rintro (noDot | ⟨_, _, same, -, noName⟩)
        · exact absurd isDot (noDot dot rfl)
        · obtain ⟨rfl, rfl⟩ := List.cons.inj same
          exact noName
    · simp [namesBeyond, isDot]

end Chain

open Chain

/-- All names of a chain are read, the last one first, and then what can be read before the chain. -/
theorem Spells.namesBefore_append {tokens names : List Token} (spelled : Spells tokens names)
    (earlier : List Token) :
    namesBefore (tokens.reverse ++ earlier) = names.reverse ++ namesBeyond earlier := by
  induction spelled generalizing earlier with
  | last isName => simp [namesBefore_cons, isName]
  | @more name dot tokens names isName isDot _ ih =>
    -- The first name and its dot are the last tokens to be read.
    have tokensBack : (name :: dot :: tokens).reverse ++ earlier =
        tokens.reverse ++ (dot :: name :: earlier) := by simp
    rw [tokensBack, ih]
    simp [namesBeyond, isDot, namesBefore_cons, isName]

/-- What is read are the names of a chain, and nothing can be read before it. -/
theorem exists_spells {reversed : List Token} (found : namesBefore reversed ≠ []) :
    ∃ spelling names earlier, reversed = spelling.reverse ++ earlier ∧ Spells spelling names ∧
      namesBeyond earlier = [] := by
  fun_induction namesBefore reversed with
  | case1 => exact absurd rfl found
  | case2 name isName => exact ⟨[name], [name], [], rfl, .last isName, rfl⟩
  | case3 name notName => exact absurd rfl found
  | case4 name dot earlier isName isDot ih =>
    by_cases stops : namesBefore earlier = []
    · exact ⟨[name], [name], dot :: earlier, rfl, .last isName, by simp [namesBeyond, isDot, stops]⟩
    · obtain ⟨spelling, names, before, rfl, spelled, nothing⟩ := ih stops
      exact ⟨spelling ++ [dot, name], names ++ [name], before, by simp,
        spelled.append_name isDot isName, nothing⟩
  | case5 name dot earlier isName notDot =>
    exact ⟨[name], [name], dot :: earlier, rfl, .last isName, by simp [namesBeyond, notDot]⟩
  | case6 name dot earlier notName => exact absurd rfl found

/-! ## Whole chains and stumps -/

section

variable {receiver names : List Token}

/-- A chain without a dot before it is read as a whole. -/
theorem EndsInChain.namesBefore_eq (whole : EndsInChain receiver names) :
    (namesBefore receiver.reverse).reverse = names := by
  obtain ⟨earlier, spelling, rfl, spelled, noDot⟩ := whole
  have stops : namesBeyond earlier.reverse = [] :=
    namesBeyond_eq_nil_iff.mpr (Or.inl (by simpa using noDot))
  rw [List.reverse_append, spelled.namesBefore_append, stops, List.append_nil, List.reverse_reverse]

/-- The names behind a missing start are read. -/
theorem EndsInStump.exists_namesBefore (stump : EndsInStump receiver) :
    ∃ earlier dot spelling, receiver = earlier ++ dot :: spelling ∧ dot.kind = .dot ∧
      Spells spelling (namesBefore receiver.reverse).reverse := by
  obtain ⟨earlier, dot, spelling, names, rfl, isDot, spelled, noName⟩ := stump
  have stops : namesBeyond (dot :: earlier.reverse) = [] :=
    namesBeyond_eq_nil_iff.mpr (Or.inr ⟨dot, _, rfl, isDot, by simpa using noName⟩)
  have read : (namesBefore (earlier ++ dot :: spelling).reverse).reverse = names := by
    rw [List.reverse_append, List.reverse_cons, List.append_assoc, List.singleton_append,
      spelled.namesBefore_append, stops, List.append_nil, List.reverse_reverse]
  exact ⟨earlier, dot, spelling, rfl, isDot, read.symm ▸ spelled⟩

/-- Where something is read, it is a whole chain, or one whose start is missing. -/
theorem endsInChain_or_endsInStump (found : namesBefore receiver.reverse ≠ []) :
    EndsInChain receiver (namesBefore receiver.reverse).reverse ∨ EndsInStump receiver := by
  obtain ⟨spelling, names, before, reversed, spelled, stops⟩ := exists_spells found
  obtain rfl : receiver = before.reverse ++ spelling := by
    simpa using congrArg List.reverse reversed
  rcases namesBeyond_eq_nil_iff.mp stops with noDot | ⟨dot, earlier, rfl, isDot, noName⟩
  · have whole : EndsInChain (before.reverse ++ spelling) names :=
      ⟨before.reverse, spelling, rfl, spelled, by simpa using noDot⟩
    exact Or.inl (whole.namesBefore_eq.symm ▸ whole)
  · exact Or.inr ⟨earlier.reverse, dot, spelling, names, by simp, isDot, spelled,
      by simpa using noName⟩

/-- A chain whose start is missing is no whole chain. -/
theorem EndsInStump.not_endsInChain (stump : EndsInStump receiver) (names : List Token) :
    ¬ EndsInChain receiver names := by
  intro whole
  have same := whole.namesBefore_eq
  obtain ⟨earlier, dot, spelling, rfl, isDot, spelled⟩ := stump.exists_namesBefore
  rw [same] at spelled
  obtain ⟨before, other, split, otherSpelled, noDot⟩ := whole
  -- Both spell the same names, and so the dot stands right before both of them.
  have lengths : other.length = spelling.length := by
    have := spelled.length_tokens
    have := otherSpelled.length_tokens
    omega
  rw [← List.singleton_append, ← List.append_assoc] at split
  obtain ⟨rfl, -⟩ := List.append_inj' split lengths.symm
  exact noDot dot (by simp) isDot

end

/-! ## The chain at a cursor -/

/-- The dot of a chain is the token under the cursor or the one before it, and the names of the chain
are read off the tokens before that dot. -/
theorem exists_receiver_of_at? {cursor : Cursor} {chain : Chain} (h : Chain.at? cursor = some chain) :
    ∃ receiver dot later, cursor.tokens = receiver ++ dot :: later ∧ dot.kind = .dot ∧
      (cursor.position = receiver.length ∨
        cursor.current.kind ≠ .dot ∧ cursor.position = receiver.length + 1) ∧
      chain.segments = (namesBefore receiver.reverse).reverse := by
  unfold Chain.at? at h
  split at h
  · next isDot =>
    cases h
    -- There is a token under the cursor, since the missing token is no dot.
    have present : cursor.position < cursor.tokens.length := by
      refine Nat.lt_of_not_le fun past => ?_
      rw [Cursor.current, Cursor.get, List.getElem?_eq_none past] at isDot
      cases isDot
    have current : cursor.current = cursor.tokens[cursor.position] := by
      rw [Cursor.current, Cursor.get, List.getElem?_eq_getElem present, Option.getD_some]
    refine ⟨cursor.tokens.take cursor.position, cursor.current,
      cursor.tokens.drop (cursor.position + 1), ?_, isDot, Or.inl ?_, ?_⟩
    · rw [current, List.getElem_cons_drop, List.take_append_drop]
    · rw [List.length_take_of_le (Nat.le_of_lt present)]
    · rw [Cursor.before, if_pos (Nat.le_of_lt present)]
  · next notDot =>
    split at h
    · cases h
    · next dot earlier before =>
      split at h
      · next isDot =>
        cases h
        unfold Cursor.before at before
        split at before
        · next within =>
          have taken : cursor.tokens.take cursor.position = earlier.reverse ++ [dot] := by
            simpa using congrArg List.reverse before
          have place := congrArg List.length taken
          rw [List.length_take_of_le within, List.length_append] at place
          refine ⟨earlier.reverse, dot, cursor.tokens.drop cursor.position, ?_, isDot,
            Or.inr ⟨notDot, place⟩, by simp⟩
          rw [← List.singleton_append, ← List.append_assoc, ← taken, List.take_append_drop]
        · cases before
      · cases h

/-- **The chain at a cursor.** Its dot is the token under the cursor, or else the one before it. Unless
the chain before that dot has lost its start, its names are found exactly if they stand there with dots
between them and without a dot before the first one, and otherwise none is found. A chain without a dot
before it is found as a whole. Where the start is missing, names are found although they are no whole
chain. -/
theorem segments_of_at? {cursor : Cursor} {chain : Chain} (h : Chain.at? cursor = some chain) :
    ∃ receiver dot later, cursor.tokens = receiver ++ dot :: later ∧ dot.kind = .dot ∧
      (cursor.position = receiver.length ∨
        cursor.current.kind ≠ .dot ∧ cursor.position = receiver.length + 1) ∧
      (¬ EndsInStump receiver →
        (chain.segments ≠ [] → EndsInChain receiver chain.segments) ∧
        ((∀ names, ¬ EndsInChain receiver names) → chain.segments = [])) ∧
      (∀ names, EndsInChain receiver names → chain.segments = names) ∧
      (EndsInStump receiver → chain.segments ≠ [] ∧ ∀ names, ¬ EndsInChain receiver names) := by
  obtain ⟨receiver, dot, later, tokens, isDot, place, read⟩ := exists_receiver_of_at? h
  -- Without a missing start, whatever is read is a whole chain.
  have found (noStump : ¬ EndsInStump receiver) (some : chain.segments ≠ []) :
      EndsInChain receiver chain.segments := by
    rw [read] at some ⊢
    exact (endsInChain_or_endsInStump (by simpa using some)).resolve_right noStump
  refine ⟨receiver, dot, later, tokens, isDot, place, ?_, ?_, ?_⟩
  · intro noStump
    refine ⟨found noStump, fun none => Classical.byContradiction fun some => ?_⟩
    exact none _ (found noStump some)
  · intro names whole
    rw [read, whole.namesBefore_eq]
  · intro stump
    obtain ⟨_, _, _, -, -, spelled⟩ := stump.exists_namesBefore
    rw [← read] at spelled
    exact ⟨spelled.names_ne_nil, stump.not_endsInChain⟩

/-- The tokens of an assignment of a dotted access that is being typed in. -/
def assignmentTokens : List Token :=
  [⟨.text, "x", 1, 0⟩, ⟨.equalSign, "=", 1, 2⟩, ⟨.text, "a", 1, 4⟩, ⟨.dot, ".", 1, 5⟩,
    ⟨.text, "b", 1, 6⟩, ⟨.dot, ".", 1, 7⟩]

/-- Behind the last dot both names are found, which are all that stands before it up to the equal
sign. -/
theorem segments_of_at?_assignment :
    let cursor : Cursor := { tokens := tokenize "x = a.b.", position := 5 }
    ∃ chain, Chain.at? cursor = some chain ∧ EndsInChain (cursor.tokens.take 5) chain.segments ∧
      chain.segments.map (·.lexeme) = ["a", "b"] := by
  have read : tokenize "x = a.b." = assignmentTokens := by decide +kernel
  rw [read]
  have dotted : Chain.at? { tokens := assignmentTokens, position := 5 } =
      some ⟨[⟨.text, "a", 1, 4⟩, ⟨.text, "b", 1, 6⟩], ""⟩ := by decide
  refine ⟨_, dotted, ?_, rfl⟩
  obtain ⟨receiver, dot, later, tokens, -, place, chains, -, stumps⟩ := segments_of_at? dotted
  have before : assignmentTokens.take 5 = receiver := by
    rcases place with under | ⟨notDot, -⟩
    · have split : assignmentTokens = receiver ++ dot :: later := tokens
      rw [split]
      exact List.take_left' under.symm
    · exact absurd rfl notDot
  have whole : EndsInChain receiver [⟨.text, "a", 1, 4⟩, ⟨.text, "b", 1, 6⟩] :=
    before ▸ ⟨assignmentTokens.take 2, _, rfl, .more rfl rfl (.last rfl), by simp [assignmentTokens]⟩
  have noStump : ¬ EndsInStump receiver := fun stump => (stumps stump).2 _ whole
  exact before ▸ (chains noStump).1 (List.cons_ne_nil _ _)

/-- The tokens of an access to a member of a result. -/
def resultTokens : List Token :=
  [⟨.text, "f", 1, 0⟩, ⟨.parenthesisOpen, "(", 1, 1⟩, ⟨.parenthesisClose, ")", 1, 2⟩,
    ⟨.dot, ".", 1, 3⟩, ⟨.text, "a", 1, 4⟩, ⟨.dot, ".", 1, 5⟩]

/-- Behind a member of a result the member alone is found, although the tokens before the last dot are
no whole chain. -/
theorem segments_of_at?_result :
    let cursor : Cursor := { tokens := tokenize "f().a.", position := 5 }
    Chain.at? cursor = some ⟨[⟨.text, "a", 1, 4⟩], ""⟩ ∧ cursor.current.kind = .dot ∧
      ∀ names, ¬ EndsInChain (cursor.tokens.take 5) names := by
  have read : tokenize "f().a." = resultTokens := by decide +kernel
  rw [read]
  have stump : EndsInStump (resultTokens.take 5) :=
    ⟨resultTokens.take 3, _, _, _, rfl, rfl, .last rfl, by simp [resultTokens]⟩
  exact ⟨by decide, rfl, stump.not_endsInChain⟩

end ScriptLens
