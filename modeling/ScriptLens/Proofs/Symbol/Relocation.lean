import Mathlib.Order.Hom.Basic
import Mathlib.Order.MinMax
import ScriptLens.Proofs.Symbol.Holders

/-! # Tokens in other places
Reading looks at what the tokens are and at their order, never at where they stand: the places of
tokens go into the declarations, and into nothing else.
Main definitions:
* `Displacement`: other lines, in the same order, and other columns.
* `Token.moved`, `Declaration.moved`, `Reader.Step.moved`: things in other places.
Main statements:
* `Reader.step_moved`: one step of reading.
* `Reader.read_moved`: everything that is read.
* `ofTokens_moved`: the outline. -/

namespace ScriptLens

/-! ## Places -/

/-- A change of places: lines go to lines without changing their order, columns go anywhere. -/
structure Displacement where
  /-- Where the lines go. -/
  line : Nat →o Nat
  /-- Where the columns go. -/
  column : Nat → Nat

/-- A token in another place. -/
def Token.moved (displacement : Displacement) (token : Token) : Token :=
  { token with line := displacement.line token.line, column := displacement.column token.column }

/-- A line range with both of its ends on other lines. -/
def LineRange.map (f : Nat →o Nat) (range : LineRange) : LineRange where
  first := f range.first
  last := f range.last
  first_le_last := f.monotone range.first_le_last

/-- The range between two lines goes to the range between the lines they go to. -/
theorem LineRange.map_between (f : Nat →o Nat) (first last : Nat) :
    (between first last).map f = between (f first) (f last) := by
  have latest : f (max first last) = max (f first) (f last) := f.monotone.map_max
  simp only [between, map, latest]

/-- A declaration in another place. -/
def Declaration.moved (displacement : Displacement) (declaration : Declaration) : Declaration :=
  { declaration with
    line := displacement.line declaration.line
    column := displacement.column declaration.column
    lines := declaration.lines.map displacement.line }

section

variable (displacement : Displacement)

@[simp] theorem Token.kind_moved (token : Token) : (token.moved displacement).kind = token.kind :=
  rfl

@[simp] theorem Token.lexeme_moved (token : Token) :
    (token.moved displacement).lexeme = token.lexeme :=
  rfl

/-- A directive names the same type wherever it stands. -/
@[simp] theorem Token.directedType?_moved (token : Token) :
    (token.moved displacement).directedType? = token.directedType? :=
  rfl

/-- A declaration stands where its name stands. -/
@[simp] theorem Declaration.moved_ofName (kind : Kind) (typeName : String) (access : Access)
    (name : Token) :
    (ofName kind typeName access name).moved displacement =
      ofName kind typeName access (name.moved displacement) := by
  simp only [ofName, moved, LineRange.single, LineRange.map_between, Token.moved]

/-- A declaration ends where the last token of a span stands. -/
@[simp] theorem Declaration.moved_through (declaration : Declaration) (span : List Token) :
    (declaration.through span).moved displacement =
      (declaration.moved displacement).through (span.map (·.moved displacement)) := by
  unfold through
  rw [List.getLast?_map]
  cases span.getLast? with
  | none => rfl
  | some closing => simp only [moved, Option.map_some, LineRange.map_between, Token.moved]

end

/-! ## Spans and parameters -/

/-- A span with its tokens in other places. -/
def Bracket.Span.moved (displacement : Displacement) (span : Span) : Span :=
  { span with
    inside := span.inside.map (·.moved displacement)
    rest := span.rest.map (·.moved displacement) }

namespace Reader

section

variable (displacement : Displacement)

/-- The span of moved tokens. -/
@[simp] theorem span_moved (bracket : Bracket) (depth : Nat) (tokens : List Token) :
    bracket.span depth (tokens.map (·.moved displacement)) =
      (bracket.span depth tokens).moved displacement := by
  induction tokens generalizing depth with
  | nil => rfl
  | cons token tokens ih =>
    by_cases ended : depth = 0
    · simp [Bracket.span, Bracket.Span.moved, ended]
    · simp [Bracket.span, Bracket.Span.moved, ended, ih]

/-- The span that moved tokens enclose. -/
@[simp] theorem enclosed?_moved (bracket : Bracket) (tokens : List Token) :
    bracket.enclosed? (tokens.map (·.moved displacement)) =
      (bracket.enclosed? tokens).map (·.moved displacement) := by
  cases tokens with
  | nil => rfl
  | cons token tokens =>
    by_cases opens : token.kind = bracket.opening
    · simp [Bracket.enclosed?, opens]
    · simp [Bracket.enclosed?, opens]

/-- A parameter list is cut at the same tokens. -/
@[simp] theorem splitParameters_moved (depth : Nat) (reversed tokens : List Token) :
    splitParameters depth (reversed.map (·.moved displacement))
        (tokens.map (·.moved displacement)) =
      (splitParameters depth reversed tokens).map (List.map (·.moved displacement)) := by
  induction tokens generalizing depth reversed with
  | nil => rfl
  | cons token tokens ih =>
    have kept (depth : Nat) := ih depth (token :: reversed)
    have cut := ih 0 []
    rw [List.map_cons] at kept
    rw [List.map_nil] at cut
    rw [List.map_cons]
    unfold splitParameters
    simp only [Token.kind_moved, kept, cut]
    split
    · rfl
    · split
      · split
        · rw [List.map_cons, List.map_reverse]
        · rfl
      · split <;> rfl

/-- The tokens of a parameter declare it where its name stands. -/
@[simp] theorem parameter?_moved (tokens : List Token) :
    parameter? (tokens.map (·.moved displacement)) =
      (parameter? tokens).map (·.moved displacement) := by
  have head : (tokens.map (·.moved displacement)).takeWhile (·.kind ≠ .equalSign) =
      (tokens.takeWhile (·.kind ≠ .equalSign)).map (·.moved displacement) := List.takeWhile_map
  unfold parameter?
  rw [head, ← List.map_reverse]
  cases (tokens.takeWhile (·.kind ≠ .equalSign)).reverse with
  | nil => rfl
  | cons name earlier =>
    by_cases named : name.kind = .text
    · cases earlier <;> simp [named, Declaration.ofParameter, Declaration.moved_ofName]
    · simp [named]

/-- The parameters of a moved parameter list. -/
@[simp] theorem parameters_moved (tokens : List Token) :
    parameters (tokens.map (·.moved displacement)) =
      (parameters tokens).map (·.moved displacement) := by
  have cut := splitParameters_moved displacement 0 [] tokens
  rw [List.map_nil] at cut
  unfold parameters
  rw [cut, List.filterMap_map, List.map_filterMap]
  exact List.filterMap_congr fun segment _ => parameter?_moved displacement segment

end

/-! ## Steps -/

/-- A found declaration with all its tokens in other places. -/
def Found.moved (displacement : Displacement) (found : Found) : Found :=
  { found with
    declaration := found.declaration.moved displacement
    parameters := found.parameters.map (·.moved displacement)
    body := found.body.map (·.moved displacement) }

/-- A step with all its tokens in other places. -/
def Step.moved (displacement : Displacement) (step : Step) : Step :=
  { step with
    found := step.found.map (·.moved displacement)
    rest := step.rest.map (·.moved displacement) }

section

variable (displacement : Displacement)

/-- A token ends the head of a variable wherever it stands. -/
@[simp] theorem endsHead_moved (token : Token) :
    endsHead (token.moved displacement) = endsHead token :=
  rfl

/-- The type written in moved tokens. -/
@[simp] theorem takeWrittenType_moved (tokens : List Token) :
    takeWrittenType (tokens.map (·.moved displacement)) =
      ((takeWrittenType tokens).1, (takeWrittenType tokens).2.map (·.moved displacement)) := by
  rcases tokens with - | ⟨written, - | ⟨next, rest⟩⟩
  · rfl
  · rfl
  · by_cases annotated : written.kind = .text ∧ endsHead next
    · simp [takeWrittenType, annotated]
    · simp only [not_and, Bool.not_eq_true] at annotated
      by_cases isText : written.kind = .text
      · simp [takeWrittenType, annotated isText]
      · simp [takeWrittenType, isText]

/-- The variable that moved tokens declare. -/
@[simp] theorem readVariable_moved (context : Context) (access : Access) (start : Token)
    (tokens : List Token) :
    readVariable context access (start.moved displacement) (tokens.map (·.moved displacement)) =
      (readVariable context access start tokens).moved displacement := by
  cases tokens with
  | nil => rfl
  | cons name tokens =>
    have ended : ((takeWrittenType tokens).2.map (·.moved displacement)).head?.map endsHead =
        (takeWrittenType tokens).2.head?.map endsHead := by
      rw [List.head?_map, Option.map_map]
      rfl
    simp only [List.map_cons, readVariable, Token.kind_moved, takeWrittenType_moved,
      Token.lexeme_moved, ended]
    split
    · split
      · simp [Step.moved, Found.moved, Declaration.ofVariable]
      · rfl
    · rfl

/-- The function that moved tokens declare. -/
@[simp] theorem readFunction_moved (context : Context) (access : Access) (name : Token)
    (tokens : List Token) :
    readFunction context access (name.moved displacement) (tokens.map (·.moved displacement)) =
      (readFunction context access name tokens).moved displacement := by
  have declared : Declaration.ofFunction access (name.moved displacement) =
      (Declaration.ofFunction access name).moved displacement :=
    (Declaration.moved_ofName displacement ..).symm
  unfold readFunction
  rw [enclosed?_moved, declared]
  cases Bracket.parentheses.enclosed? tokens with
  | none => rfl
  | some list =>
    simp only [Option.map_some, Bracket.Span.moved, enclosed?_moved, parameters_moved]
    by_cases listClosed : list.closed
    · simp only [listClosed, ↓reduceIte]
      cases Bracket.braces.enclosed? list.rest with
      | none =>
        simp [Step.moved, Found.moved]
      | some body =>
        simp only [Option.map_some]
        by_cases bodyClosed : body.closed
        · simp [bodyClosed, Step.moved, Found.moved]
        · simp only [bodyClosed, Bool.false_eq_true, ↓reduceIte, Step.moved, Found.moved,
            Option.map_some, List.map_nil, ← Declaration.moved_through]
          rfl
    · simp only [listClosed, Bool.false_eq_true, ↓reduceIte]
      rfl

/-- The container that moved tokens declare. -/
@[simp] theorem readContainer_moved (context : Context) (access : Access)
    (declaration : Declaration) (region : Region) (tokens : List Token) :
    readContainer context access (declaration.moved displacement) region
        (tokens.map (·.moved displacement)) =
      (readContainer context access declaration region tokens).moved displacement := by
  unfold readContainer
  rw [enclosed?_moved]
  cases Bracket.braces.enclosed? tokens with
  | none => rfl
  | some body =>
    simp only [Option.map_some, Bracket.Span.moved]
    by_cases closed : body.closed
    · simp [closed, Step.moved, Found.moved]
    · simp only [closed, Bool.false_eq_true, ↓reduceIte]
      rfl

/-- The declaration that moved tokens name, if the same holds of the tokens behind the name. -/
theorem readNamed_moved (context : Context) (access : Access) (tokens : List Token)
    {readRest : Token → List Token → Step}
    (h : ∀ name later, readRest (name.moved displacement) (later.map (·.moved displacement)) =
      (readRest name later).moved displacement) :
    readNamed context access (tokens.map (·.moved displacement)) readRest =
      (readNamed context access tokens readRest).moved displacement := by
  cases tokens with
  | nil => rfl
  | cons name tokens =>
    simp only [List.map_cons, readNamed, Token.kind_moved, h]
    split <;> rfl

/-- Moved tokens without a colon at their start. -/
@[simp] theorem dropColon_moved (tokens : List Token) :
    dropColon (tokens.map (·.moved displacement)) =
      (dropColon tokens).map (·.moved displacement) := by
  cases tokens with
  | nil => rfl
  | cons token tokens =>
    by_cases colon : token.kind = .colon <;> simp [dropColon, colon]

/-- What follows a keyword among moved tokens. -/
@[simp] theorem readKeyword_moved (region : Region) (context : Context) (access : Access)
    (keyword : Token) (tokens : List Token) :
    readKeyword region context access (keyword.moved displacement)
        (tokens.map (·.moved displacement)) =
      (readKeyword region context access keyword tokens).moved displacement := by
  unfold readKeyword
  simp only [Token.lexeme_moved, dropColon_moved]
  split
  · exact readNamed_moved displacement context access tokens
      (readFunction_moved displacement context access)
  split
  · exact readFunction_moved displacement context access keyword tokens
  split
  · refine readNamed_moved displacement context access tokens fun name later => ?_
    rw [Token.lexeme_moved, Declaration.ofClass, ← Declaration.moved_ofName, readContainer_moved]
    rfl
  split
  · refine readNamed_moved displacement context access tokens fun name later => ?_
    rw [Declaration.ofNamespace, ← Declaration.moved_ofName, readContainer_moved]
    rfl
  split
  · split
    · rfl
    · split <;> rfl
  · rfl

/-- **One step.** A token amounts to the same thing in other places. -/
@[simp] theorem step_moved (region : Region) (context : Context) (access : Access) (token : Token)
    (tokens : List Token) :
    step region context access (token.moved displacement) (tokens.map (·.moved displacement)) =
      (step region context access token tokens).moved displacement := by
  have starts : startsVariable region context (token.moved displacement) =
      startsVariable region context token := rfl
  unfold step
  rw [Token.directedType?_moved, starts, Token.kind_moved]
  split
  · rfl
  split
  · exact readVariable_moved displacement context access token tokens
  split
  · exact readKeyword_moved displacement region context access token tokens
  · rfl

/-- The body found among moved tokens. -/
@[simp] theorem body_moved (step : Step) :
    (step.moved displacement).body = step.body.map (·.moved displacement) := by
  obtain ⟨- | found, context, access, rest⟩ := step
  · rfl
  · rfl

/-- **Reading.** Tokens in other places declare the same things in other places. -/
@[simp] theorem read_moved (region : Region) (context : Context) (access : Access)
    (tokens : List Token) :
    read region context access (tokens.map (·.moved displacement)) =
      ((read region context access tokens).1.map (·.moved displacement),
        (read region context access tokens).2) := by
  fun_induction read region context access tokens with
  | case1 region context access => simp [read, Forest.map]
  | case2 region context access token tokens next nothing ih =>
    have nothing : (step region context access token tokens).found = none := nothing
    rw [List.map_cons, read, step_moved]
    simp only [Step.moved, nothing, Option.map_none]
    exact ih
  | case3 region context access token tokens next found hfound inner beside innerIh _ besideIh =>
    have hfound : (step region context access token tokens).found = some found := hfound
    rw [List.map_cons, read, step_moved]
    simp only [body_moved]
    simp only [Step.moved, hfound, Option.map_some, Found.moved]
    rw [innerIh, besideIh]
    simp only [Forest.map, Forest.map_withLeaves]
    rfl

end

end Reader

/-! ## Outlines -/

/-- An entry in another place. -/
def Entry.moved (displacement : Displacement) (entry : Entry) : Entry :=
  { entry with declaration := entry.declaration.moved displacement }

/-- **Outlines.** Tokens in other places have the same outline in other places. -/
theorem ofTokens_moved (displacement : Displacement) (tokens : List Token) :
    Outline.ofTokens (tokens.map (·.moved displacement)) =
      (Outline.ofTokens tokens).map (Symbol.mapEntries (·.moved displacement)) := by
  unfold Outline.ofTokens
  rw [Reader.read_moved]
  exact Forest.number_map (·.moved displacement) [] 0 _

end ScriptLens
