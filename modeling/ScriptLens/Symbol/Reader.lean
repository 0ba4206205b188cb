import ScriptLens.Symbol.Forest
import ScriptLens.Symbol.Reader.Step

/-! # Reading declarations
Main definition:
* `read`: the declarations of a list of tokens, each with those of its body below it.
Main statement:
* `body_append_rest_suffix`: a step takes tokens from the front only, so that reading comes to an end.
-/

namespace ScriptLens.Reader

/-! ## Progress -/

/-- A written type is taken from the front. -/
theorem takeWrittenType_suffix (tokens : List Token) : (takeWrittenType tokens).2 <:+ tokens := by
  unfold takeWrittenType
  split
  · split
    · exact List.suffix_cons _ _
    · exact List.suffix_refl _
  · exact List.suffix_refl _

/-- A variable takes tokens from the front and has no body. -/
theorem readVariable_suffix (context : Context) (access : Access) (start : Token)
    (tokens : List Token) :
    (readVariable context access start tokens).body ++
      (readVariable context access start tokens).rest <:+ tokens := by
  unfold readVariable
  cases tokens with
  | nil => exact List.suffix_refl _
  | cons name tokens =>
    have annotated := takeWrittenType_suffix tokens
    dsimp only
    split
    · split
      · exact annotated.trans (List.suffix_cons _ _)
      · exact annotated.trans (List.suffix_cons _ _)
    · exact List.suffix_cons _ _

/-- A span behind an opening bracket is taken from the front, together with what follows it. -/
theorem enclosed?_suffix {bracket : Bracket} {tokens : List Token} {span : Bracket.Span}
    (h : bracket.enclosed? tokens = some span) : span.inside ++ span.rest <:+ tokens := by
  obtain ⟨token, -, rfl⟩ := Bracket.enclosed?_eq_some h
  exact List.suffix_cons _ _

/-- A container takes tokens from the front. -/
theorem readContainer_suffix (context : Context) (access : Access) (declaration : Declaration)
    (region : Region) (tokens : List Token) :
    (readContainer context access declaration region tokens).body ++
      (readContainer context access declaration region tokens).rest <:+ tokens := by
  unfold readContainer
  split
  · exact List.suffix_refl _
  · next body h =>
    have taken := enclosed?_suffix h
    split
    · exact taken
    · exact (List.suffix_append _ _).trans taken

/-- A function takes tokens from the front. -/
theorem readFunction_suffix (context : Context) (access : Access) (name : Token)
    (tokens : List Token) :
    (readFunction context access name tokens).body ++ (readFunction context access name tokens).rest
      <:+ tokens := by
  unfold readFunction
  dsimp only
  split
  · exact List.suffix_refl _
  · next list h =>
    have taken := (List.suffix_append _ _).trans (enclosed?_suffix h)
    split
    · split
      · exact taken
      · next body h =>
        have inner := enclosed?_suffix h
        split
        · exact inner.trans taken
        · exact ((List.suffix_append _ _).trans inner).trans taken
    · exact taken

/-- A named declaration takes tokens from the front if its rest does. -/
theorem readNamed_suffix {context : Context} {access : Access} {tokens : List Token}
    {readRest : Token → List Token → Step}
    (h : ∀ name later, (readRest name later).body ++ (readRest name later).rest <:+ later) :
    (readNamed context access tokens readRest).body ++
      (readNamed context access tokens readRest).rest <:+ tokens := by
  unfold readNamed
  cases tokens with
  | nil => exact List.suffix_refl _
  | cons name tokens =>
    dsimp only
    split
    · exact (h name tokens).trans (List.suffix_cons _ _)
    · exact List.suffix_cons _ _

/-- A colon is dropped from the front. -/
theorem dropColon_suffix (tokens : List Token) : dropColon tokens <:+ tokens := by
  unfold dropColon
  split
  · exact List.suffix_refl _
  · split
    · exact List.suffix_cons _ _
    · exact List.suffix_refl _

/-- What follows a keyword is taken from the front. -/
theorem readKeyword_suffix (region : Region) (context : Context) (access : Access)
    (keyword : Token) (tokens : List Token) :
    (readKeyword region context access keyword tokens).body ++
      (readKeyword region context access keyword tokens).rest <:+ tokens := by
  unfold readKeyword
  split
  · exact readNamed_suffix (readFunction_suffix context access)
  split
  · exact readFunction_suffix context access keyword tokens
  split
  · exact readNamed_suffix fun name later => readContainer_suffix _ _ _ _ _
  split
  · exact readNamed_suffix fun name later => readContainer_suffix _ _ _ _ _
  split
  · split
    · exact List.suffix_refl _
    · split
      · exact dropColon_suffix tokens
      · exact List.suffix_refl _
  · exact List.suffix_refl _

/-- A step takes tokens from the front: the body it has found and the tokens after it are a final
part of the tokens behind the one it starts at. -/
theorem body_append_rest_suffix (region : Region) (context : Context) (access : Access)
    (token : Token) (tokens : List Token) :
    (step region context access token tokens).body ++ (step region context access token tokens).rest
      <:+ tokens := by
  unfold step
  split
  · exact List.suffix_refl _
  split
  · exact readVariable_suffix context access token tokens
  split
  · exact readKeyword_suffix region context access token tokens
  · exact List.suffix_refl _

/-! ## Bodies -/

/-- The declarations of a list of tokens, and the context after them. A declaration comes before
its parameters, those before the declarations of its body, and those before the declarations after
it. -/
def read (region : Region) (context : Context) (access : Access) :
    List Token → Forest Declaration × Context
  | [] => (.nil, context)
  | token :: tokens =>
    let next := step region context access token tokens
    match next.found with
    | none => read region next.context next.access next.rest
    | some found =>
      -- Members start private again, and what they settle holds for the tokens after the body.
      let inner := read found.region next.context {} next.body
      let beside := read region inner.2 next.access next.rest
      (.cons found.declaration (inner.1.withLeaves found.parameters) beside.1, beside.2)
termination_by tokens => tokens.length
decreasing_by
  all_goals
    have taken := (body_append_rest_suffix region context access token tokens).length_le
    simp only [List.length_append, List.length_cons] at taken ⊢
    omega

end ScriptLens.Reader
