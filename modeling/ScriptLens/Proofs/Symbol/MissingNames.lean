import Mathlib.Algebra.Group.Nat.Even
import Mathlib.Data.List.Induction
import Mathlib.Data.List.TakeWhile
import ScriptLens.Proofs.Symbol.Completeness
import ScriptLens.Token.Source

/-! # Declarations without names
A keyword that starts a declaration takes the token behind it for the name, whatever that token is.
If it is no name, nothing is declared and the token is gone. So keywords in a row take one another
in pairs, and what the row amounts to depends on whether one of them is left over.
Main definitions:
* `Token.startsDeclaration`: the keywords of declarations.
* `leftOver`: what is left of a row of keywords that take one another.
Main statements:
* `Reader.step_missingName`: a keyword takes the token in the place of its name.
* `Reader.read_keywords_append`: a row of keywords amounts to the one that is left over.
* `ofTokens_missingName`: what a keyword without a name does to the declarations behind it. -/

namespace ScriptLens

/-! ## Keywords of declarations -/

/-- The keywords that stand before the name of a declaration in a document. -/
def declarationWords : List String :=
  ["var", "function", "class", "namespace"]

/-- Whether a token is the keyword of a declaration. -/
def Token.startsDeclaration (token : Token) : Bool :=
  token.kind = .keyword && declarationWords.contains token.lexeme

/-- The keyword of a declaration is a keyword with one of four words. -/
theorem Token.startsDeclaration_iff {token : Token} :
    token.startsDeclaration ↔ token.kind = .keyword ∧ token.lexeme ∈ declarationWords := by
  simp [startsDeclaration]

/-- The keyword of a declaration is no name. -/
theorem Token.kind_ne_text_of_startsDeclaration {token : Token} (h : token.startsDeclaration) :
    token.kind ≠ .text := by
  rw [(startsDeclaration_iff.mp h).1]
  nofun

/-- What is left of a row of keywords when each one takes the next for its name: nothing if their
number is even, and the last one otherwise. -/
def leftOver (keywords : List Token) : List Token :=
  if Even keywords.length then [] else keywords.getLast?.toList

/-- The first two keywords of a row take each other. -/
@[simp] theorem leftOver_cons_cons (first second : Token) (keywords : List Token) :
    leftOver (first :: second :: keywords) = leftOver keywords := by
  unfold leftOver
  by_cases even : Even keywords.length
  · have evenToo : Even (first :: second :: keywords).length := by
      simpa [Nat.even_add_one] using even
    rw [if_pos even, if_pos evenToo]
  · have oddToo : ¬ Even (first :: second :: keywords).length := by
      simpa [Nat.even_add_one] using even
    have more : keywords ≠ [] := by
      rintro rfl
      exact even Even.zero
    obtain ⟨third, later, rfl⟩ := List.exists_cons_of_ne_nil more
    rw [if_neg even, if_neg oddToo, List.getLast?_cons_cons, List.getLast?_cons_cons]

/-- With one more keyword in front, the last keyword is left over if none was before, and taken if
it was left over before. -/
theorem leftOver_cons (first : Token) (keywords : List Token) :
    ∃ last ∈ first :: keywords,
      leftOver (first :: keywords) = [last] ∧ leftOver keywords = [] ∨
      leftOver (first :: keywords) = [] ∧ leftOver keywords = [last] := by
  induction keywords generalizing first with
  | nil => exact ⟨first, List.mem_cons_self, .inl ⟨rfl, rfl⟩⟩
  | cons second keywords ih =>
    obtain ⟨last, member, cases⟩ := ih second
    refine ⟨last, List.mem_cons_of_mem _ member, ?_⟩
    rw [leftOver_cons_cons]
    rcases cases with ⟨left, taken⟩ | ⟨taken, left⟩
    · exact .inr ⟨taken, left⟩
    · exact .inl ⟨left, taken⟩

/-! ## Reading -/

namespace Reader

variable {classes : List String} {access : Access}

/-- A keyword takes the token in the place of its name, and nothing is declared. -/
theorem step_missingName {keyword : Token} {tokens : List Token}
    (declares : keyword.startsDeclaration) (noName : ∀ next ∈ tokens.head?, next.kind ≠ .text) :
    step .outer { classNames := classes } access keyword tokens =
      { context := { classNames := classes }, access, rest := tokens.tail } := by
  obtain ⟨isKeyword, word⟩ := Token.startsDeclaration_iff.mp declares
  have passed (readRest : Token → List Token → Step) :
      readNamed { classNames := classes } access tokens readRest =
        { context := { classNames := classes }, access, rest := tokens.tail } := by
    cases tokens with
    | nil => rfl
    | cons next later => simp [readNamed, noName next rfl]
  simp only [declarationWords, List.mem_cons, List.not_mem_nil, or_false] at word
  rcases word with isVar | isFunction | isClass | isNamespace
  · have starts : startsVariable .outer { classNames := classes } keyword := by
      rw [startsVariable, isVar]
      rfl
    rw [step, Grammar.directedType?_of_ne_text (by simp [isKeyword])]
    cases tokens with
    | nil => simp [starts, readVariable]
    | cons next later => simp [starts, readVariable, noName next rfl]
  · rw [step_of_keyword isKeyword (by rw [isFunction]; decide)]
    simp [readKeyword, isFunction, passed]
  · rw [step_of_keyword isKeyword (by rw [isClass]; decide)]
    simp [readKeyword, isClass, passed]
  · rw [step_of_keyword isKeyword (by rw [isNamespace]; decide)]
    simp [readKeyword, isNamespace, passed]

/-- A token that is no name and starts no declaration is passed over. -/
theorem step_of_not_startsDeclaration {token : Token} (noName : token.kind ≠ .text)
    (noType : ¬ Vocabulary.isDataType token.lexeme) (idle : ¬ token.startsDeclaration)
    (tokens : List Token) :
    step .outer { classNames := classes } access token tokens =
      { context := { classNames := classes }, access, rest := tokens } := by
  by_cases isKeyword : token.kind = .keyword
  · have other : token.lexeme ∉ declarationWords :=
      fun word => idle (Token.startsDeclaration_iff.mpr ⟨isKeyword, word⟩)
    simp only [declarationWords, List.mem_cons, List.not_mem_nil, or_false, not_or] at other
    obtain ⟨-, noFunction, noClass, noNamespace⟩ := other
    rw [step_of_keyword isKeyword noType]
    simp [readKeyword, noFunction, noClass, noNamespace]
  · have starts : ¬ startsVariable .outer { classNames := classes } token := by
      simp [startsVariable, noType]
    rw [step, Grammar.directedType?_of_ne_text noName]
    simp [starts, isKeyword]

/-- Keywords in a row take one another in pairs, so that they amount to the one that is left
over. -/
theorem read_keywords_append {keywords : List Token} (rest : List Token)
    (declare : ∀ keyword ∈ keywords, keyword.startsDeclaration) :
    read .outer { classNames := classes } access (keywords ++ rest) =
      read .outer { classNames := classes } access (leftOver keywords ++ rest) := by
  induction keywords using List.twoStepInduction with
  | nil => rfl
  | singleton last => rfl
  | cons_cons first second keywords ih _ =>
    have noName : ∀ next ∈ (second :: keywords ++ rest).head?, next.kind ≠ .text := by
      rintro next ⟨⟩
      exact Token.kind_ne_text_of_startsDeclaration (declare _ (by simp))
    rw [leftOver_cons_cons, ← ih fun keyword member => declare keyword (by simp [member])]
    exact Grammar.read_of_step_none (step_missingName (declare first List.mem_cons_self) noName)

/-- Before a token that is no name, a keyword of a declaration might as well not be there. -/
theorem read_keyword_cons {keyword : Token} {tokens : List Token}
    (declares : keyword.startsDeclaration)
    (noName : ∀ next ∈ tokens.head?,
      next.kind ≠ .text ∧ ¬ Vocabulary.isDataType next.lexeme ∧ ¬ next.startsDeclaration) :
    read .outer { classNames := classes } access (keyword :: tokens) =
      read .outer { classNames := classes } access tokens := by
  rw [Grammar.read_of_step_none
    (step_missingName declares fun next first => (noName next first).1)]
  cases tokens with
  | nil => rfl
  | cons next later =>
    obtain ⟨isMark, noType, idle⟩ := noName next rfl
    exact (Grammar.read_of_step_none
      (step_of_not_startsDeclaration isMark noType idle later)).symm

end Reader

/-! ## Documents -/

/-- **What a keyword without a name does to the declarations behind it.** Let `tokens` start with the
keywords `keywords` and go on with `rest`. If `rest` does not start with a name, nothing changes when
one more keyword is put in front. Otherwise the number of keywords decides: with an even number they
are all gone, and with an odd number the last one is read together with the name. -/
theorem ofTokens_missingName {keyword : Token} (declares : keyword.startsDeclaration)
    (tokens : List Token) :
    let keywords := tokens.takeWhile Token.startsDeclaration
    let rest := tokens.dropWhile Token.startsDeclaration
    ((∀ next ∈ rest.head?, next.kind ≠ .text ∧ ¬ Vocabulary.isDataType next.lexeme) →
      Outline.ofTokens (keyword :: tokens) = Outline.ofTokens tokens) ∧
    Outline.ofTokens (keyword :: tokens) =
      Outline.ofTokens (leftOver (keyword :: keywords) ++ rest) ∧
    Outline.ofTokens tokens = Outline.ofTokens (leftOver keywords ++ rest) := by
  intro keywords rest
  have split : tokens = keywords ++ rest := List.takeWhile_append_dropWhile.symm
  have declare : ∀ token ∈ keyword :: keywords, token.startsDeclaration := by
    rintro token (_ | ⟨_, member⟩)
    · exact declares
    · exact List.mem_takeWhile_imp member
  have before : Outline.ofTokens (keyword :: tokens) =
      Outline.ofTokens (leftOver (keyword :: keywords) ++ rest) := by
    rw [split, ← List.cons_append, Outline.ofTokens, Outline.ofTokens,
      Reader.read_keywords_append rest declare]
  have alone : Outline.ofTokens tokens = Outline.ofTokens (leftOver keywords ++ rest) := by
    rw [split, Outline.ofTokens, Outline.ofTokens, Reader.read_keywords_append rest
      fun token member => declare token (List.mem_cons_of_mem _ member)]
  refine ⟨fun noName => ?_, before, alone⟩
  have inert : ∀ next ∈ rest.head?,
      next.kind ≠ .text ∧ ¬ Vocabulary.isDataType next.lexeme ∧ ¬ next.startsDeclaration := by
    intro next first
    have idle := List.head?_dropWhile_not Token.startsDeclaration tokens
    rw [show (tokens.dropWhile Token.startsDeclaration).head? = some next from first] at idle
    exact ⟨(noName next first).1, (noName next first).2, by simpa using idle⟩
  obtain ⟨last, member, leftLast⟩ := leftOver_cons keyword keywords
  have same : Outline.ofTokens (last :: rest) = Outline.ofTokens rest := by
    rw [Outline.ofTokens, Outline.ofTokens, Reader.read_keyword_cons (declare last member) inert]
  rcases leftLast with ⟨left, taken⟩ | ⟨taken, left⟩
  · rw [before, alone, left, taken]
    exact same
  · rw [before, alone, left, taken]
    exact same.symm

/-- The tokens behind the keyword of a class that has no name yet: a namespace without a name, a
return and a variable. -/
def returnTokens : List Token :=
  [⟨.keyword, "namespace", 2, 0⟩, ⟨.keyword, "return", 3, 0⟩, ⟨.semicolon, ";", 3, 6⟩,
    ⟨.keyword, "var", 4, 0⟩, ⟨.text, "x", 4, 4⟩, ⟨.semicolon, ";", 4, 5⟩]

/-- Two keywords without names before a return leave the variable alone. -/
theorem ofTokens_missingName_return :
    let keyword : Token := ⟨.keyword, "class", 1, 0⟩
    tokenize "class\nnamespace\nreturn;\nvar x;" = keyword :: returnTokens ∧
      keyword.startsDeclaration ∧
      Outline.ofTokens (keyword :: returnTokens) = Outline.ofTokens returnTokens ∧
      (Outline.ofTokens returnTokens).symbols.map (·.name) = ["x"] := by
  have declares : (⟨.keyword, "class", 1, 0⟩ : Token).startsDeclaration := by decide
  have noName : ∀ next ∈ (returnTokens.dropWhile Token.startsDeclaration).head?,
      next.kind ≠ .text ∧ ¬ Vocabulary.isDataType next.lexeme := by decide
  exact ⟨by decide +kernel, declares, (ofTokens_missingName declares returnTokens).1 noName,
    by decide +kernel⟩

/-- The tokens of a variable in the second line. -/
def variableTokens : List Token :=
  [⟨.keyword, "var", 2, 0⟩, ⟨.text, "x", 2, 4⟩, ⟨.semicolon, ";", 2, 5⟩]

/-- The keyword of a class that has no name yet takes the keyword of the variable, and the variable
is lost. -/
theorem ofTokens_missingName_variable :
    let keyword : Token := ⟨.keyword, "class", 1, 0⟩
    tokenize "class\nvar x;" = keyword :: variableTokens ∧
      keyword.startsDeclaration ∧ variableTokens.head?.map (·.kind) = some .keyword ∧
      (Outline.ofTokens variableTokens).symbols.map (·.name) = ["x"] ∧
      (Outline.ofTokens (keyword :: variableTokens)).symbols = [] := by
  exact ⟨by decide +kernel, by decide, rfl, by decide +kernel, by decide +kernel⟩

end ScriptLens
