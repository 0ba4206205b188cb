import ScriptLens.Proofs.Token.Nesting
import ScriptLens.Symbol.Forest
import ScriptLens.Token.Vocabulary

/-! # The grammar of declarations
Programs as trees, with the tokens they are written in and the declarations they stand for. A
program says which declarations there are; everything else in it, such as the value of a variable or
the statements of a function, is a run of tokens without structure.
Main definitions:
* `Name`, `TypeWord`, `Directive`, `Phrase`, `Default`: the words and the runs of tokens.
* `Variable`, `Local`, `Parameter`, `Routine`, `Member`, `Program`: the syntax.
* `Program.tokens`: how a program is written.
* `Program.declarations`: what a program declares.
* `Program.Fits`: whether the names of classes are used the way a program may use them.
Main statement:
* `Program.nested_tokens`: the brackets of a program are nested. -/

namespace ScriptLens.Grammar

/-! ## Words and marks -/

/-- A place of the source. -/
structure Place where
  /-- The number of the line. -/
  line : Nat
  /-- The number of characters before it on the line. -/
  column : Nat
  deriving DecidableEq, Repr

/-- A keyword at a place. -/
def Place.keyword (place : Place) (word : String) : Token :=
  { kind := .keyword, lexeme := word, line := place.line, column := place.column }

/-- A punctuation mark at a place. -/
def Place.mark (place : Place) (kind : Token.Kind) (sign : String) : Token :=
  { kind, lexeme := sign, line := place.line, column := place.column }

/-- The `=` before a value. -/
def Place.equals (place : Place) : Token :=
  place.mark .equalSign "="

/-- The `;` after a variable. -/
def Place.semicolon (place : Place) : Token :=
  place.mark .semicolon ";"

/-- The `,` between parameters. -/
def Place.comma (place : Place) : Token :=
  place.mark .comma ","

/-- The `:` after an access modifier. -/
def Place.colon (place : Place) : Token :=
  place.mark .colon ":"

/-- The bracket before a parameter list. -/
def Place.openList (place : Place) : Token :=
  place.mark .parenthesisOpen "("

/-- The bracket after a parameter list. -/
def Place.closeList (place : Place) : Token :=
  place.mark .parenthesisClose ")"

/-- The bracket before a body. -/
def Place.openBody (place : Place) : Token :=
  place.mark .braceOpen "\x7b"

/-- The bracket after a body. -/
def Place.closeBody (place : Place) : Token :=
  place.mark .braceClose "\x7d"

/-- A name, of something that is declared or of a type. -/
structure Name where
  /-- The token of the name. -/
  token : Token
  /-- A name is a word. -/
  isText : token.kind = .text
  /-- A name is no directive. -/
  isPlain : token.directedType? = none

/-- The type of a parameter: a name or the keyword of a built-in type. -/
structure TypeWord where
  /-- The token of the type. -/
  token : Token
  /-- It is a word. -/
  isWord : token.kind = .text ∨ token.kind = .keyword

/-- A directive that gives a type to the next variable. -/
structure Directive where
  /-- The token of the directive. -/
  token : Token
  /-- The type it gives. -/
  typeName : String
  /-- The directive names that type. -/
  directs : token.directedType? = some typeName

/-- Only a word can be a directive. -/
theorem directedType?_of_ne_text {token : Token} (h : token.kind ≠ .text) :
    token.directedType? = none := by
  rw [Token.directedType?, if_neg h]

/-- A directive is a word. -/
theorem Directive.isText (directive : Directive) : directive.token.kind = .text := by
  by_contra h
  have directs := directive.directs
  rw [directedType?_of_ne_text h] at directs
  cases directs

/-- The tokens of an optional directive. -/
def directiveTokens (directive : Option Directive) : List Token :=
  (directive.map (·.token)).toList

/-- The type that an optional directive gives. -/
def directedType (directive : Option Directive) : Option String :=
  directive.map (·.typeName)

/-! ## Runs of tokens -/

/-- The words that mean something to the reader of declarations. -/
def reserved : List String :=
  ["var", "function", "class", "namespace", "constructor", "static", "public", "protected",
    "private"]

/-- A token that neither declares anything nor has a bearing on what is declared. -/
def Inert (token : Token) : Prop :=
  token.lexeme ∉ reserved ∧ token.directedType? = none

instance (token : Token) : Decidable (Inert token) :=
  inferInstanceAs (Decidable (_ ∧ _))

/-- A run of inert tokens, with nested brackets. -/
structure Phrase where
  /-- The tokens of the run. -/
  tokens : List Token
  /-- They are inert. -/
  inert : ∀ token ∈ tokens, Inert token
  /-- Their brackets are nested. -/
  isNested : nested anyKind [] tokens

/-- The default value of a parameter: a run of tokens with nested brackets, whose commas all lie in
brackets. -/
structure Default where
  /-- The tokens of the value. -/
  tokens : List Token
  /-- Their brackets are nested, and no comma lies outside. -/
  isNested : nested (· ≠ .comma) [] tokens

/-- Whether the names of the given classes are used in some tokens only where no variable can start:
no such name is the last token, or comes right before another word. -/
def quiet (classes : List String) : List Token → Bool
  | [] => true
  | token :: tokens =>
    if token.kind = .text ∧ token.lexeme ∈ classes then
      tokens.head?.any (·.kind ≠ .text) && quiet classes tokens
    else quiet classes tokens

/-! ## Syntax -/

/-- What follows the type of a variable: `n;`, `n T;`, `n = e;` or `n T = e;`. -/
structure Declarator where
  /-- The declared name. -/
  name : Name
  /-- The type written behind the name. -/
  typeName : Option Name
  /-- The value, with the place of the sign before it. -/
  value : Option (Place × Phrase)
  /-- The place of the semicolon. -/
  stop : Place

/-- A variable: `var` with a declarator behind it. -/
structure Variable where
  /-- The directive before it. -/
  directive : Option Directive
  /-- The place of the keyword. -/
  place : Place
  /-- What follows. -/
  declarator : Declarator

/-- A piece of the body of a function. -/
inductive Local where
  /-- A variable. -/
  | variableDecl (declared : Variable)
  /-- A variable whose type is a class. -/
  | objectDecl (directive : Option Directive) (className : Name) (declarator : Declarator)
  /-- Anything else. -/
  | other (phrase : Phrase)

/-- A parameter: `n` or `T n`, or one of these with a default value. -/
structure Parameter where
  /-- The type. -/
  typeName : Option TypeWord
  /-- The declared name. -/
  name : Name
  /-- The default value, with the place of the sign before it. -/
  value : Option (Place × Default)

/-- One parameter or several, with the places of the commas between them. -/
structure ParameterList where
  /-- The first parameter. -/
  first : Parameter
  /-- The others, each behind a comma. -/
  others : List (Place × Parameter)

/-- What follows the name of a function: the parameters and the body, in brackets. -/
structure Routine where
  /-- Where the parameter list opens. -/
  openList : Place
  /-- The parameters. -/
  parameters : Option ParameterList
  /-- Where the parameter list closes. -/
  closeList : Place
  /-- Where the body opens. -/
  openBody : Place
  /-- The body. -/
  body : List Local
  /-- Where the body closes. -/
  closeBody : Place

/-- A piece of the body of a class. `static` may stand before each member, and the directive of a
variable may stand on either side of it. -/
inductive Member where
  /-- An access modifier, which holds for the members after it. -/
  | modifier (visibility : Visibility) (place : Place) (colon : Option Place)
  /-- A variable. -/
  | variableDecl (directive : Option Directive) (static : Option Place) (declared : Variable)
  /-- A function. -/
  | functionDecl (static : Option Place) (place : Place) (name : Name) (routine : Routine)
  /-- A constructor. -/
  | constructorDecl (static : Option Place) (place : Place) (routine : Routine)

/-- A document or the body of a namespace. -/
inductive Program where
  /-- Nothing more. -/
  | done
  /-- A variable, and more. -/
  | variableDecl (declared : Variable) (next : Program)
  /-- A function, and more. -/
  | functionDecl (place : Place) (name : Name) (routine : Routine) (next : Program)
  /-- A class, and more. -/
  | classDecl (place : Place) (name : Name) (openBody : Place) (members : List Member)
      (closeBody : Place) (next : Program)
  /-- A namespace, and more. -/
  | namespaceDecl (place : Place) (name : Name) (openBody : Place) (inner : Program)
      (closeBody : Place) (next : Program)

/-! ## Writing -/

/-- The tokens of the value of a variable and of the semicolon behind it. -/
def Declarator.ending (declarator : Declarator) : List Token :=
  match declarator.value with
  | none => [declarator.stop.semicolon]
  | some (place, phrase) => place.equals :: (phrase.tokens ++ [declarator.stop.semicolon])

/-- The tokens of a declarator. -/
def Declarator.tokens (declarator : Declarator) : List Token :=
  declarator.name.token :: ((declarator.typeName.map (·.token)).toList ++ declarator.ending)

/-- The tokens of a variable. -/
def Variable.tokens (declared : Variable) : List Token :=
  directiveTokens declared.directive ++
    declared.place.keyword "var" :: declared.declarator.tokens

/-- The tokens of a piece of a function. -/
def Local.tokens : Local → List Token
  | .variableDecl declared => declared.tokens
  | .objectDecl directive className declarator =>
    directiveTokens directive ++ className.token :: declarator.tokens
  | .other phrase => phrase.tokens

/-- The tokens of the default value of a parameter. -/
def Parameter.ending (parameter : Parameter) : List Token :=
  match parameter.value with
  | none => []
  | some (place, value) => place.equals :: value.tokens

/-- The tokens of a parameter. -/
def Parameter.tokens (parameter : Parameter) : List Token :=
  (parameter.typeName.map (·.token)).toList ++ parameter.name.token :: parameter.ending

/-- The tokens of some parameters. -/
def ParameterList.tokens (list : ParameterList) : List Token :=
  list.first.tokens ++ list.others.flatMap fun (comma, other) => comma.comma :: other.tokens

/-- The tokens of the parameters of a function. -/
def Routine.parameterTokens (routine : Routine) : List Token :=
  (routine.parameters.map (·.tokens)).getD []

/-- The tokens of a parameter list and a body. -/
def Routine.tokens (routine : Routine) : List Token :=
  routine.openList.openList :: (routine.parameterTokens ++ routine.closeList.closeList ::
    routine.openBody.openBody :: (routine.body.flatMap Local.tokens ++
      [routine.closeBody.closeBody]))

/-- The word for a visibility. -/
def visibilityWord : Visibility → String
  | .publicAccess => "public"
  | .protectedAccess => "protected"
  | .privateAccess => "private"

/-- The tokens of an optional `static`. -/
def staticTokens (static : Option Place) : List Token :=
  (static.map (·.keyword "static")).toList

/-- The tokens of a piece of a class. -/
def Member.tokens : Member → List Token
  | .modifier visibility place colon =>
    place.keyword (visibilityWord visibility) :: (colon.map (·.colon)).toList
  | .variableDecl directive static declared =>
    directiveTokens directive ++ (staticTokens static ++ declared.tokens)
  | .functionDecl static place name routine =>
    staticTokens static ++ place.keyword "function" :: name.token :: routine.tokens
  | .constructorDecl static place routine =>
    staticTokens static ++ place.keyword "constructor" :: routine.tokens

/-- The tokens of a program. -/
def Program.tokens : Program → List Token
  | .done => []
  | .variableDecl declared next => declared.tokens ++ next.tokens
  | .functionDecl place name routine next =>
    place.keyword "function" :: name.token :: (routine.tokens ++ next.tokens)
  | .classDecl place name openBody members closeBody next =>
    place.keyword "class" :: name.token :: openBody.openBody ::
      (members.flatMap Member.tokens ++ closeBody.closeBody :: next.tokens)
  | .namespaceDecl place name openBody inner closeBody next =>
    place.keyword "namespace" :: name.token :: openBody.openBody ::
      (inner.tokens ++ closeBody.closeBody :: next.tokens)

/-! ## Meaning -/

/-- What a declarator declares, behind a directive and a word for its type. The directive wins over
the type written behind the name, and that one over the word. -/
def Declarator.declaration (declarator : Declarator) (directed : Option String) (start : String)
    (access : Access) : Declaration :=
  .ofVariable ((directed <|> declarator.typeName.map (·.token.lexeme)).getD start) access
    declarator.name.token

/-- What a variable declares. -/
def Variable.declaration (declared : Variable) (earlier : Option String) (access : Access) :
    Declaration :=
  declared.declarator.declaration (directedType declared.directive <|> earlier) "var" access

/-- What a piece of a function declares. -/
def Local.declaration? : Local → Option Declaration
  | .variableDecl declared => some (declared.declaration none {})
  | .objectDecl directive className declarator =>
    some (declarator.declaration (directedType directive) className.token.lexeme {})
  | .other _ => none

/-- What a parameter declares. -/
def Parameter.declaration (parameter : Parameter) : Declaration :=
  .ofParameter ((parameter.typeName.map (·.token.lexeme)).getD "var") parameter.name.token

/-- What some parameters declare. -/
def ParameterList.declarations (list : ParameterList) : List Declaration :=
  list.first.declaration :: list.others.map fun (_, other) => other.declaration

/-- What the parameters and the body of a function declare. -/
def Routine.leaves (routine : Routine) : List Declaration :=
  (routine.parameters.map (·.declarations)).getD [] ++ routine.body.filterMap Local.declaration?

/-- A declaration whose lines end where its body closes. -/
def upTo (closeBody : Place) (declaration : Declaration) : Declaration :=
  { declaration with lines := .between declaration.line closeBody.line }

/-- The function with a given name, and what it declares below it. -/
def Routine.declarations (routine : Routine) (access : Access) (name : Token)
    (beside : Forest Declaration) : Forest Declaration :=
  .cons (upTo routine.closeBody (.ofFunction access name)) (Forest.nil.withLeaves routine.leaves)
    beside

/-- What the pieces of a class declare, where the members have the given visibility until a modifier
changes it. -/
def memberDeclarations (visibility : Visibility) : List Member → Forest Declaration
  | [] => .nil
  | .modifier visibility _ _ :: members => memberDeclarations visibility members
  | .variableDecl directive static declared :: members =>
    .cons (declared.declaration (directedType directive) { visibility, isStatic := static.isSome })
      .nil (memberDeclarations visibility members)
  | .functionDecl static _ name routine :: members =>
    routine.declarations { visibility, isStatic := static.isSome } name.token
      (memberDeclarations visibility members)
  | .constructorDecl static place routine :: members =>
    routine.declarations { visibility, isStatic := static.isSome } (place.keyword "constructor")
      (memberDeclarations visibility members)

/-- What a program declares. The members of a class are private at first. -/
def Program.declarations : Program → Forest Declaration
  | .done => .nil
  | .variableDecl declared next => .cons (declared.declaration none {}) .nil next.declarations
  | .functionDecl _ name routine next => routine.declarations {} name.token next.declarations
  | .classDecl _ name _ members closeBody next =>
    .cons (upTo closeBody (.ofClass name.token)) (memberDeclarations .privateAccess members)
      next.declarations
  | .namespaceDecl _ name _ inner closeBody next =>
    .cons (upTo closeBody (.ofNamespace name.token)) inner.declarations next.declarations

/-! ## Classes in use -/

/-- The names of the classes declared before and in a program, the last one first. -/
def Program.classesAfter (classes : List String) : Program → List String
  | .done => classes
  | .variableDecl _ next => next.classesAfter classes
  | .functionDecl _ _ _ next => next.classesAfter classes
  | .classDecl _ name _ _ _ next => next.classesAfter (name.token.lexeme :: classes)
  -- Classes of a namespace stay known behind it.
  | .namespaceDecl _ _ _ inner _ next => next.classesAfter (inner.classesAfter classes)

/-- Whether a piece of a function declares variables of declared classes only, and names no class
where a variable could start otherwise. -/
def Local.Fits (classes : List String) : Local → Prop
  | .variableDecl declared => quiet classes declared.declarator.ending
  | .objectDecl _ className declarator =>
    className.token.lexeme ∈ classes ∧ quiet classes declarator.ending
  | .other phrase => quiet classes phrase.tokens

instance (classes : List String) : (piece : Local) → Decidable (piece.Fits classes)
  | .variableDecl _ => inferInstanceAs (Decidable (_ = true))
  | .objectDecl _ _ _ => inferInstanceAs (Decidable (_ ∧ _))
  | .other _ => inferInstanceAs (Decidable (_ = true))

/-- Whether all pieces of a function fit. -/
def Routine.Fits (classes : List String) (routine : Routine) : Prop :=
  ∀ piece ∈ routine.body, piece.Fits classes

instance (classes : List String) (routine : Routine) : Decidable (routine.Fits classes) :=
  inferInstanceAs (Decidable (∀ piece ∈ routine.body, piece.Fits classes))

/-- Whether the functions of a class fit. -/
def Member.Fits (classes : List String) : Member → Prop
  | .modifier _ _ _ => True
  | .variableDecl _ _ _ => True
  | .functionDecl _ _ _ routine => routine.Fits classes
  | .constructorDecl _ _ routine => routine.Fits classes

instance (classes : List String) : (member : Member) → Decidable (member.Fits classes)
  | .modifier _ _ _ => inferInstanceAs (Decidable True)
  | .variableDecl _ _ _ => inferInstanceAs (Decidable True)
  | .functionDecl _ _ _ routine => inferInstanceAs (Decidable (routine.Fits classes))
  | .constructorDecl _ _ routine => inferInstanceAs (Decidable (routine.Fits classes))

/-- Whether all functions of a program fit, where the given classes are declared before it. A class
is declared before its members. -/
def Program.Fits (classes : List String) : Program → Prop
  | .done => True
  | .variableDecl _ next => next.Fits classes
  | .functionDecl _ _ routine next => routine.Fits classes ∧ next.Fits classes
  | .classDecl _ name _ members _ next =>
    (∀ member ∈ members, member.Fits (name.token.lexeme :: classes)) ∧
      next.Fits (name.token.lexeme :: classes)
  | .namespaceDecl _ _ _ inner _ next =>
    inner.Fits classes ∧ next.Fits (inner.classesAfter classes)

/-- Fitting can be decided. -/
def Program.decidableFits (classes : List String) :
    (program : Program) → Decidable (program.Fits classes)
  | .done => inferInstanceAs (Decidable True)
  | .variableDecl _ next => next.decidableFits classes
  | .functionDecl _ _ routine next =>
    have := next.decidableFits classes
    inferInstanceAs (Decidable (routine.Fits classes ∧ next.Fits classes))
  | .classDecl _ name _ members _ next =>
    have := next.decidableFits (name.token.lexeme :: classes)
    inferInstanceAs (Decidable ((∀ member ∈ members, member.Fits (name.token.lexeme :: classes)) ∧
      next.Fits (name.token.lexeme :: classes)))
  | .namespaceDecl _ _ _ inner _ next =>
    have := inner.decidableFits classes
    have := next.decidableFits (inner.classesAfter classes)
    inferInstanceAs (Decidable (inner.Fits classes ∧ next.Fits (inner.classesAfter classes)))

instance (classes : List String) (program : Program) : Decidable (program.Fits classes) :=
  program.decidableFits classes

/-! ## Nested brackets -/

/-- A word does not matter for brackets. -/
theorem nested_cons_text {free : Token.Kind → Bool} {token : Token} {tokens : List Token}
    (isText : token.kind = .text) (allowed : free .text) :
    nested free [] (token :: tokens) = nested free [] tokens := by
  refine nested_cons_plain ?_ ?_ ?_ <;> rw [isText]
  · rfl
  · rfl
  · exact allowed

/-- The brackets of a declarator are nested. -/
theorem Declarator.nested_tokens (declarator : Declarator) :
    nested anyKind [] declarator.tokens := by
  have ending : nested anyKind [] declarator.ending := by
    unfold Declarator.ending
    cases declarator.value with
    | none => rfl
    | some value =>
      obtain ⟨place, phrase⟩ := value
      rw [nested_cons_plain rfl rfl rfl]
      exact nested_append_of_nested phrase.isNested rfl
  rw [Declarator.tokens, nested_cons_text declarator.name.isText rfl]
  cases declarator.typeName with
  | none => exact ending
  | some written => exact (nested_cons_text written.isText rfl).trans ending

/-- A directive does not matter for brackets. -/
theorem nested_directiveTokens (directive : Option Directive) :
    nested anyKind [] (directiveTokens directive) := by
  cases directive with
  | none => rfl
  | some directive => exact nested_cons_text directive.isText rfl

/-- The brackets of a variable are nested. -/
theorem Variable.nested_tokens (declared : Variable) : nested anyKind [] declared.tokens := by
  refine nested_append_of_nested (nested_directiveTokens _) ?_
  rw [nested_cons_plain rfl rfl rfl]
  exact declared.declarator.nested_tokens

/-- The brackets of a piece of a function are nested. -/
theorem Local.nested_tokens (piece : Local) : nested anyKind [] piece.tokens := by
  cases piece with
  | variableDecl declared => exact declared.nested_tokens
  | objectDecl directive className declarator =>
    refine nested_append_of_nested (nested_directiveTokens _) ?_
    rw [nested_cons_text className.isText rfl]
    exact declarator.nested_tokens
  | other phrase => exact phrase.isNested

/-- The brackets of a parameter are nested, and no comma lies outside. -/
theorem Parameter.nested_tokens (parameter : Parameter) :
    nested (· ≠ .comma) [] parameter.tokens := by
  have named : nested (· ≠ .comma) [] (parameter.name.token :: parameter.ending) := by
    rw [nested_cons_text parameter.name.isText rfl, Parameter.ending]
    cases parameter.value with
    | none => rfl
    | some value =>
      obtain ⟨place, value⟩ := value
      exact (nested_cons_plain rfl rfl rfl).trans value.isNested
  unfold Parameter.tokens
  cases parameter.typeName with
  | none => exact named
  | some written =>
    obtain ⟨token, isText | isKeyword⟩ := written
    · exact (nested_cons_text isText rfl).trans named
    · refine (nested_cons_plain ?_ ?_ ?_).trans named <;> rw [isKeyword] <;> rfl

/-- The brackets of some parameters are nested. -/
theorem ParameterList.nested_tokens (list : ParameterList) : nested anyKind [] list.tokens := by
  refine nested_append_of_nested list.first.nested_tokens (nested_flatMap fun (comma, other) => ?_)
  rw [nested_cons_plain rfl rfl rfl]
  exact nested_of_nested other.nested_tokens

/-- The brackets of the parameters of a function are nested. -/
theorem Routine.nested_parameterTokens (routine : Routine) :
    nested anyKind [] routine.parameterTokens := by
  unfold parameterTokens
  cases routine.parameters with
  | none => rfl
  | some list => exact list.nested_tokens

/-- The brackets of a function are nested. -/
theorem Routine.nested_tokens (routine : Routine) : nested anyKind [] routine.tokens := by
  rw [Routine.tokens, nested_enclosed rfl rfl rfl routine.nested_parameterTokens,
    nested_enclosed rfl rfl rfl (nested_flatMap Local.nested_tokens)]
  rfl

/-- An optional `static` does not matter for brackets. -/
theorem nested_staticTokens (static : Option Place) :
    nested anyKind [] (staticTokens static) := by
  cases static with
  | none => rfl
  | some place => rfl

/-- The brackets of a piece of a class are nested. -/
theorem Member.nested_tokens (member : Member) : nested anyKind [] member.tokens := by
  cases member with
  | modifier visibility place colon => cases colon <;> rfl
  | variableDecl directive static declared =>
    refine nested_append_of_nested (nested_directiveTokens _) ?_
    exact nested_append_of_nested (nested_staticTokens _) declared.nested_tokens
  | functionDecl static place name routine =>
    refine nested_append_of_nested (nested_staticTokens _) ?_
    rw [nested_cons_plain rfl rfl rfl, nested_cons_text name.isText rfl]
    exact routine.nested_tokens
  | constructorDecl static place routine =>
    refine nested_append_of_nested (nested_staticTokens _) ?_
    rw [nested_cons_plain rfl rfl rfl]
    exact routine.nested_tokens

/-- The brackets of a program are nested. -/
theorem Program.nested_tokens (program : Program) : nested anyKind [] program.tokens := by
  induction program with
  | done => rfl
  | variableDecl declared next ih => exact nested_append_of_nested declared.nested_tokens ih
  | functionDecl place name routine next ih =>
    rw [Program.tokens, nested_cons_plain rfl rfl rfl, nested_cons_text name.isText rfl]
    exact nested_append_of_nested routine.nested_tokens ih
  | classDecl place name openBody members closeBody next ih =>
    rw [Program.tokens, nested_cons_plain rfl rfl rfl, nested_cons_text name.isText rfl,
      nested_enclosed rfl rfl rfl (nested_flatMap Member.nested_tokens)]
    exact ih
  | namespaceDecl place name openBody inner closeBody next innerIh ih =>
    rw [Program.tokens, nested_cons_plain rfl rfl rfl, nested_cons_text name.isText rfl,
      nested_enclosed rfl rfl rfl innerIh]
    exact ih

end ScriptLens.Grammar
