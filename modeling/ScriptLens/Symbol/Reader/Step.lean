import ScriptLens.Symbol.Reader.Parameter
import ScriptLens.Token.Brackets
import ScriptLens.Token.Vocabulary

/-! # Steps of reading
Declarations are read off a list of tokens from left to right, one step for each token that is
looked at. Only declarations are recognised; every other token is passed over. What may be declared
depends on the region: the document and a namespace hold everything, a class holds functions and
variables, a function holds variables.
Main definitions:
* `Region`, `Context`: where reading goes on, and what earlier tokens have settled.
* `Step`: what a token amounts to.
* `readVariable`, `readFunction`, `readContainer`: what follows the start of a declaration.
* `step`: what the next token amounts to. -/

namespace ScriptLens.Reader

/-! ## States -/

/-- The part of a source text that is being read. -/
inductive Region where
  /-- The document itself or the body of a namespace. -/
  | outer
  /-- The body of a class. -/
  | classBody
  /-- The body of a function. -/
  | functionBody
  deriving DecidableEq, Repr

/-- What earlier tokens of the document have settled. -/
structure Context where
  /-- The names of the classes declared so far. -/
  classNames : List String := []
  /-- The type that the last directive gives to the next variable. -/
  pendingType : Option String := none
  deriving DecidableEq, Repr

/-- A declaration with the tokens that are still to be read for its members. -/
structure Found where
  /-- The declaration. -/
  declaration : Declaration
  /-- Its parameters. -/
  parameters : List Declaration := []
  /-- How its body is to be read. -/
  region : Region := .functionBody
  /-- The tokens of its body; none if it has no body. -/
  body : List Token := []
  deriving DecidableEq, Repr

/-- What the next token amounts to. -/
structure Step where
  /-- The declaration that starts there. -/
  found : Option Found := none
  /-- The context after it. -/
  context : Context
  /-- The access of the next member of the same body. -/
  access : Access
  /-- The tokens after it. -/
  rest : List Token
  deriving DecidableEq, Repr

/-- The tokens of the body that a step has found. -/
def Step.body (step : Step) : List Token :=
  match step.found with
  | none => []
  | some found => found.body

/-! ## Variables -/

/-- Whether a token ends the head of a variable declaration. -/
def endsHead (token : Token) : Bool :=
  token.kind = .equalSign || token.kind = .semicolon

/-- Whether a token starts a variable declaration: a built-in type does everywhere, and a class
that is already declared does so in a function. -/
def startsVariable (region : Region) (context : Context) (token : Token) : Bool :=
  Vocabulary.isDataType token.lexeme ||
    (region = .functionBody && token.kind = .text && context.classNames.contains token.lexeme)

/-- The type written between the name of a variable and the end of the head, and the tokens after
it. -/
def takeWrittenType : List Token → Option String × List Token
  | written :: next :: rest =>
    if written.kind = .text && endsHead next then (some written.lexeme, next :: rest)
    else (none, written :: next :: rest)
  | rest => (none, rest)

/-- Reads a variable behind the token `start` that names its type. The pending type is used up
even if there is no variable. It wins over a written type, and that one over `start`. -/
def readVariable (context : Context) (access : Access) (start : Token) (tokens : List Token) :
    Step :=
  let later := { context with pendingType := none }
  match tokens with
  | [] => { context := later, access, rest := [] }
  | name :: tokens =>
    if name.kind = .text then
      let (written, rest) := takeWrittenType tokens
      if (rest.head?.map endsHead).getD false then
        let typeName := (context.pendingType <|> written).getD start.lexeme
        { found := some { declaration := .ofVariable typeName access name }
          context := later
          access := { access with isStatic := false }
          rest }
      else { context := later, access, rest }
    else { context := later, access, rest := tokens }

/-! ## Functions, classes and namespaces -/

/-- Reads the parameters and the body of a function behind its name. -/
def readFunction (context : Context) (access : Access) (name : Token) (tokens : List Token) :
    Step :=
  let declaration := Declaration.ofFunction access name
  let later := { access with isStatic := false }
  match Bracket.parentheses.enclosed? tokens with
  | none =>
    { found := some { declaration }, context, access := later, rest := tokens }
  | some list =>
    if list.closed then
      let parameters := parameters list.inside
      match Bracket.braces.enclosed? list.rest with
      | none =>
        { found := some { declaration := declaration.through list.inside, parameters }
          context, access := later, rest := list.rest }
      | some body =>
        if body.closed then
          { found := some
              { declaration := declaration.through body.inside, parameters, body := body.inside }
            context, access := later, rest := body.rest }
        else
          { found := some
              { declaration := { declaration.through list.inside with unclosed := some .braceOpen }
                parameters }
            context, access := later, rest := body.rest }
    else
      { found := some { declaration := { declaration with unclosed := some .parenthesisOpen } }
        context, access := later, rest := list.rest }

/-- Reads the body of a class or a namespace behind its name. -/
def readContainer (context : Context) (access : Access) (declaration : Declaration)
    (region : Region) (tokens : List Token) : Step :=
  match Bracket.braces.enclosed? tokens with
  | none => { found := some { declaration, region }, context, access, rest := tokens }
  | some body =>
    if body.closed then
      { found := some
          { declaration := declaration.through body.inside, region, body := body.inside }
        context, access, rest := body.rest }
    else
      { found := some { declaration := { declaration with unclosed := some .braceOpen }, region }
        context, access, rest := body.rest }

/-- Reads a declaration whose name comes next; without a name the token in its place is passed
over. -/
def readNamed (context : Context) (access : Access) (tokens : List Token)
    (readRest : Token → List Token → Step) : Step :=
  match tokens with
  | [] => { context, access, rest := [] }
  | name :: tokens =>
    if name.kind = .text then readRest name tokens else { context, access, rest := tokens }

/-- The tokens without a colon at their start. -/
def dropColon : List Token → List Token
  | [] => []
  | token :: tokens => if token.kind = .colon then tokens else token :: tokens

/-- Reads what follows a keyword. A keyword that declares nothing in this region is passed over. -/
def readKeyword (region : Region) (context : Context) (access : Access) (keyword : Token)
    (tokens : List Token) : Step :=
  if keyword.lexeme = "function" ∧ region ≠ .functionBody then
    readNamed context access tokens (readFunction context access)
  else if keyword.lexeme = "constructor" ∧ region = .classBody then
    readFunction context access keyword tokens
  else if keyword.lexeme = "class" ∧ region = .outer then
    readNamed context access tokens fun name =>
      readContainer { context with classNames := name.lexeme :: context.classNames } access
        (.ofClass name) .classBody
  else if keyword.lexeme = "namespace" ∧ region = .outer then
    readNamed context access tokens fun name =>
      readContainer context access (.ofNamespace name) .outer
  else if region = .classBody then
    if keyword.lexeme = "static" then
      { context, access := { access with isStatic := true }, rest := tokens }
    else
      match Visibility.ofKeyword? keyword.lexeme with
      | some visibility =>
        { context, access := { access with visibility }, rest := dropColon tokens }
      | none => { context, access, rest := tokens }
  else { context, access, rest := tokens }

/-! ## Steps -/

/-- What a token amounts to, with the tokens behind it. -/
def step (region : Region) (context : Context) (access : Access) (token : Token)
    (tokens : List Token) : Step :=
  match token.directedType? with
  | some typeName =>
    { context := { context with pendingType := some typeName }, access, rest := tokens }
  | none =>
    if startsVariable region context token then readVariable context access token tokens
    else if token.kind = .keyword then readKeyword region context access token tokens
    else { context, access, rest := tokens }

end ScriptLens.Reader
