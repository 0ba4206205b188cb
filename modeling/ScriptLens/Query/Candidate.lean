import ScriptLens.Query.Chain
import ScriptLens.Query.Member
import ScriptLens.Token.Vocabulary

/-! # Candidates
Main definitions:
* `Candidate`, `Candidate.describe`: what a question about a token can find, and what is shown of
  it.
* `Outline.completions`: the candidates that may take the place of a token.
* `Outline.target`: the candidate that a token stands for. -/

namespace ScriptLens

/-! ## Descriptions -/

/-- What a question about a token can find. -/
inductive Candidate where
  /-- A token that stands for itself. -/
  | ofToken (token : Token)
  /-- A declared symbol. -/
  | ofSymbol (symbol : Symbol)
  deriving DecidableEq, Repr

/-- The sorts of things that are shown differently. -/
inductive Category where
  /-- A reserved word. -/
  | keywordItem
  /-- Any other token. -/
  | textItem
  /-- A namespace. -/
  | namespaceItem
  /-- A class. -/
  | classItem
  /-- A function. -/
  | functionItem
  /-- A variable or a parameter. -/
  | variableItem
  deriving DecidableEq, Repr

/-- What is shown of a candidate. -/
structure Description where
  /-- Its name. -/
  name : String
  /-- Its sort. -/
  category : Category
  /-- Its type. -/
  typeName : String
  /-- A sentence about it; punctuation has none. -/
  summary : Option String
  deriving DecidableEq, Repr

/-- The category of a kind of declaration. -/
def Category.ofKind : Declaration.Kind → Category
  | .namespaceDecl => .namespaceItem
  | .classDecl => .classItem
  | .functionDecl => .functionItem
  | .parameterDecl | .variableDecl => .variableItem

/-- The sentence about a token that names no declaration. -/
def Token.summary? (token : Token) : Option String :=
  if Vocabulary.isDataType token.lexeme then some "Internal Data Type"
  else if token.kind = .keyword then some "Internal Keyword"
  else if token.kind = .number then some "Number"
  else if token.kind ≠ .text ∧ 1 ≤ token.lexeme.length ∧ token.lexeme.length ≤ 2 then none
  else some "Unknown Token / Text Token"

/-- What is shown of a token that names no declaration. -/
def Token.describe (token : Token) : Description where
  name := token.lexeme
  category := if token.kind = .keyword then .keywordItem else .textItem
  typeName := token.kind.name
  summary := token.summary?

namespace Symbol

/-- The name by which a scope is mentioned in the sentence about one of its variables. -/
def mention (scope : Symbol) : String :=
  match scope.kind with
  | .functionDecl => scope.name
  | _ => scope.path

/-- The scope of a variable, in brackets; a variable of the document has none. -/
def place (symbol : Symbol) : String :=
  match symbol.owner? with
  | none => ""
  | some scope => " ( " ++ scope.typeName ++ " " ++ scope.mention ++ " )"

/-- The sentence about a symbol. -/
def summary (symbol : Symbol) : String :=
  match symbol.kind with
  | .namespaceDecl => "namespace " ++ symbol.path
  | .classDecl => "class " ++ symbol.path
  | .functionDecl => "function " ++ symbol.path ++ "()"
  | .parameterDecl | .variableDecl => symbol.typeName ++ " " ++ symbol.name ++ symbol.place

/-- What is shown of a symbol. -/
def describe (symbol : Symbol) : Description where
  name := symbol.name
  category := .ofKind symbol.kind
  typeName := symbol.typeName
  summary := some symbol.summary

end Symbol

/-- What is shown of a candidate. -/
def Candidate.describe : Candidate → Description
  | ofToken token => token.describe
  | ofSymbol symbol => symbol.describe

/-! ## Questions about a token -/

namespace Outline

/-- The members behind the last dot of a chain; none if the chain leads nowhere. -/
def chainMembers (outline : Outline) (chain : Chain) : List Symbol :=
  match outline.resolve? chain.segments with
  | none => []
  | some container => (members container).map Prod.fst

/-- The symbols that may take the place of the token under a cursor: behind a dot the members of
what stands before it, and elsewhere the symbols whose names contain the token. -/
def completions (outline : Outline) (cursor : Cursor) : List Symbol :=
  match Chain.at? cursor with
  | some chain => outline.chainMembers chain
  | none => outline.offered cursor.current.lexeme cursor.current.line

/-- The member that a name behind a dot stands for. -/
def chainTarget? (outline : Outline) (cursor : Cursor) : Option Symbol :=
  (Chain.at? cursor).bind fun chain =>
    if cursor.current.kind = .text then
      (outline.chainMembers chain).find? (·.name = cursor.current.lexeme)
    else none

/-- What the token under a cursor stands for: a member if it stands behind a dot, else the nearest
declaration of that name, else the token itself. -/
def target (outline : Outline) (cursor : Cursor) : Candidate :=
  let token := cursor.current
  if token.isMissing then .ofToken token
  else
    match outline.chainTarget? cursor <|> outline.lookup? token.lexeme token.line with
    | some symbol => .ofSymbol symbol
    | none => .ofToken token

end Outline

end ScriptLens
