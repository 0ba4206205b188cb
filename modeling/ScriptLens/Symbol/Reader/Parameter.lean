import ScriptLens.Symbol.Declaration

/-! # Reading parameters
A parameter list is cut at the commas that lie in no bracket, and each part is read on its own.
Main definitions:
* `splitParameters`: the tokens of each parameter.
* `parameter?`: the parameter that some tokens declare.
* `parameters`: the parameters of a parameter list. -/

namespace ScriptLens.Reader

/-- Whether a kind opens a bracket of any sort. -/
def opensBracket (kind : Token.Kind) : Bool :=
  kind = .parenthesisOpen || kind = .bracketOpen || kind = .braceOpen

/-- Whether a kind closes a bracket of any sort. -/
def closesBracket (kind : Token.Kind) : Bool :=
  kind = .parenthesisClose || kind = .bracketClose || kind = .braceClose

/-- Whether a kind ends a parameter when no bracket is open. -/
def endsParameter (kind : Token.Kind) : Bool :=
  kind = .comma || kind = .parenthesisClose

/-- Cuts the tokens of a parameter list, with its closing parenthesis, into those of each parameter.
`reversed` holds the tokens of the parameter being read, the last one first, and `depth` counts the
brackets open in it. -/
def splitParameters (depth : Nat) (reversed : List Token) : List Token → List (List Token)
  | [] => []
  | token :: tokens =>
    if opensBracket token.kind then splitParameters (depth + 1) (token :: reversed) tokens
    else if depth = 0 then
      if endsParameter token.kind then reversed.reverse :: splitParameters 0 [] tokens
      else splitParameters 0 (token :: reversed) tokens
    else if closesBracket token.kind then splitParameters (depth - 1) (token :: reversed) tokens
    else splitParameters depth (token :: reversed) tokens

/-- The type of a parameter that is declared without one. -/
def untyped : String :=
  "var"

/-- The parameter that some tokens declare: the last token before the default value is its name, and
the one before that its type. -/
def parameter? (tokens : List Token) : Option Declaration :=
  match (tokens.takeWhile (·.kind ≠ .equalSign)).reverse with
  | [] => none
  | name :: earlier =>
    if name.kind = .text then
      some (.ofParameter ((earlier.head?.map (·.lexeme)).getD untyped) name)
    else none

/-- The parameters that a parameter list declares. -/
def parameters (tokens : List Token) : List Declaration :=
  (splitParameters 0 [] tokens).filterMap parameter?

end ScriptLens.Reader
