import ScriptLens.Text.Search
import ScriptLens.Text.WhiteSpace
import ScriptLens.Token.Kind

/-! # Tokens
A token is a piece of source text with its kind and its place. Lines count from one, columns count
characters from zero.
Main definitions:
* `Token`, `Token.missing`: tokens, and the token that stands for "no token".
* `Token.endColumn`, `Token.covers`: the columns a token takes up.
* `Token.directedType?`: the type that a `#type=` directive names.
* `Token.indexAt?`: the token under a place of the source. -/

namespace ScriptLens

/-- A piece of source text with its kind and its place. -/
structure Token where
  /-- What the token is. -/
  kind : Token.Kind
  /-- The text of the token, with its escapes resolved. -/
  lexeme : String
  /-- The number of its line, from one. -/
  line : Nat
  /-- The number of characters before it on its line. -/
  column : Nat
  deriving DecidableEq, Repr, Inhabited

namespace Token

/-- The token that stands for "no token". -/
def missing : Token :=
  { kind := .invalid, lexeme := "", line := 0, column := 0 }

/-- Whether a token stands for "no token". -/
def isMissing (token : Token) : Bool :=
  token.kind = .invalid

/-- The column right after the last character of the lexeme. -/
def endColumn (token : Token) : Nat :=
  token.column + token.lexeme.length

/-- Whether a place lies on a token. The place right after its last character still does. -/
def covers (token : Token) (line column : Nat) : Bool :=
  token.line = line && token.column ≤ column && column ≤ token.endColumn

/-- The index of the last token that covers a place. -/
def indexAt? (tokens : List Token) (line column : Nat) : Option Nat :=
  ((tokens.zipIdx.filter fun (token, _) => token.covers line column).map Prod.snd).getLast?

/-- The text that announces a type directive. -/
def directive : List Char :=
  "#type=".toList

/-- The type named by a directive token: the first word after the announcement. -/
def directedType? (token : Token) : Option String :=
  if token.kind = .text then
    ((Text.afterFirst? directive token.lexeme.toList).bind Text.firstWord?).map String.ofList
  else none

/-- A token in one line of text: kind, lexeme and place. -/
def render (token : Token) : String :=
  token.kind.name ++ " `" ++ token.lexeme ++ "` at " ++ toString token.line ++ ":" ++
    toString token.column

end Token

end ScriptLens
