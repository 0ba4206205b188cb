import ScriptLens.Text.Lines
import ScriptLens.Token.Line

/-! # Tokens of a source text
Every line is read on its own. A line with an escape error has no tokens, and the other lines keep
theirs, so that a text in the middle of being typed still has tokens.
Main definitions:
* `readLines`: what each line of a source gives.
* `tokenize`, `escapeErrors`: the tokens and the errors of a source, in order. -/

namespace ScriptLens

/-- What each line of a source gives, where the first line has the number `first`. -/
def readLines (first : Nat) (source : List Char) : List (Except EscapeError (List Token)) :=
  ((Text.lines source).zipIdx first).map fun (line, number) => lineTokens number (Text.content line)

/-- The tokens of a line that could be read. -/
def readTokens : Except EscapeError (List Token) → List Token
  | .ok tokens => tokens
  | .error _ => []

/-- The error of a line that could not be read. -/
def readError? : Except EscapeError (List Token) → Option EscapeError
  | .ok _ => none
  | .error error => some error

/-- The tokens of a source text. -/
def tokenize (source : String) : List Token :=
  (readLines 1 source.toList).flatMap readTokens

/-- The errors of the lines of a source text that have no tokens for that reason. -/
def escapeErrors (source : String) : List EscapeError :=
  (readLines 1 source.toList).filterMap readError?

end ScriptLens
