import ScriptLens.Token.Basic
import ScriptLens.Token.Numeral
import ScriptLens.Token.Piece

/-! # Tokens of a line
Main definitions:
* `EscapeError`: the one reason for which a line has no tokens.
* `unescape`: a run with its escapes resolved.
* `classify`: the token of a run.
* `addMark`: a mark after the tokens before it, where it joins the mark right before it if the two
  spell one operator.
* `lineTokens`: the tokens of a line. -/

namespace ScriptLens

/-- A backslash followed by a character that has no meaning there. -/
structure EscapeError where
  /-- The number of the line, from one. -/
  line : Nat
  /-- The column of the backslash. -/
  column : Nat
  /-- The character after the backslash. -/
  escape : Char
  deriving DecidableEq, Repr

/-- The text of an escape error. -/
def EscapeError.message (error : EscapeError) : String :=
  "line " ++ toString error.line ++ ": unknown escape sequence `\\" ++
    String.singleton error.escape ++ "` at column " ++ toString error.column

/-! ## Runs -/

/-- The text of a run that starts at `column`, with each escape replaced by what it stands for. A
backslash at the very end stands for itself. -/
def unescape (line column : Nat) : List Char → Except EscapeError (List Char)
  | [] => .ok []
  | [c] => .ok [c]
  | c :: next :: rest =>
    if c = '\\' then
      match Vocabulary.escape? next with
      | some resolved => (unescape line (column + 2) rest).map (resolved :: ·)
      | none => .error { line, column, escape := next }
    else (unescape line (column + 1) (next :: rest)).map (c :: ·)

/-- The kind of a run of one character, which is taken as it stands. -/
def loneKind (c : Char) : Token.Kind :=
  if c.isDigit then .number else (Vocabulary.mark? c).getD .text

/-- The token of a run: a single character, a reserved word, an integer literal, or text whose
escapes are resolved. -/
def classify (line column : Nat) (text : List Char) : Except EscapeError Token :=
  let lexeme := String.ofList text
  match text with
  | [c] => .ok { kind := loneKind c, lexeme, line, column }
  | _ =>
    match Vocabulary.keyword? lexeme with
    | some kind => .ok { kind, lexeme, line, column }
    | none =>
      if Numeral.isNumeral text then .ok { kind := .number, lexeme, line, column }
      else
        (unescape line column text).map fun resolved =>
          { kind := .text, lexeme := String.ofList resolved, line, column }

/-! ## Marks -/

/-- The operator spelled by a token and the mark `second` at `column`, if the token is a
one-character operator right before that column and the two characters spell an operator. -/
def joined? (previous : Token) (second : Char) (column : Nat) : Option Token :=
  if previous.column + 1 = column ∧ previous.kind.combines then
    match previous.lexeme.toList with
    | first :: _ =>
      (Vocabulary.pair? first second).map fun kind =>
        { previous with kind, lexeme := String.ofList [first, second] }
    | [] => none
  else none

/-- A mark added to the tokens before it, which stand in reverse order. -/
def addMark (line column : Nat) (sign : Char) (kind : Token.Kind) (reversed : List Token) :
    List Token :=
  let alone : Token := { kind, lexeme := String.singleton sign, line, column }
  match reversed with
  | [] => [alone]
  | previous :: earlier =>
    match joined? previous sign column with
    | some operator => operator :: earlier
    | none => alone :: previous :: earlier

/-! ## Lines -/

/-- A piece added to the tokens before it, which stand in reverse order. -/
def addPiece (line : Nat) (reversed : List Token) : Piece → Except EscapeError (List Token)
  | .run column text => (classify line column text).map (· :: reversed)
  | .mark column sign kind => .ok (addMark line column sign kind reversed)

/-- The tokens of a line of code, or its first escape error. -/
def codeTokens (line : Nat) (text : List Char) : Except EscapeError (List Token) :=
  ((pieces text).foldlM (addPiece line) []).map List.reverse

/-- The tokens of a line. A blank line has none; a line that starts with `#` is a comment, which
is one token if it holds a type directive and none otherwise; any other line is code. -/
def lineTokens (line : Nat) (text : List Char) : Except EscapeError (List Token) :=
  match Text.trim text with
  | [] => .ok []
  | first :: rest =>
    if first = '#' then
      if Text.occurs Token.directive (first :: rest) then
        .ok [{ kind := .text, lexeme := String.ofList (first :: rest), line,
               column := Text.indent text }]
      else .ok []
    else codeTokens line text

end ScriptLens
