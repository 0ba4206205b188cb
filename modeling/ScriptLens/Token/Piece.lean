import ScriptLens.Text.WhiteSpace
import ScriptLens.Token.Vocabulary

/-! # Pieces of a line
A source line is first cut into pieces, before any of them is classified. A piece is a single
mark, or a run: the content of a string, or a longest stretch outside strings of characters that
are neither blank nor marks.
Main definitions:
* `Piece`: a piece of a line with its column.
* `pieces`: the pieces of a line, from left to right. -/

namespace ScriptLens

/-- A piece of a source line, with the column it starts at. -/
inductive Piece where
  /-- Neighbouring characters that make one token: a word, or the content of a string. -/
  | run (column : Nat) (text : List Char)
  /-- A single operator or punctuation mark outside strings, or a quote that bounds a string. -/
  | mark (column : Nat) (sign : Char) (kind : Token.Kind)
  deriving DecidableEq, Repr

namespace Piece

/-- The run that ends before `column`, from its characters in reverse order; no piece at all when
there are none. -/
def runBefore (column : Nat) (reversed : List Char) : List Piece :=
  if reversed.isEmpty then [] else [.run (column - reversed.length) reversed.reverse]

/-- The pieces of the rest of a line, which starts at `column`. `quoted` tells whether it starts
inside a string, and `reversed` holds the characters of the run being read, the last one first.
Inside a string a backslash takes the next character with it, whatever that is. -/
def split (quoted : Bool) (column : Nat) (reversed : List Char) : List Char → List Piece
  | [] => runBefore column reversed
  | c :: rest =>
    if quoted then
      if c = '\\' then
        -- The escaped character cannot close the string.
        match rest with
        | [] => runBefore (column + 1) (c :: reversed)
        | escaped :: rest => split true (column + 2) (escaped :: c :: reversed) rest
      else if c = '"' then
        runBefore column reversed ++ .mark column c .doubleQuote :: split false (column + 1) [] rest
      else split true (column + 1) (c :: reversed) rest
    else if Text.isBlank c then
      runBefore column reversed ++ split false (column + 1) [] rest
    else
      match Vocabulary.mark? c with
      | some kind =>
        runBefore column reversed ++ .mark column c kind :: split (c = '"') (column + 1) [] rest
      | none => split false (column + 1) (c :: reversed) rest

end Piece

/-- The pieces of a line, from left to right. -/
def pieces (line : List Char) : List Piece :=
  Piece.split false 0 [] line

end ScriptLens
