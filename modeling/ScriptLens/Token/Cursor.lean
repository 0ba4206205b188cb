import ScriptLens.Token.Brackets

/-! # Cursors
A cursor is a place in a list of tokens. Reading where there is no token gives `Token.missing`, so
that every reading and every move is defined everywhere.
Main definitions:
* `Cursor.current`, `Cursor.previous`, `Cursor.following`: the tokens around the cursor.
* `Cursor.advance`, `Cursor.retreat`: its moves by one token.
* `Cursor.next`, `Cursor.back`, `Cursor.takeSpan`: reading while moving.
* `Cursor.before`: the tokens before it, the nearest one first. -/

namespace ScriptLens

/-- A place in a list of tokens. -/
structure Cursor where
  /-- All tokens. -/
  tokens : List Token
  /-- The index of the token under the cursor; it may lie past the end. -/
  position : Nat := 0
  deriving DecidableEq, Repr

namespace Cursor

/-- The token with a given index. -/
def get (cursor : Cursor) (index : Nat) : Token :=
  cursor.tokens[index]?.getD .missing

/-- Whether there is a token under the cursor. -/
def hasToken (cursor : Cursor) : Bool :=
  cursor.position < cursor.tokens.length

/-- The token under the cursor. -/
def current (cursor : Cursor) : Token :=
  cursor.get cursor.position

/-- The token right before the cursor. -/
def previous (cursor : Cursor) : Token :=
  if cursor.position = 0 then .missing else cursor.get (cursor.position - 1)

/-- The token right after the one under the cursor. -/
def following (cursor : Cursor) : Token :=
  cursor.get (cursor.position + 1)

/-- The cursor moved past the token under it; it stays where there is none. -/
def advance (cursor : Cursor) : Cursor :=
  if cursor.hasToken then { cursor with position := cursor.position + 1 } else cursor

/-- The cursor moved back by one token; it stays at the start. -/
def retreat (cursor : Cursor) : Cursor :=
  { cursor with position := cursor.position - 1 }

/-- The token under the cursor, and the cursor moved past it. -/
def next (cursor : Cursor) : Token × Cursor :=
  (cursor.current, cursor.advance)

/-- The token right before the cursor, and the cursor moved back onto it. -/
def back (cursor : Cursor) : Token × Cursor :=
  (cursor.previous, cursor.retreat)

/-- The span opened by the token under the cursor, and the cursor moved past it. -/
def takeSpan (cursor : Cursor) (bracket : Bracket) : Bracket.Span × Cursor :=
  let start := min (cursor.position + 1) cursor.tokens.length
  let span := bracket.span 1 (cursor.tokens.drop start)
  (span, { cursor with position := start + span.inside.length })

/-- The tokens before the cursor, the nearest one first. There are none before a cursor that lies
further out than right behind the last token. -/
def before (cursor : Cursor) : List Token :=
  if cursor.position ≤ cursor.tokens.length then (cursor.tokens.take cursor.position).reverse
  else []

end Cursor

end ScriptLens
