import ScriptLens.Editor.Document

/-! # Hover cards
Main definitions:
* `HoverCard`: what an editor shows about a token.
* `Document.hover?`: the card for a position. -/

namespace ScriptLens

open Text (Position TextRange)

/-- What an editor shows about the token under the pointer. -/
structure HoverCard where
  /-- The text of the card. -/
  text : String
  /-- The stretch of the document that the card is about. -/
  range : TextRange
  deriving DecidableEq, Repr

/-- The stretch that a token takes up. -/
def Token.range (token : Token) : TextRange where
  start := { line := token.line - 1, character := token.column }
  stop := { line := token.line - 1, character := token.endColumn }

/-- The card for a position. There is none without a token there, nor for punctuation. -/
def Document.hover? (document : Document) (position : Position) : Option HoverCard :=
  (document.cursorAt? position).bind fun cursor =>
    let description := (document.outline.target cursor).describe
    description.summary.map fun summary =>
      { text := description.name ++ " (" ++ description.typeName ++ ")\n\n" ++ summary
        range := cursor.current.range }

end ScriptLens
