import ScriptLens.Query.Candidate
import ScriptLens.Text.Position
import ScriptLens.Token.Source

/-! # Documents
Main definitions:
* `Document`, `Document.parse`: a text with its tokens and its outline.
* `Document.blank`: what stands in for a document that is not open.
* `Document.edit`: a document after a change of its text.
* `Document.cursorAt?`: the token under a position. -/

namespace ScriptLens

open Text (Position TextRange)

/-- A text with what has been read off it. -/
structure Document where
  /-- The text. -/
  text : String
  /-- The tokens of the text. -/
  tokens : List Token
  /-- The outline of the tokens. -/
  outline : Outline

namespace Document

/-- The document of a text. -/
def parse (text : String) : Document :=
  let tokens := tokenize text
  { text, tokens, outline := .ofTokens tokens }

/-- The document that stands in for one that is not open: it has no characters, and nothing has been
read off it. -/
def blank : Document where
  text := ""
  tokens := []
  outline := .nil

/-- A document whose text has a stretch replaced. -/
def edit (document : Document) (range : TextRange) (replacement : String) : Document :=
  parse (String.ofList (Text.splice document.text.toList range replacement.toList))

/-- The index of the token under a position. -/
def tokenIndex? (document : Document) (position : Position) : Option Nat :=
  Token.indexAt? document.tokens (position.line + 1) position.character

/-- A cursor on the token under a position. -/
def cursorAt? (document : Document) (position : Position) : Option Cursor :=
  (document.tokenIndex? position).map fun index => { tokens := document.tokens, position := index }

end Document

end ScriptLens
