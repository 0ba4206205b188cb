import ScriptLens.Editor.Document

/-! # Completion lists
Main definitions:
* `Insertion`, `CompletionItem`: what accepting an offer does, and an offer.
* `Category.number`: the number by which an editor knows a sort of offer.
* `Document.complete`: the offers for a position. -/

namespace ScriptLens

open Text (Position TextRange)

/-- What accepting an offer does with its label. -/
inductive Insertion where
  /-- It is inserted at the caret. -/
  | atCaret
  /-- It replaces a stretch of the document. -/
  | replacing (range : TextRange)
  deriving DecidableEq, Repr

/-- An offer. -/
structure CompletionItem where
  /-- What is offered. -/
  label : String
  /-- The sort of the offer. -/
  category : Category
  /-- The type of what is offered. -/
  detail : String
  /-- What accepting the offer does. -/
  insertion : Insertion
  deriving DecidableEq, Repr

/-- The number by which an editor knows a sort of offer. -/
def Category.number : Category → Nat
  | textItem => 1
  | functionItem => 3
  | variableItem => 6
  | classItem => 7
  | namespaceItem => 9
  | keywordItem => 14

/-- The number with which an editor says that a typed character has asked for offers. -/
def typedCharacter : Int :=
  2

/-- A cursor on an empty name at a position, for a position without a token. -/
def emptyName (position : Position) : Cursor where
  tokens :=
    [{ kind := .text, lexeme := "", line := position.line + 1, column := position.character }]

/-- The reserved words that start with a token, at the place of that token. -/
def keywordCandidates (token : Token) : List Candidate :=
  (Vocabulary.keywordsStarting token.lexeme).map fun (word, kind) =>
    .ofToken { token with kind, lexeme := word }

/-- The candidates for the token under a cursor: reserved words before symbols. Behind a dot and
without any characters there are no reserved words. -/
def Document.candidates (document : Document) (cursor : Cursor) : List Candidate :=
  let keywords :=
    if (Chain.at? cursor).isNone && !cursor.current.lexeme.isEmpty then
      keywordCandidates cursor.current
    else []
  keywords ++ (document.outline.completions cursor).map .ofSymbol

/-- Whether a name fits what stands behind the last dot of a chain. -/
def Chain.admits (chain : Option Chain) (name : String) : Bool :=
  match chain with
  | none => true
  | some chain => chain.typed.toList.isPrefixOf name.toList

/-- The stretch that an offer replaces: what has been typed of the token, and nothing behind a
dot. -/
def editRange (token : Token) (caret : Position) : TextRange :=
  if token.kind = .dot then { start := caret, stop := caret }
  else { start := { line := caret.line, character := token.column }, stop := caret }

/-- The offers for a position, where `trigger` says what has asked for them. -/
def Document.complete (document : Document) (caret : Position) (trigger : Option Int) :
    List CompletionItem :=
  let cursor := (document.cursorAt? caret).getD (emptyName caret)
  let insertion :=
    if trigger = some typedCharacter then .atCaret else .replacing (editRange cursor.current caret)
  let described := (document.candidates cursor).map Candidate.describe
  (described.filter fun description => Chain.admits (Chain.at? cursor) description.name).map
    fun description =>
      { label := description.name, category := description.category, detail := description.typeName,
        insertion }

/-- Whether typing on may change a list of offers: it may when there is a choice. -/
def isIncomplete (items : List CompletionItem) : Bool :=
  1 < items.length

end ScriptLens
