import ScriptLens.Editor.Completion
import ScriptLens.Editor.Hover
import Std.Data.HashMap

/-! # Sessions
A session holds the open documents of an editor and answers its requests.
Main definitions:
* `Session`: the open documents by name.
* `Session.replace`, `Session.edit`, `Session.close`: the changes of a single document.
* `Request`, `Response`, `Session.respond`: what an editor asks, what it is told, and what changes.
* `Server.tscript`: what a server tells of itself. -/

namespace ScriptLens

open Text (Position TextRange)

/-- The open documents of an editor. -/
structure Session where
  /-- The documents by name. -/
  documents : Std.HashMap String Document := {}

/-- A change of a document. -/
structure Change where
  /-- The new text. -/
  text : String
  /-- The stretch that the new text replaces; without one it replaces everything. -/
  range : Option TextRange := none
  deriving DecidableEq, Repr

namespace Session

/-- The number of open documents. -/
def size (session : Session) : Nat :=
  session.documents.size

/-- The open document with a given name. -/
def find? (session : Session) (name : String) : Option Document :=
  session.documents[name]?

/-- Gives a document a new text; the document need not be open yet. -/
def replace (session : Session) (name text : String) : Session :=
  { documents := session.documents.insert name (.parse text) }

/-- Replaces a stretch of a document. A document that is not open counts as one without
characters. -/
def edit (session : Session) (name : String) (range : TextRange) (replacement : String) : Session :=
  let document := (session.find? name).getD .blank
  { documents := session.documents.insert name (document.edit range replacement) }

/-- Closes a document. -/
def close (session : Session) (name : String) : Session :=
  { documents := session.documents.erase name }

/-- Applies a change to a document. -/
def apply (session : Session) (name : String) (change : Change) : Session :=
  match change.range with
  | some range => session.edit name range change.text
  | none => session.replace name change.text

end Session

/-! ## Requests -/

/-- What an editor asks of a session. -/
inductive Request where
  /-- Tells that a document is open, with its text. -/
  | openDocument (name text : String)
  /-- Tells the changes of a document, which are made one after the other. -/
  | changeDocument (name : String) (changes : List Change)
  /-- Tells that a document is closed. -/
  | closeDocument (name : String)
  /-- Asks for the card of a position. -/
  | hover (name : String) (position : Position)
  /-- Asks for the offers for a position, with what has asked for them. -/
  | complete (name : String) (position : Position) (trigger : Option Int)
  deriving DecidableEq, Repr

/-- What an editor is told. -/
inductive Response where
  /-- Nothing. -/
  | done
  /-- The card of a position, if there is one. -/
  | card (card : Option HoverCard)
  /-- The offers for a position; `none` for a document that is not open. -/
  | offers (items : Option (List CompletionItem))
  deriving DecidableEq, Repr

namespace Session

/-- The session after a request. Only the first three kinds of requests change it. -/
def after (session : Session) : Request → Session
  | .openDocument name text => session.replace name text
  | .changeDocument name changes => changes.foldl (·.apply name ·) session
  | .closeDocument name => session.close name
  | .hover _ _ => session
  | .complete _ _ _ => session

/-- The answer to a request. -/
def answer (session : Session) : Request → Response
  | .openDocument _ _ => .done
  | .changeDocument _ _ => .done
  | .closeDocument _ => .done
  | .hover name position => .card ((session.find? name).bind (·.hover? position))
  | .complete name position trigger =>
    .offers ((session.find? name).map (·.complete position trigger))

/-- The answer to a request, and the session after it. -/
def respond (session : Session) (request : Request) : Response × Session :=
  (session.answer request, session.after request)

/-- The answers to a series of requests, and the session after them. -/
def run (session : Session) : List Request → List Response × Session
  | [] => ([], session)
  | request :: requests =>
    let later := (session.after request).run requests
    (session.answer request :: later.1, later.2)

end Session

/-! ## Server -/

/-- What a server tells of itself. -/
structure Server where
  /-- The name of the server. -/
  name : String
  /-- The version of the server. -/
  version : String
  deriving DecidableEq, Repr

/-- The server for TScript documents. -/
def Server.tscript : Server where
  name := "tscript-lsp"
  version := "0.1.0"

end ScriptLens
