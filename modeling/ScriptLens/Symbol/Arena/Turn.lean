import ScriptLens.Symbol.Arena
import ScriptLens.Symbol.Reader.Step

/-! # Turns of scanning
An arena is filled while the tokens are scanned, one turn for each token that is looked at. A scope
gets its number before its body is scanned: its node is put behind all others with empty member
lists and with the lines of its name, and is filled in when the body has been scanned. Where there
is no body, or brackets never close, the turn ends early and the node stays as it is then.
Main definitions:
* `Draft`: an arena that is being filled, with what earlier tokens have settled.
* `Draft.alloc`, `Draft.close`, `Draft.fill`, `Draft.fail`: the changes made to it.
* `Turn`: what a token leads to.
* `Draft.turnVariable`, `Draft.turnFunction`, `Draft.turnContainer`: turns behind the start of a
  declaration.
* `Draft.turn`: the turn of the next token. -/

namespace ScriptLens

open Reader

/-! ## Drafts -/

/-- The node of the name that a token spells, on the line of that token. -/
def Node.ofName (name : Token) (parent : Option Nat) (content : Content) : Node where
  name := name.lexeme
  line := name.line
  column := name.column
  parent := parent
  lines := .single name.line
  content := content

/-- A node whose lines reach from its name to the last token of a span. -/
def Node.close (node : Node) (span : List Token) : Node :=
  match span.getLast? with
  | none => node
  | some closing => { node with lines := .between node.line closing.line }

/-- A node with its members. A function keeps its parameters and the variables of its body. -/
def Node.fill (node : Node) (parameters : List Nat) (members : Members) : Node :=
  match node.content with
  | .namespaceNode _ => { node with content := .namespaceNode members }
  | .classNode _ => { node with content := .classNode members }
  | .functionNode _ _ access =>
    { node with content := .functionNode parameters members.vars access }
  | .variableNode _ _ => node

/-- An arena that is being filled. -/
structure Draft where
  /-- The nodes so far. -/
  nodes : List Node := []
  /-- What earlier tokens have settled. -/
  context : Context := {}
  /-- The errors so far. -/
  errors : List BracketError := []
  deriving DecidableEq, Repr

namespace Draft

/-- Puts a node behind all others, which gives it its number. -/
def alloc (draft : Draft) (node : Node) : Nat × Draft :=
  (draft.nodes.length, { draft with nodes := draft.nodes ++ [node] })

/-- Stretches the lines of a node to the last token of a span. -/
def close (draft : Draft) (id : Nat) (span : List Token) : Draft :=
  { draft with nodes := draft.nodes.modify id (·.close span) }

/-- Gives a scope its members. -/
def fill (draft : Draft) (id : Nat) (parameters : List Nat) (members : Members) : Draft :=
  { draft with nodes := draft.nodes.modify id (·.fill parameters members) }

/-- Records that a bracket of a scope never closes. -/
def fail (draft : Draft) (scope : String) (name : Token) (opening : Token.Kind) : Draft :=
  let error : BracketError := { scope, name := name.lexeme, line := name.line, opening }
  { draft with errors := draft.errors ++ [error] }

/-- Adds a class to those that are known as types. -/
def know (draft : Draft) (className : String) : Draft :=
  let classNames := className :: draft.context.classNames
  { draft with context := { draft.context with classNames } }

/-- Sets or clears the type that the next variable gets. -/
def await (draft : Draft) (pendingType : Option String) : Draft :=
  { draft with context := { draft.context with pendingType } }

end Draft

/-! ## Turns -/

/-- A declaration that has a node, and the tokens that are still to be scanned for its members. -/
structure Begun where
  /-- What is declared. -/
  kind : Declaration.Kind
  /-- The number of its node. -/
  id : Nat
  /-- The numbers of its parameters. -/
  parameters : List Nat := []
  /-- How its body is to be scanned. -/
  region : Region := .functionBody
  /-- The tokens of its body; `none` if the node is complete without them. -/
  body : Option (List Token) := none
  deriving DecidableEq, Repr

/-- What a token leads to. -/
structure Turn where
  /-- The declaration that starts there. -/
  begun : Option Begun := none
  /-- The draft after it. -/
  draft : Draft
  /-- The access of the next member of the same body. -/
  access : Access
  /-- The tokens after it. -/
  rest : List Token
  deriving DecidableEq, Repr

/-- The tokens of a body that are still to be scanned. -/
def Turn.body (turn : Turn) : List Token :=
  (turn.begun.bind (·.body)).getD []

namespace Draft

/-! ## Variables and parameters -/

/-- The turn of the token `start` that names the type of a variable. The pending type is used up
even if there is no variable. -/
def turnVariable (draft : Draft) (owner : Option Nat) (access : Access) (start : Token)
    (tokens : List Token) : Turn :=
  let pending := draft.context.pendingType
  let draft := draft.await none
  match tokens with
  | [] => { draft, access, rest := [] }
  | name :: tokens =>
    if name.kind = .text then
      let (written, rest) := takeWrittenType tokens
      if (rest.head?.map endsHead).getD false then
        let typeName := (pending <|> written).getD start.lexeme
        let (id, draft) := draft.alloc (.ofName name owner (.variableNode typeName access))
        { begun := some { kind := .variableDecl, id }
          draft, access := { access with isStatic := false }, rest }
      else { draft, access, rest }
    else { draft, access, rest := tokens }

/-- The numbers of the parameters that the parts of a parameter list declare, which are members of
the function with the number `function`. -/
def allocParameters (draft : Draft) (function : Nat) : List (List Token) → List Nat × Draft
  | [] => ([], draft)
  | segment :: segments =>
    match (segment.takeWhile (·.kind ≠ .equalSign)).reverse with
    | [] => draft.allocParameters function segments
    | name :: earlier =>
      if name.kind = .text then
        let typeName := (earlier.head?.map (·.lexeme)).getD untyped
        let (id, draft) := draft.alloc (.ofName name (some function) (.variableNode typeName {}))
        let (ids, draft) := draft.allocParameters function segments
        (id :: ids, draft)
      else draft.allocParameters function segments

/-! ## Functions, classes and namespaces -/

/-- The turn behind the name of a function. -/
def turnFunction (draft : Draft) (owner : Option Nat) (access : Access) (name : Token)
    (tokens : List Token) : Turn :=
  let (id, draft) := draft.alloc (.ofName name owner (.functionNode [] [] access))
  let begun : Begun := { kind := .functionDecl, id }
  let access := { access with isStatic := false }
  match Bracket.parentheses.enclosed? tokens with
  | none => { begun := some begun, draft, access, rest := tokens }
  | some list =>
    if list.closed then
      let (parameters, draft) := draft.allocParameters id (splitParameters 0 [] list.inside)
      let draft := draft.close id list.inside
      match Bracket.braces.enclosed? list.rest with
      | none =>
        { begun := some begun, draft := draft.fill id parameters {}, access, rest := list.rest }
      | some body =>
        if body.closed then
          { begun := some { begun with parameters, body := some body.inside }
            draft, access, rest := body.rest }
        else
          { begun := some begun
            draft := (draft.fail "function" name .braceOpen).fill id parameters {}
            access, rest := body.rest }
    else
      { begun := some begun, draft := draft.fail "function" name .parenthesisOpen
        access, rest := list.rest }

/-- The turn behind the name of a class or a namespace. The node begins as `content`, and `word` is
what an error calls it. -/
def turnContainer (draft : Draft) (owner : Option Nat) (access : Access) (kind : Declaration.Kind)
    (word : String) (content : Node.Content) (region : Region) (name : Token)
    (tokens : List Token) : Turn :=
  let (id, draft) := draft.alloc (.ofName name owner content)
  let begun : Begun := { kind, id, region }
  match Bracket.braces.enclosed? tokens with
  | none => { begun := some begun, draft, access, rest := tokens }
  | some body =>
    if body.closed then
      { begun := some { begun with body := some body.inside }, draft, access, rest := body.rest }
    else
      { begun := some begun, draft := draft.fail word name .braceOpen, access, rest := body.rest }

/-- The turn of a keyword before a name; without a name the token in its place is passed over. -/
def turnNamed (draft : Draft) (access : Access) (tokens : List Token)
    (turnRest : Token → List Token → Turn) : Turn :=
  match tokens with
  | [] => { draft, access, rest := [] }
  | name :: tokens =>
    if name.kind = .text then turnRest name tokens else { draft, access, rest := tokens }

/-- The turn of a keyword. A class is known as a type before its body is scanned. -/
def turnKeyword (draft : Draft) (region : Region) (owner : Option Nat) (access : Access)
    (keyword : Token) (tokens : List Token) : Turn :=
  if keyword.lexeme = "function" ∧ region ≠ .functionBody then
    draft.turnNamed access tokens (draft.turnFunction owner access)
  else if keyword.lexeme = "constructor" ∧ region = .classBody then
    draft.turnFunction owner access keyword tokens
  else if keyword.lexeme = "class" ∧ region = .outer then
    draft.turnNamed access tokens fun name =>
      (draft.know name.lexeme).turnContainer owner access .classDecl "class" (.classNode {})
        .classBody name
  else if keyword.lexeme = "namespace" ∧ region = .outer then
    draft.turnNamed access tokens
      (draft.turnContainer owner access .namespaceDecl "namespace" (.namespaceNode {}) .outer)
  else if region = .classBody then
    if keyword.lexeme = "static" then
      { draft, access := { access with isStatic := true }, rest := tokens }
    else
      match Visibility.ofKeyword? keyword.lexeme with
      | some visibility => { draft, access := { access with visibility }, rest := dropColon tokens }
      | none => { draft, access, rest := tokens }
  else { draft, access, rest := tokens }

/-- The turn of a token, with the tokens behind it. -/
def turn (draft : Draft) (region : Region) (owner : Option Nat) (access : Access) (token : Token)
    (tokens : List Token) : Turn :=
  match token.directedType? with
  | some typeName => { draft := draft.await (some typeName), access, rest := tokens }
  | none =>
    if startsVariable region draft.context token then
      draft.turnVariable owner access token tokens
    else if token.kind = .keyword then draft.turnKeyword region owner access token tokens
    else { draft, access, rest := tokens }

end Draft

end ScriptLens
