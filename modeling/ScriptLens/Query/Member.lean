import ScriptLens.Query.Visible

/-! # Members behind a dot
Main definitions:
* `memberOrder`, `members`: what may stand behind a dot after a class or a namespace.
* `Outline.receiver?`: the class or namespace that a name stands for before a dot.
* `Outline.resolve?`: the class or namespace that a dotted chain of names leads to. -/

namespace ScriptLens

/-- The kinds of members that may stand behind a dot, in the order in which they are offered. -/
def memberOrder : Declaration.Kind → List Declaration.Kind
  | .classDecl => [.variableDecl, .functionDecl]
  | .namespaceDecl => [.variableDecl, .functionDecl, .classDecl, .namespaceDecl]
  | .functionDecl | .parameterDecl | .variableDecl => []

/-- Whether a member of a container of this kind may be used from outside. A class shows what is
public, a namespace shows everything. -/
def shows (container : Declaration.Kind) (member : Symbol) : Bool :=
  container ≠ .classDecl || member.declaration.access.visibility = .publicAccess

/-- The members that may stand behind a dot after a container, each with its own members. -/
def members (container : Symbol × Outline) : List (Symbol × Outline) :=
  (arrange (memberOrder container.1.kind) container.2.roots).filter fun (member, _) =>
    shows container.1.kind member

/-- The member with a given name that may stand behind a dot after a container. -/
def member? (container : Symbol × Outline) (name : String) : Option (Symbol × Outline) :=
  (members container).find? fun (member, _) => member.name = name

namespace Outline

/-- The class or namespace whose members a symbol gives access to: a class or a namespace itself,
and the type of a variable. A function gives access to nothing. -/
def container? (outline : Outline) (node : Symbol × Outline) : Option (Symbol × Outline) :=
  match node.1.kind with
  | .namespaceDecl | .classDecl => some node
  | .parameterDecl | .variableDecl => outline.findType? node.1.typeName
  | .functionDecl => none

/-- The class or namespace that a name stands for before a dot: the type of the variable of that
name, or else the type of that name. -/
def receiver? (outline : Outline) (name : Token) : Option (Symbol × Outline) :=
  ((outline.visibleVariable? name.lexeme name.line).bind fun declared =>
      outline.findType? declared.typeName) <|>
    outline.findType? name.lexeme

/-- The class or namespace that one more name leads to. -/
def follow? (outline : Outline) (container : Symbol × Outline) (name : Token) :
    Option (Symbol × Outline) :=
  (member? container name.lexeme).bind outline.container?

/-- The class or namespace that a chain of names leads to. -/
def resolve? (outline : Outline) : List Token → Option (Symbol × Outline)
  | [] => none
  | first :: names => (outline.receiver? first).bind fun container =>
      names.foldlM outline.follow? container

end Outline

end ScriptLens
