import ScriptLens.Symbol.Declaration

/-! # Arenas
An arena keeps everything that a document declares in one list of nodes. A node is known by its
number, which is its index in the list. It keeps the number of the scope that it lies in, and a
scope keeps the numbers of its members, those of each kind in a list of their own.
Main definitions:
* `Members`: the member lists of the document, of a namespace or of a class.
* `Node`, `Arena`: what is kept of a declaration, and of a document.
* `Arena.listed`, `Arena.members`: the members of a scope of one kind, and in an order of kinds.
-/

namespace ScriptLens

/-! ## Nodes -/

/-- The numbers of what lies directly in the document, in a namespace or in a class. -/
structure Members where
  /-- The namespaces. -/
  namespaces : List Nat := []
  /-- The classes. -/
  classes : List Nat := []
  /-- The functions. -/
  functions : List Nat := []
  /-- The variables. -/
  vars : List Nat := []
  deriving DecidableEq, Repr

namespace Members

/-- The list of the members of one kind. Only functions list parameters. -/
def listed (members : Members) : Declaration.Kind → List Nat
  | .namespaceDecl => members.namespaces
  | .classDecl => members.classes
  | .functionDecl => members.functions
  | .parameterDecl => []
  | .variableDecl => members.vars

/-- One more member of a given kind, behind the others of that kind. -/
def add (members : Members) (kind : Declaration.Kind) (id : Nat) : Members :=
  match kind with
  | .namespaceDecl => { members with namespaces := members.namespaces ++ [id] }
  | .classDecl => { members with classes := members.classes ++ [id] }
  | .functionDecl => { members with functions := members.functions ++ [id] }
  | .parameterDecl => members
  | .variableDecl => { members with vars := members.vars ++ [id] }

end Members

/-- What a node declares. -/
inductive Node.Content where
  /-- A namespace with its members. -/
  | namespaceNode (members : Members)
  /-- A class with its members. -/
  | classNode (members : Members)
  /-- A function with its parameters and the variables of its body. -/
  | functionNode (parameters vars : List Nat) (access : Access)
  /-- A variable or a parameter with its type. -/
  | variableNode (typeName : String) (access : Access)
  deriving DecidableEq, Repr

/-- What an arena keeps of a declaration. -/
structure Node where
  /-- The declared name. -/
  name : String
  /-- The line of the name. -/
  line : Nat
  /-- The column of the name. -/
  column : Nat
  /-- The number of the scope that the declaration lies in; `none` stands for the document. -/
  parent : Option Nat
  /-- The lines of the declaration, with its body. -/
  lines : LineRange
  /-- What is declared. -/
  content : Node.Content
  deriving DecidableEq, Repr

namespace Node

/-- The list of the members of one kind. A variable has no members. -/
def listed (node : Node) (kind : Declaration.Kind) : List Nat :=
  match node.content, kind with
  | .namespaceNode members, kind => members.listed kind
  | .classNode members, kind => members.listed kind
  | .functionNode parameters _ _, .parameterDecl => parameters
  | .functionNode _ vars _, .variableDecl => vars
  | .functionNode _ _ _, _ => []
  | .variableNode _ _, _ => []

/-- Whether a node may hold others. -/
def isScope (node : Node) : Bool :=
  match node.content with
  | .namespaceNode _ | .classNode _ | .functionNode _ _ _ => true
  | .variableNode _ _ => false

/-- Whether a node can be the type of a variable. -/
def isType (node : Node) : Bool :=
  match node.content with
  | .namespaceNode _ | .classNode _ => true
  | .functionNode _ _ _ | .variableNode _ _ => false

end Node

/-! ## Arenas -/

/-- What is kept of a document. -/
structure Arena where
  /-- The nodes in the order of their numbers. -/
  nodes : List Node
  /-- The members of the document. -/
  root : Members
  /-- The errors of the scopes whose brackets never close. -/
  errors : List BracketError
  deriving DecidableEq, Repr

namespace Arena

/-- The list of the members of one kind in a scope, where `none` stands for the document. -/
def listed (arena : Arena) (scope : Option Nat) (kind : Declaration.Kind) : List Nat :=
  match scope with
  | none => arena.root.listed kind
  | some id => (arena.nodes[id]?.map (·.listed kind)).getD []

/-- The members of a scope in the order of a list of kinds. -/
def members (arena : Arena) (order : List Declaration.Kind) (scope : Option Nat) : List Nat :=
  order.flatMap (arena.listed scope)

end Arena

end ScriptLens
