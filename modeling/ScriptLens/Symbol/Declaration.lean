import ScriptLens.Symbol.LineRange
import ScriptLens.Token.Basic

/-! # Declarations
Main definitions:
* `Visibility`, `Access`: who may use a member, and whether it is static.
* `Declaration`: what is declared, where, and over which lines.
* `BracketError`: a declaration whose brackets never close. -/

namespace ScriptLens

/-- Who may use a member. -/
inductive Visibility where
  /-- Usable from everywhere. -/
  | publicAccess
  /-- Usable from the class and from the classes built on it. -/
  | protectedAccess
  /-- Usable from the class only. -/
  | privateAccess
  deriving DecidableEq, Repr

/-- The visibility that an access modifier stands for. -/
def Visibility.ofKeyword? : String → Option Visibility
  | "public" => some .publicAccess
  | "protected" => some .protectedAccess
  | "private" => some .privateAccess
  | _ => none

/-- How a member may be used. Members are private and not static unless they are declared
otherwise. -/
structure Access where
  /-- Who may use the member. -/
  visibility : Visibility := .privateAccess
  /-- Whether the member belongs to the class and not to its objects. -/
  isStatic : Bool := false
  deriving DecidableEq, Repr

/-- What a declaration declares. -/
inductive Declaration.Kind where
  /-- A namespace. -/
  | namespaceDecl
  /-- A class. -/
  | classDecl
  /-- A function, a method or a constructor. -/
  | functionDecl
  /-- A parameter of a function. -/
  | parameterDecl
  /-- A variable: a local one, a field, or one of a namespace or the document. -/
  | variableDecl
  deriving DecidableEq, Repr

/-- Whether declarations of this kind may hold others. -/
def Declaration.Kind.isScope : Declaration.Kind → Bool
  | namespaceDecl | classDecl | functionDecl => true
  | parameterDecl | variableDecl => false

/-- Whether declarations of this kind can be the type of a variable. -/
def Declaration.Kind.isType : Declaration.Kind → Bool
  | namespaceDecl | classDecl => true
  | functionDecl | parameterDecl | variableDecl => false

/-- A declaration of a source text. -/
structure Declaration where
  /-- What is declared. -/
  kind : Declaration.Kind
  /-- The declared name. -/
  name : String
  /-- The line of the name. -/
  line : Nat
  /-- The column of the name. -/
  column : Nat
  /-- The lines of the declaration, with its body. -/
  lines : LineRange
  /-- The declared type of a variable; for other declarations a word that says what they are. -/
  typeName : String
  /-- How the declared thing may be used. -/
  access : Access
  /-- The kind of the bracket that opens the parameters or the body and never closes. -/
  unclosed : Option Token.Kind := none
  deriving DecidableEq, Repr

namespace Declaration

/-- Whether a declaration may hold others. -/
def isScope (declaration : Declaration) : Bool :=
  declaration.kind.isScope

/-- Whether a declaration can be the type of a variable. -/
def isType (declaration : Declaration) : Bool :=
  declaration.kind.isType

/-- A declaration of the name that a token spells, on the line of that token. -/
def ofName (kind : Kind) (typeName : String) (access : Access) (name : Token) : Declaration where
  kind := kind
  name := name.lexeme
  line := name.line
  column := name.column
  lines := .single name.line
  typeName := typeName
  access := access

/-- A namespace. -/
def ofNamespace (name : Token) : Declaration :=
  ofName .namespaceDecl "namespace" { visibility := .publicAccess } name

/-- A class. -/
def ofClass (name : Token) : Declaration :=
  ofName .classDecl "class" { visibility := .publicAccess } name

/-- A function, a method or a constructor. -/
def ofFunction (access : Access) (name : Token) : Declaration :=
  ofName .functionDecl "function" access name

/-- A parameter. -/
def ofParameter (typeName : String) (name : Token) : Declaration :=
  ofName .parameterDecl typeName {} name

/-- A variable. -/
def ofVariable (typeName : String) (access : Access) (name : Token) : Declaration :=
  ofName .variableDecl typeName access name

/-- A declaration whose lines reach from its name to the last token of a span. -/
def through (declaration : Declaration) (span : List Token) : Declaration :=
  match span.getLast? with
  | none => declaration
  | some closing => { declaration with lines := .between declaration.line closing.line }

/-- A declaration keeps its kind when its lines are stretched. -/
@[simp] theorem kind_through (declaration : Declaration) (span : List Token) :
    (declaration.through span).kind = declaration.kind := by
  unfold through
  split <;> rfl

/-- A declaration keeps its name when its lines are stretched. -/
@[simp] theorem name_through (declaration : Declaration) (span : List Token) :
    (declaration.through span).name = declaration.name := by
  unfold through
  split <;> rfl

/-- The name of a declaration stays where it is when the lines are stretched. -/
@[simp] theorem line_through (declaration : Declaration) (span : List Token) :
    (declaration.through span).line = declaration.line := by
  unfold through
  split <;> rfl

/-- The word for what a declaration is stays the same when its lines are stretched. -/
@[simp] theorem typeName_through (declaration : Declaration) (span : List Token) :
    (declaration.through span).typeName = declaration.typeName := by
  unfold through
  split <;> rfl

/-- Stretching its lines opens no bracket of a declaration. -/
@[simp] theorem unclosed_through (declaration : Declaration) (span : List Token) :
    (declaration.through span).unclosed = declaration.unclosed := by
  unfold through
  split <;> rfl

end Declaration

/-- A scope whose brackets never close. Such a scope has no members. -/
structure BracketError where
  /-- The word for what was declared. -/
  scope : String
  /-- The name of the scope. -/
  name : String
  /-- The line of the name. -/
  line : Nat
  /-- The kind of the bracket that never closes. -/
  opening : Token.Kind
  deriving DecidableEq, Repr

/-- The text of a bracket error. -/
def BracketError.message (error : BracketError) : String :=
  "unbalanced " ++ error.opening.name ++ " in " ++ error.scope ++ " `" ++ error.name ++
    "` declared on line " ++ toString error.line

/-- The bracket error of a declaration, if its brackets never close. -/
def Declaration.bracketError? (declaration : Declaration) : Option BracketError :=
  declaration.unclosed.map fun opening =>
    { scope := declaration.typeName, name := declaration.name, line := declaration.line, opening }

/-- Stretching its lines changes no error of a declaration. -/
@[simp] theorem Declaration.bracketError?_through (declaration : Declaration) (span : List Token) :
    (declaration.through span).bracketError? = declaration.bracketError? := by
  simp [bracketError?]

end ScriptLens
