import ScriptLens.Symbol.Reader

/-! # Outlines
The outline of a document is the forest of its symbols. A symbol is a declaration with its number
and with the declarations it lies in. Numbers count declarations in the order in which they are
read, so that a scope comes right before its members.
Main definitions:
* `Symbol`, `Symbol.path`: a declaration in its place, and the dotted path that leads to it.
* `Forest.number`: declarations as symbols.
* `Outline`, `Outline.ofTokens`: the outline of a list of tokens.
* `Outline.symbols`, `Outline.get?`, `Outline.errors`: its symbols, one of them, and its errors.
-/

namespace ScriptLens

/-! ## Symbols -/

/-- A declaration with its number. -/
structure Entry where
  /-- The number of declarations read before this one. -/
  id : Nat
  /-- The declaration. -/
  declaration : Declaration
  deriving DecidableEq, Repr

/-- A declaration in its place: with its number, and with the declarations it lies in. -/
structure Symbol extends Entry where
  /-- The declarations around it, the innermost one first. -/
  owners : List Entry
  deriving DecidableEq, Repr

namespace Symbol

/-- What the symbol is. -/
def kind (symbol : Symbol) : Declaration.Kind :=
  symbol.declaration.kind

/-- The name of the symbol. -/
def name (symbol : Symbol) : String :=
  symbol.declaration.name

/-- The type of a variable, or the word for what the symbol is. -/
def typeName (symbol : Symbol) : String :=
  symbol.declaration.typeName

/-- The lines of the symbol. -/
def lines (symbol : Symbol) : LineRange :=
  symbol.declaration.lines

/-- The symbol that a symbol lies in. -/
def owner? (symbol : Symbol) : Option Symbol :=
  match symbol.owners with
  | [] => none
  | owner :: owners => some { owner with owners }

/-- The names on the way to a symbol through the types it lies in, the outermost one first. -/
def pathNames (symbol : Symbol) : List String :=
  let types := symbol.owners.takeWhile (·.declaration.isType)
  (types.map (·.declaration.name)).reverse ++ [symbol.name]

/-- The dotted path that leads to a symbol through the types it lies in. -/
def path (symbol : Symbol) : String :=
  ".".intercalate symbol.pathNames

end Symbol

/-! ## Outlines -/

/-- The declarations of a forest as symbols, where `owners` lie around them and the first one has
the number `first`. -/
def Forest.number (owners : List Entry) (first : Nat) : Forest Declaration → Forest Symbol
  | nil => nil
  | cons declaration below beside =>
    let entry : Entry := { id := first, declaration }
    cons { entry with owners } (number (entry :: owners) (first + 1) below)
      (number owners (first + 1 + below.size) beside)

/-- The symbols of a document, each with its members below it. -/
abbrev Outline := Forest Symbol

namespace Outline

/-- The outline of a document with the given tokens. -/
def ofTokens (tokens : List Token) : Outline :=
  (Reader.read .outer {} {} tokens).1.number [] 0

/-- The symbols of an outline in the order of their numbers. -/
def symbols (outline : Outline) : List Symbol :=
  outline.toList

/-- The symbol with a given number, with its members. -/
def get? (outline : Outline) (id : Nat) : Option (Symbol × Outline) :=
  outline.subtrees[id]?

/-- The errors of the scopes whose brackets never close, in the order of the scopes. -/
def errors (outline : Outline) : List BracketError :=
  outline.symbols.filterMap (·.declaration.bracketError?)

/-- The first symbol with a given name, wherever it is declared. -/
def findName? (outline : Outline) (name : String) : Option Symbol :=
  outline.symbols.find? (·.name = name)

/-- The first class or namespace with a given name or path, with its members. -/
def findType? (outline : Outline) (name : String) : Option (Symbol × Outline) :=
  outline.subtrees.find? fun (symbol, _) =>
    symbol.declaration.isType && (symbol.name = name || symbol.path = name)

end Outline

/-- Numbering keeps the declarations and their order. -/
@[simp] theorem Forest.map_declaration_number (owners : List Entry) (first : Nat)
    (forest : Forest Declaration) :
    (forest.number owners first).toList.map (·.declaration) = forest.toList := by
  induction forest generalizing owners first with
  | nil => rfl
  | cons declaration below beside belowInduction besideInduction =>
    simp only [number, toList, List.map_cons, List.map_append, belowInduction, besideInduction]

/-- The errors of numbered declarations are those of the declarations. -/
@[simp] theorem Outline.errors_number (owners : List Entry) (first : Nat)
    (forest : Forest Declaration) :
    errors (forest.number owners first) = forest.toList.filterMap (·.bracketError?) := by
  rw [errors, symbols, ← Forest.map_declaration_number owners first forest, List.filterMap_map]
  rfl

/-- Numbers count up from the first one. -/
@[simp] theorem Forest.map_id_number (owners : List Entry) (first : Nat)
    (forest : Forest Declaration) :
    (forest.number owners first).toList.map (·.id) = List.range' first forest.size := by
  induction forest generalizing owners first with
  | nil => rfl
  | cons declaration below beside belowInduction besideInduction =>
    simp only [number, toList, size, List.map_cons, List.map_append, belowInduction,
      besideInduction, List.range'_append_1]
    rw [Nat.add_assoc 1, Nat.add_comm 1, List.range'_succ]

end ScriptLens
