import ScriptLens.Query.Order
import ScriptLens.Text.Search

/-! # Symbols visible from a line
A scope is open on a line when the line is one of its lines.
Main definitions:
* `Outline.enclosing`: the scopes around a line.
* `Outline.visibleVariable?`: the variable that a name stands for on a line.
* `Outline.lookup?`: the symbol that a name stands for on a line.
* `Outline.offered`: the symbols whose names contain some characters. -/

namespace ScriptLens

/-- Whether a symbol is a scope that is open on a line. -/
def Symbol.isOpenOn (symbol : Symbol) (line : Nat) : Bool :=
  symbol.declaration.isScope && symbol.lines.contains line

namespace Outline

/-- The scopes around a line, the innermost one first. Of several scopes side by side that are
open on the line only the first one is entered. -/
def enclosing (outline : Outline) (line : Nat) : List Symbol :=
  outline.fold fun members =>
    match (arrange scopeOrder members).find? (·.1.isOpenOn line) with
    | none => []
    | some (scope, inner) => inner ++ [scope]

/-- The variable that a name stands for on a line: parameters and variables of the innermost scope
around the line come first, those of the document last. -/
def visibleVariable? (outline : Outline) (name : String) (line : Nat) : Option Symbol :=
  outline.fold fun members =>
    (((arrange scopeOrder members).find? (·.1.isOpenOn line)).bind Prod.snd) <|>
      ((arrange variableOrder members).map Prod.fst).find? (·.name = name)

/-- The symbol that a name stands for on a line: members of inner scopes that are open on the line
come before the members of the scope itself. -/
def lookup? (outline : Outline) (name : String) (line : Nat) : Option Symbol :=
  outline.fold fun members =>
    (((arrange scopeOrder members).filter (·.1.isOpenOn line)).findSome? Prod.snd) <|>
      ((arrange lookupOrder members).map Prod.fst).find? (·.name = name)

/-- The symbols that can be used on a line and whose names contain `part`. The members of a scope
come before the scope. -/
def offered (outline : Outline) (part : String) (line : Nat) : List Symbol :=
  outline.fold fun members =>
    (arrange completionOrder members).flatMap fun (symbol, inner) =>
      (if symbol.isOpenOn line then inner else []) ++
        (if Text.occurs part.toList symbol.name.toList then [symbol] else [])

end Outline

end ScriptLens
