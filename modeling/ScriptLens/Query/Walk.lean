import ScriptLens.Query.Order
import ScriptLens.Symbol.Arena
import ScriptLens.Text.Search

/-! # Walks along numbers
In an arena a question about a document is answered by following numbers, from a node to the scope
that it lies in or from a scope to its members. Nothing in the arena itself says that this comes to
an end or that a number is one of a node. A walk is therefore given a bound on the calls inside one
another, and has no result if the bound is used up or a number is of no node.
Main definitions:
* `Arena.path?`: the dotted path of a node, a walk to the outside.
* `Arena.enclosing?`, `Arena.lookup?`, `Arena.offered?`: the scopes around a line, the node that a
  name stands for, and the nodes whose names contain some characters, walks to the inside. -/

namespace ScriptLens.Arena

variable (arena : Arena)

/-- The members of a scope in the order of a list of kinds, each with its node. -/
def nodesOf? (order : List Declaration.Kind) (scope : Option Nat) : Option (List (Nat × Node)) :=
  (arena.members order scope).mapM fun id => arena.nodes[id]?.map fun node => (id, node)

/-- The dotted path that leads to a node through the types it lies in. -/
def path? : (bound id : Nat) → Option String
  | 0, _ => none
  | bound + 1, id => do
    let node ← arena.nodes[id]?
    match node.parent with
    | none => some node.name
    | some parent =>
      let owner ← arena.nodes[parent]?
      if owner.isType then
        let path ← path? bound parent
        some (path ++ "." ++ node.name)
      else some node.name

/-- The scopes around a line inside a scope, the innermost one first. -/
def enclosing? (line : Nat) : (bound : Nat) → (scope : Option Nat) → Option (List Nat)
  | 0, _ => none
  | bound + 1, scope => do
    let scopes ← arena.nodesOf? scopeOrder scope
    match scopes.find? fun (_, node) => node.lines.contains line with
    | none => some []
    | some (inner, _) =>
      let around ← enclosing? line bound (some inner)
      some (around ++ [inner])

/-- The node that a name stands for on a line, or that there is none. -/
def lookup? (name : String) (line : Nat) :
    (bound : Nat) → (scope : Option Nat) → Option (Option Nat)
  | 0, _ => none
  | bound + 1, scope => do
    let scopes ← arena.nodesOf? scopeOrder scope
    let openScopes := scopes.filter fun (_, node) => node.lines.contains line
    let inside ← openScopes.mapM fun (inner, _) => lookup? name line bound (some inner)
    let direct ← arena.nodesOf? lookupOrder scope
    let here := (direct.find? fun (_, node) => node.name = name).map Prod.fst
    some (inside.findSome? id <|> here)

/-- The nodes that can be used on a line and whose names contain `part`. -/
def offered? (part : String) (line : Nat) :
    (bound : Nat) → (scope : Option Nat) → Option (List Nat)
  | 0, _ => none
  | bound + 1, scope => do
    let direct ← arena.nodesOf? completionOrder scope
    let found ← direct.mapM fun (id, node) => do
      let inside ←
        if node.isScope && node.lines.contains line then offered? part line bound (some id)
        else some []
      some (inside ++ if Text.occurs part.toList node.name.toList then [id] else [])
    some found.flatten

end ScriptLens.Arena
