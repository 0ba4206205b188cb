import ScriptLens.Token.Cursor

/-! # Dotted chains
Main definitions:
* `Chain`: the names before the last dot of an access such as `a.b.c`, and what stands behind that
  dot.
* `Chain.at?`: the chain that ends at a cursor. -/

namespace ScriptLens

/-- A dotted access. -/
structure Chain where
  /-- The names before the last dot, in source order. -/
  segments : List Token
  /-- What stands behind the last dot. -/
  typed : String
  deriving DecidableEq, Repr

namespace Chain

/-- The names that end right before a dot, the last one first, read off the tokens before that dot
in reverse order. Reading stops at the first token that is no name, and at a name without a dot
before it. -/
def namesBefore : List Token → List Token
  | [] => []
  | [name] => if name.kind = .text then [name] else []
  | name :: dot :: earlier =>
    if name.kind = .text then
      if dot.kind = .dot then name :: namesBefore earlier else [name]
    else []

/-- The dotted access that ends at a cursor: the token under it is a dot or comes right behind
one. -/
def at? (cursor : Cursor) : Option Chain :=
  if cursor.current.kind = .dot then
    some { segments := (namesBefore cursor.before).reverse, typed := "" }
  else
    match cursor.before with
    | [] => none
    | dot :: earlier =>
      if dot.kind = .dot then
        some { segments := (namesBefore earlier).reverse, typed := cursor.current.lexeme }
      else none

end Chain

end ScriptLens
