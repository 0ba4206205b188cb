import ScriptLens.Symbol.Outline

/-! # Orders of members
The members of a scope are visited by kind, and those of one kind as they are declared. Which
kinds come first depends on the question.
Main definitions:
* `arrange`: members in the order of a list of kinds.
* `scopeOrder`, `variableOrder`, `lookupOrder`, `completionOrder`: the orders in use inside a
  scope.
* `Outline.arranged`: the members of a scope in a given order. -/

namespace ScriptLens

open Declaration (Kind)

/-- Symbols, each with some further value, in the order of a list of kinds. Symbols of other kinds
are left out. -/
def arrange {β : Type} (order : List Kind) (members : List (Symbol × β)) : List (Symbol × β) :=
  order.flatMap fun kind => members.filter fun (symbol, _) => symbol.kind = kind

/-- The order in which a scope is searched for inner scopes. -/
def scopeOrder : List Kind :=
  [.functionDecl, .classDecl, .namespaceDecl]

/-- The order in which a scope is searched for a variable. -/
def variableOrder : List Kind :=
  [.parameterDecl, .variableDecl]

/-- The order in which a scope is searched for a name. -/
def lookupOrder : List Kind :=
  [.parameterDecl, .variableDecl, .functionDecl, .classDecl, .namespaceDecl]

/-- The order in which the members of a scope are offered. -/
def completionOrder : List Kind :=
  [.namespaceDecl, .classDecl, .functionDecl, .parameterDecl, .variableDecl]

/-- The members of a scope in the order of a list of kinds. -/
def Outline.arranged (outline : Outline) (order : List Kind) : List Symbol :=
  (arrange order outline.roots).map Prod.fst

/-- A member is arranged exactly when its kind is in the order. -/
@[simp, grind =] theorem mem_arrange {β : Type} {order : List Kind} {members : List (Symbol × β)}
    {member : Symbol × β} :
    member ∈ arrange order members ↔ member ∈ members ∧ member.1.kind ∈ order := by
  simp only [arrange, List.mem_flatMap, List.mem_filter, decide_eq_true_eq]
  constructor
  · rintro ⟨kind, listed, found, rfl⟩
    exact ⟨found, listed⟩
  · rintro ⟨found, listed⟩
    exact ⟨member.1.kind, listed, found, rfl⟩

end ScriptLens
