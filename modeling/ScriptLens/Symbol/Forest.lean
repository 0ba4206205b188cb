/-! # Forests
Ordered trees of any width, side by side. A forest is either empty or starts with a root, which
has a forest below it and a forest beside it.
Main definitions:
* `Forest.roots`: the roots with what lies below each of them.
* `Forest.toList`, `Forest.subtrees`: all elements, each before the ones below it.
* `Forest.fold`: a value computed from the bottom up; `Forest.fold_eq` is its recursive equation.
-/

namespace ScriptLens

/-- Ordered trees side by side. -/
inductive Forest (α : Type) where
  /-- No tree. -/
  | nil
  /-- A tree with its root and the forest below it, and the trees beside it. -/
  | cons (root : α) (below beside : Forest α)
  deriving DecidableEq, Repr

namespace Forest

variable {α β : Type}

/-- The roots of a forest, each with the forest below it. -/
def roots : Forest α → List (α × Forest α)
  | nil => []
  | cons root below beside => (root, below) :: roots beside

/-- The elements of a forest, each one before those below it. -/
def toList : Forest α → List α
  | nil => []
  | cons root below beside => root :: (toList below ++ toList beside)

/-- The elements of a forest with what lies below each, in the order of `toList`. -/
def subtrees : Forest α → List (α × Forest α)
  | nil => []
  | cons root below beside => (root, below) :: (subtrees below ++ subtrees beside)

/-- The number of elements of a forest. -/
def size : Forest α → Nat
  | nil => 0
  | cons _ below beside => 1 + size below + size beside

/-- A forest with trees of one element each before it. -/
def withLeaves (leaves : List α) (forest : Forest α) : Forest α :=
  leaves.foldr (fun leaf beside => cons leaf nil beside) forest

/-- The roots, each with the value of the forest below it, where `step` gives the value of a
forest from its roots and the values below them. -/
def foldRoots (step : List (α × β) → β) : Forest α → List (α × β)
  | nil => []
  | cons root below beside => (root, step (foldRoots step below)) :: foldRoots step beside

/-- The value of a forest, where `step` gives it from the roots and the values below them. -/
def fold (step : List (α × β) → β) (forest : Forest α) : β :=
  step (forest.foldRoots step)

/-- Folding the roots is mapping over them. -/
theorem foldRoots_eq (step : List (α × β) → β) (forest : Forest α) :
    forest.foldRoots step = forest.roots.map fun (root, below) => (root, below.fold step) := by
  induction forest with
  | nil => rfl
  | cons root below beside _ besideInduction =>
    simp only [foldRoots, roots, List.map_cons, besideInduction, fold]

/-- The value of a forest comes from its roots and the values of the forests below them. -/
theorem fold_eq (step : List (α × β) → β) (forest : Forest α) :
    forest.fold step = step (forest.roots.map fun (root, below) => (root, below.fold step)) := by
  rw [fold, foldRoots_eq]

/-- The elements are those of the subtrees. -/
@[simp] theorem map_fst_subtrees (forest : Forest α) :
    forest.subtrees.map Prod.fst = forest.toList := by
  induction forest with
  | nil => rfl
  | cons root below beside belowInduction besideInduction =>
    simp only [subtrees, toList, List.map_cons, List.map_append, belowInduction, besideInduction]

/-- Leaves before a forest come first. -/
@[simp] theorem toList_withLeaves (leaves : List α) (forest : Forest α) :
    (forest.withLeaves leaves).toList = leaves ++ forest.toList := by
  induction leaves with
  | nil => rfl
  | cons leaf leaves ih => exact congrArg (leaf :: ·) ih

/-- The size is the number of elements. -/
@[simp] theorem length_toList (forest : Forest α) : forest.toList.length = forest.size := by
  induction forest with
  | nil => rfl
  | cons root below beside belowInduction besideInduction =>
    simp only [toList, size, List.length_cons, List.length_append, belowInduction,
      besideInduction]
    omega

/-- Each leaf is one element. -/
@[simp] theorem size_withLeaves (leaves : List α) (forest : Forest α) :
    (forest.withLeaves leaves).size = leaves.length + forest.size := by
  rw [← length_toList, toList_withLeaves, List.length_append, length_toList]

end Forest

end ScriptLens
