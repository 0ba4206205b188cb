import ScriptLens.Proofs.Symbol.Holders

/-! # Class names
While a document is read, the names of its classes are kept, since a class can be the type of a
variable in a function. The names kept are those of the classes declared so far.
Main definitions:
* `classesOf`: the names of the classes among some declarations.
* `Step.Accounts`: a step adds the class it has found to the names, and nothing else.
Main statements:
* `step_accounts`: every step keeps account of classes.
* `classNames_read`: the names kept after reading are those of the classes that were read. -/

namespace ScriptLens.Reader

/-! ## Classes among declarations -/

/-- The name of a class. -/
def className? (declaration : Declaration) : Option String :=
  if declaration.kind = .classDecl then some declaration.name else none

/-- The names of the classes among some declarations. -/
def classesOf (declarations : List Declaration) : List String :=
  declarations.filterMap className?

/-- The classes of a list, with its first declaration set apart. -/
@[simp] theorem classesOf_cons (declaration : Declaration) (later : List Declaration) :
    classesOf (declaration :: later) = (className? declaration).toList ++ classesOf later := by
  rw [classesOf, List.filterMap_cons]
  cases className? declaration <;> rfl

/-- The classes of two lists are those of both. -/
@[simp] theorem classesOf_append (left right : List Declaration) :
    classesOf (left ++ right) = classesOf left ++ classesOf right :=
  List.filterMap_append

/-- A declaration of another kind is no class. -/
theorem className?_of_ne {declaration : Declaration} (h : declaration.kind ≠ .classDecl) :
    className? declaration = none :=
  if_neg h

/-- A class keeps its name when its lines are stretched. -/
@[simp] theorem className?_through (declaration : Declaration) (span : List Token) :
    className? (declaration.through span) = className? declaration := by
  unfold Declaration.through
  split <;> rfl

/-- A parameter list declares no classes. -/
@[simp] theorem classesOf_parameters (window : List Token) :
    classesOf (parameters window) = [] := by
  refine List.filterMap_eq_nil_iff.mpr fun declaration listed => className?_of_ne ?_
  rw [kind_of_mem_parameters listed]
  nofun

/-! ## Steps -/

/-- A step keeps account of classes: those known after it are the one it has found and those known
before. -/
def Step.Accounts (context : Context) (next : Step) : Prop :=
  next.context.classNames =
    (next.found.bind fun found => className? found.declaration).toList ++ context.classNames

/-- Behind the start of a variable no class is found. -/
theorem readVariable_accounts (context : Context) (access : Access) (start : Token)
    (tokens : List Token) : (readVariable context access start tokens).Accounts context := by
  unfold readVariable
  cases tokens with
  | nil => rfl
  | cons name tokens =>
    dsimp only
    split
    · split <;> rfl
    · rfl

/-- A function settles nothing. -/
@[simp] theorem context_readFunction (context : Context) (access : Access) (name : Token)
    (tokens : List Token) : (readFunction context access name tokens).context = context := by
  unfold readFunction
  dsimp only
  split
  · rfl
  · split
    · split
      · rfl
      · split <;> rfl
    · rfl

/-- Behind the name of a function no class is found. -/
theorem readFunction_accounts (context : Context) (access : Access) (name : Token)
    (tokens : List Token) : (readFunction context access name tokens).Accounts context := by
  unfold Step.Accounts
  rw [context_readFunction]
  cases h : (readFunction context access name tokens).found with
  | none => rfl
  | some found =>
    have isFunction := (readFunction_kind h).1
    rw [Option.bind_some, className?_of_ne (by rw [isFunction]; nofun)]
    rfl

/-- Behind the name of a container that container is found, in the context before it. -/
theorem readContainer_context_class (context : Context) (access : Access)
    (declaration : Declaration) (region : Region) (tokens : List Token) :
    (readContainer context access declaration region tokens).context = context ∧
      ((readContainer context access declaration region tokens).found.bind
        fun found => className? found.declaration) = className? declaration := by
  unfold readContainer
  split
  · exact ⟨rfl, rfl⟩
  · split
    · exact ⟨rfl, className?_through _ _⟩
    · exact ⟨rfl, rfl⟩

/-- A named declaration keeps account of classes if its rest does. -/
theorem readNamed_accounts {context : Context} {access : Access} {tokens : List Token}
    {readRest : Token → List Token → Step}
    (h : ∀ name later, (readRest name later).Accounts context) :
    (readNamed context access tokens readRest).Accounts context := by
  unfold readNamed
  cases tokens with
  | nil => rfl
  | cons name tokens =>
    dsimp only
    split
    · exact h name tokens
    · rfl

/-- What follows a keyword keeps account of classes. -/
theorem readKeyword_accounts (region : Region) (context : Context) (access : Access)
    (keyword : Token) (tokens : List Token) :
    (readKeyword region context access keyword tokens).Accounts context := by
  unfold readKeyword
  split
  · exact readNamed_accounts (readFunction_accounts context access)
  split
  · exact readFunction_accounts context access keyword tokens
  split
  · refine readNamed_accounts fun name later => ?_
    obtain ⟨keeps, named⟩ := readContainer_context_class
      { context with classNames := name.lexeme :: context.classNames } access (.ofClass name)
      .classBody later
    rw [Step.Accounts, keeps, named]
    rfl
  split
  · refine readNamed_accounts fun name later => ?_
    obtain ⟨keeps, named⟩ :=
      readContainer_context_class context access (.ofNamespace name) .outer later
    rw [Step.Accounts, keeps, named]
    rfl
  split
  · split
    · rfl
    · split <;> rfl
  · rfl

/-- Every step keeps account of classes. -/
theorem step_accounts (region : Region) (context : Context) (access : Access) (token : Token)
    (tokens : List Token) : (step region context access token tokens).Accounts context := by
  unfold step
  split
  · rfl
  split
  · exact readVariable_accounts context access token tokens
  split
  · exact readKeyword_accounts region context access token tokens
  · rfl

/-! ## Runs -/

/-- The classes known after reading are those declared in what was read, the last one first, and
those known before. -/
theorem classNames_read (region : Region) (context : Context) (access : Access)
    (tokens : List Token) :
    (read region context access tokens).2.classNames =
      (classesOf (read region context access tokens).1.toList).reverse ++ context.classNames := by
  fun_induction read region context access tokens with
  | case1 region context access => rfl
  | case2 region context access token tokens next nothing ih =>
    have accounts : next.Accounts context := step_accounts region context access token tokens
    rw [Step.Accounts, nothing] at accounts
    rw [ih, accounts]
    rfl
  | case3 region context access token tokens next found hfound inner beside innerIh _ besideIh =>
    have accounts : next.Accounts context := step_accounts region context access token tokens
    rw [Step.Accounts, hfound, Option.bind_some] at accounts
    obtain ⟨layout, fits⟩ := (opens_of_found hfound).layout hfound
    have plain : classesOf found.parameters = [] := by
      simp [fits.parameters_eq]
    have below : inner.2.classNames =
        (classesOf inner.1.toList).reverse ++ next.context.classNames := innerIh
    have after : beside.2.classNames =
        (classesOf beside.1.toList).reverse ++ inner.2.classNames := besideIh
    rw [Forest.toList, classesOf_cons, Forest.toList_withLeaves, classesOf_append,
      classesOf_append, plain, after, below, accounts]
    cases className? found.declaration <;> simp

end ScriptLens.Reader
