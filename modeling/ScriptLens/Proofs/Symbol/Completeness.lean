import ScriptLens.Proofs.Symbol.Grammar
import ScriptLens.Proofs.Symbol.Reading
import ScriptLens.Symbol.Outline

/-! # Reading programs back
Reading the tokens of a program finds exactly the declarations of the program: none is missed, none
is made up, and each one has its type, its access, its lines and its place in the tree.
Main definition:
* `found`: a declaration in front of what is read after it.
Main statements:
* `read_inert_append`: inert tokens are passed over.
* `read_declarator`, `readFunction_routine`: one variable, one function.
* `read_body`, `read_members`, `read_program`: whole bodies.
* `ofTokens_tokens`: the outline of the tokens of a program is the tree of the program. -/

namespace ScriptLens.Grammar

open Reader

/-! ## Steps -/

/-- A declaration, with what lies below it, in front of what is read after it. -/
def found (declaration : Declaration) (below : Forest Declaration)
    (later : Forest Declaration × Context) : Forest Declaration × Context :=
  (.cons declaration below later.1, later.2)

/-- Reading goes on behind a token that declares nothing. -/
theorem read_of_step_none {region : Region} {context next : Context} {access nextAccess : Access}
    {token : Token} {tokens rest : List Token}
    (h : step region context access token tokens =
      { context := next, access := nextAccess, rest }) :
    read region context access (token :: tokens) = read region next nextAccess rest := by
  rw [Reader.read, h]

/-- A declaration is read with its body before the tokens behind it. -/
theorem read_of_step_found {region : Region} {context next : Context} {access nextAccess : Access}
    {token : Token} {tokens rest : List Token} {start : Found}
    (h : step region context access token tokens =
      { found := some start, context := next, access := nextAccess, rest }) :
    read region context access (token :: tokens) =
      found start.declaration
        ((read start.region next {} start.body).1.withLeaves start.parameters)
        (read region (read start.region next {} start.body).2 nextAccess rest) := by
  rw [Reader.read, h]
  rfl

/-- A directive before some tokens gives the pending type. -/
theorem read_directiveTokens (region : Region) (classes : List String) (pending : Option String)
    (access : Access) (directive : Option Directive) (later : List Token) :
    read region { classNames := classes, pendingType := pending } access
        (directiveTokens directive ++ later) =
      read region { classNames := classes, pendingType := directedType directive <|> pending }
        access later := by
  cases directive with
  | none => rfl
  | some directive =>
    refine read_of_step_none ?_
    rw [step, directive.directs]
    rfl

/-- A directive after none gives the pending type itself. -/
theorem read_directiveTokens_first (region : Region) (classes : List String) (access : Access)
    (directive : Option Directive) (later : List Token) :
    read region { classNames := classes } access (directiveTokens directive ++ later) =
      read region { classNames := classes, pendingType := directedType directive } access
        later := by
  rw [read_directiveTokens]
  cases directive <;> rfl

/-! ## Inert tokens -/

/-- A punctuation mark is inert. -/
theorem inert_mark (place : Place) {kind : Token.Kind} {sign : String} (isMark : kind ≠ .text)
    (free : sign ∉ reserved) : Inert (place.mark kind sign) :=
  ⟨free, directedType?_of_ne_text isMark⟩

/-- A word that is not reserved is no built-in type. -/
theorem Inert.isDataType {token : Token} (inert : Inert token) :
    Vocabulary.isDataType token.lexeme = false := by
  have notVar : token.lexeme ≠ "var" := by
    intro eq
    exact inert.1 (eq ▸ List.mem_cons_self)
  simpa [Vocabulary.isDataType, Vocabulary.dataTypes] using notVar

/-- Inert keywords are passed over. -/
theorem Inert.readKeyword {token : Token} (inert : Inert token) (region : Region)
    (context : Context) (access : Access) (tokens : List Token) :
    readKeyword region context access token tokens = { context, access, rest := tokens } := by
  have free := inert.1
  simp only [reserved, List.mem_cons, List.not_mem_nil, or_false, not_or] at free
  obtain ⟨-, noFunction, noClass, noNamespace, noConstructor, noStatic, noPublic, noProtected,
    noPrivate⟩ := free
  have noModifier : Visibility.ofKeyword? token.lexeme = none := by
    unfold Visibility.ofKeyword?
    split <;> simp_all
  simp [Reader.readKeyword, noFunction, noClass, noNamespace, noConstructor, noStatic, noModifier]

/-- An inert token is passed over unless it is a class that starts a variable. -/
theorem read_cons_of_inert {region : Region} {context : Context} {access : Access} {token : Token}
    {tokens : List Token} (inert : Inert token)
    (idle : region = .functionBody → token.kind = .text → token.lexeme ∉ context.classNames) :
    read region context access (token :: tokens) = read region context access tokens := by
  refine read_of_step_none ?_
  have starts : startsVariable region context token = false := by
    by_cases inFunction : region = .functionBody ∧ token.kind = .text
    · have unknown := idle inFunction.1 inFunction.2
      simp [startsVariable, inert.isDataType, unknown]
    · rw [not_and_or] at inFunction
      rcases inFunction with elsewhere | isMark
      · simp [startsVariable, inert.isDataType, elsewhere]
      · simp [startsVariable, inert.isDataType, isMark]
  rw [step, inert.2]
  simp [starts, inert.readKeyword]

/-- The name of a class is passed over together with the mark behind it. -/
theorem read_cons_of_class {classes : List String} {access : Access} {token next : Token}
    {tokens : List Token} (inert : Inert token) (isText : token.kind = .text)
    (known : token.lexeme ∈ classes) (isMark : next.kind ≠ .text) :
    read .functionBody { classNames := classes } access (token :: next :: tokens) =
      read .functionBody { classNames := classes } access tokens := by
  refine read_of_step_none ?_
  have starts : startsVariable .functionBody { classNames := classes } token := by
    simp [startsVariable, isText, known]
  rw [step, inert.2]
  simp [starts, readVariable, isMark]

/-- Inert tokens are passed over if the classes among them are used quietly. -/
theorem read_inert_append {region : Region} {classes : List String} {access : Access}
    {tokens later : List Token} (inert : ∀ token ∈ tokens, Inert token)
    (still : region = .functionBody → quiet classes tokens) :
    read region { classNames := classes } access (tokens ++ later) =
      read region { classNames := classes } access later := by
  induction tokens with
  | nil => rfl
  | cons token tokens ih =>
    obtain ⟨inertToken, inertTokens⟩ := List.forall_mem_cons.mp inert
    by_cases h : region = .functionBody ∧ token.kind = .text ∧ token.lexeme ∈ classes
    · obtain ⟨rfl, isText, known⟩ := h
      have followed := still rfl
      simp only [quiet, isText, known, and_self, if_true, Bool.and_eq_true] at followed
      obtain ⟨isMark, stillTokens⟩ := followed
      have passed := ih inertTokens fun _ => stillTokens
      cases tokens with
      | nil => simp at isMark
      | cons next tokens =>
        have isMark : next.kind ≠ .text := by simpa using isMark
        -- The mark behind the class goes with it, but it would have been passed over anyway.
        rw [← passed, List.cons_append, List.cons_append,
          read_cons_of_class inertToken isText known isMark,
          read_cons_of_inert (inertTokens next List.mem_cons_self)
            fun _ isText => absurd isText isMark]
    · have idle : region = .functionBody → token.kind = .text → token.lexeme ∉ classes :=
        fun inFunction isText known => h ⟨inFunction, isText, known⟩
      rw [List.cons_append, read_cons_of_inert inertToken idle]
      refine ih inertTokens fun inFunction => ?_
      have stillAll := still inFunction
      rw [quiet, if_neg fun ⟨isText, known⟩ => idle inFunction isText known] at stillAll
      exact stillAll

/-- The bracket that closes a body is passed over. -/
@[simp] theorem read_closeBody (region : Region) (context : Context) (access : Access)
    (place : Place) :
    read region context access [place.closeBody] = (.nil, context) := by
  have inert : Inert place.closeBody := inert_mark place (by decide) (by decide)
  rw [read_cons_of_inert inert (fun _ isText => by cases isText), Reader.read]

/-! ## Variables -/

/-- The value of a variable is inert, together with the marks around it. -/
theorem Declarator.inert_ending (declarator : Declarator) :
    ∀ token ∈ declarator.ending, Inert token := by
  have inertStop : Inert declarator.stop.semicolon := inert_mark _ (by decide) (by decide)
  unfold ending
  cases declarator.value with
  | none => exact List.forall_mem_singleton.mpr inertStop
  | some value =>
    obtain ⟨place, phrase⟩ := value
    refine List.forall_mem_cons.mpr ⟨inert_mark place (by decide) (by decide), ?_⟩
    intro token mem
    rcases List.mem_append.mp mem with inPhrase | isStop
    · exact phrase.inert token inPhrase
    · exact List.eq_of_mem_singleton isStop ▸ inertStop

/-- The head of a variable ends where its value starts. -/
theorem Declarator.exists_ending (declarator : Declarator) :
    ∃ mark tokens, declarator.ending = mark :: tokens ∧ endsHead mark ∧ mark.kind ≠ .text := by
  unfold ending
  cases declarator.value with
  | none => exact ⟨_, _, rfl, rfl, nofun⟩
  | some value => exact ⟨_, _, rfl, rfl, nofun⟩

/-- The type behind the name of a variable is found, and nothing else is taken for it. -/
@[simp] theorem takeWrittenType_declarator (declarator : Declarator) (later : List Token) :
    takeWrittenType ((declarator.typeName.map (·.token)).toList ++ (declarator.ending ++ later)) =
      (declarator.typeName.map (·.token.lexeme), declarator.ending ++ later) := by
  obtain ⟨mark, tokens, eq, ends, isMark⟩ := declarator.exists_ending
  rw [eq]
  cases declarator.typeName with
  | none =>
    rw [Option.map_none, Option.map_none, Option.toList_none, List.nil_append, List.cons_append]
    unfold takeWrittenType
    split
    · next written next rest same =>
      obtain ⟨rfl, tail⟩ := List.cons.inj same
      simp [isMark, tail]
    · rfl
  | some written => simp [takeWrittenType, written.isText, ends]

/-- A variable is read off its tokens. -/
theorem read_declarator {region : Region} {classes : List String} {pending : Option String}
    {access : Access} {start : Token} {declarator : Declarator} {later : List Token}
    (plain : start.directedType? = none)
    (starts : startsVariable region { classNames := classes, pendingType := pending } start)
    (still : region = .functionBody → quiet classes declarator.ending) :
    read region { classNames := classes, pendingType := pending } access
        (start :: (declarator.tokens ++ later)) =
      found (declarator.declaration pending start.lexeme access) .nil
        (read region { classNames := classes } { access with isStatic := false } later) := by
  obtain ⟨mark, tokens, eq, ends, -⟩ := declarator.exists_ending
  have taken := takeWrittenType_declarator declarator later
  -- The step stops before the mark behind the head, so the value is still to be passed over.
  have next : step region { classNames := classes, pendingType := pending } access start
      (declarator.tokens ++ later) =
      { found := some { declaration := declarator.declaration pending start.lexeme access }
        context := { classNames := classes }
        access := { access with isStatic := false }
        rest := declarator.ending ++ later } := by
    rw [step, plain]
    simp only [starts, if_true, readVariable, Declarator.tokens, List.cons_append,
      List.append_assoc, declarator.name.isText, taken]
    simp [eq, ends, Declarator.declaration]
  rw [read_of_step_found next, Reader.read, read_inert_append declarator.inert_ending still]
  rfl

/-- A variable is read off its tokens, with the directive before it. -/
theorem read_variable {region : Region} {classes : List String} {pending : Option String}
    {access : Access} {declared : Variable} {later : List Token}
    (still : region = .functionBody → quiet classes declared.declarator.ending) :
    read region { classNames := classes, pendingType := pending } access
        (declared.tokens ++ later) =
      found (declared.declaration pending access) .nil
        (read region { classNames := classes } { access with isStatic := false } later) := by
  rw [Variable.tokens, List.append_assoc, read_directiveTokens, List.cons_append]
  exact read_declarator (directedType?_of_ne_text nofun) rfl still

/-! ## Functions -/

/-- A parameter ends where the mark behind it stands. -/
theorem splitParameters_parameter (parameter : Parameter) {mark : Token} (later : List Token)
    (ends : endsParameter mark.kind) (shut : opensBracket mark.kind = false) :
    splitParameters 0 [] (parameter.tokens ++ mark :: later) =
      parameter.tokens :: splitParameters 0 [] later := by
  have across : splitParameters ([] : List Token.Kind).length [] (parameter.tokens ++ mark :: later) =
      splitParameters 0 (parameter.tokens.reverse ++ []) (mark :: later) :=
    splitParameters_of_nested parameter.nested_tokens
  rw [List.length_nil, List.append_nil] at across
  rw [across, splitParameters, shut, ends]
  simp

/-- Parameters are cut apart at the commas between them. -/
theorem splitParameters_others (first : Parameter) (others : List (Place × Parameter))
    (close : Place) :
    splitParameters 0 [] (first.tokens ++ (others.flatMap
        (fun (comma, other) => comma.comma :: other.tokens) ++ [close.closeList])) =
      first.tokens :: others.map fun (_, other) => other.tokens := by
  induction others generalizing first with
  | nil => exact splitParameters_parameter first [] rfl rfl
  | cons other others ih =>
    obtain ⟨comma, other⟩ := other
    rw [List.flatMap_cons, List.map_cons, ← ih other, List.append_assoc, List.cons_append]
    exact splitParameters_parameter first _ rfl rfl

/-- A parameter is read off its tokens. -/
@[simp] theorem parameter?_tokens (parameter : Parameter) :
    parameter? parameter.tokens = some parameter.declaration := by
  have head : parameter.tokens.takeWhile (·.kind ≠ .equalSign) =
      (parameter.typeName.map (·.token)).toList ++ [parameter.name.token] := by
    have named : (parameter.name.token :: parameter.ending).takeWhile (·.kind ≠ .equalSign) =
        [parameter.name.token] := by
      unfold Parameter.ending
      cases parameter.value with
      | none => simp [parameter.name.isText]
      | some value => simp [parameter.name.isText, Place.equals, Place.mark]
    unfold Parameter.tokens
    rw [List.takeWhile_append_of_pos, named]
    intro token mem
    obtain ⟨written, -, rfl⟩ : ∃ written, parameter.typeName = some written ∧
        written.token = token := by simpa using mem
    rcases written.isWord with isText | isKeyword
    · simp [isText]
    · simp [isKeyword]
  rw [parameter?, head, List.reverse_append, List.reverse_singleton, List.singleton_append]
  cases typed : parameter.typeName <;>
    simp [parameter.name.isText, Parameter.declaration, typed, untyped]

/-- The parameters of a function are read off its parameter list. -/
@[simp] theorem parameters_parameterTokens (routine : Routine) :
    parameters (routine.parameterTokens ++ [routine.closeList.closeList]) =
      (routine.parameters.map (·.declarations)).getD [] := by
  unfold Routine.parameterTokens
  cases routine.parameters with
  | none => rfl
  | some list =>
    have others (written : List (Place × Parameter)) :
        (written.map fun (_, other) => other.tokens).filterMap parameter? =
          written.map fun (_, other) => other.declaration := by
      induction written with
      | nil => rfl
      | cons other written ih =>
        simp
    rw [Option.map_some, Option.getD_some, Option.map_some, Option.getD_some, parameters,
      ParameterList.tokens, List.append_assoc, splitParameters_others, List.filterMap_cons,
      parameter?_tokens, others, ParameterList.declarations]

/-- The lines of a declaration end where the last token of its body stands. -/
@[simp] theorem through_closeBody (declaration : Declaration) (tokens : List Token)
    (place : Place) :
    declaration.through (tokens ++ [place.closeBody]) = upTo place declaration := by
  rw [Declaration.through, List.getLast?_concat]
  rfl

/-- A function is read off its tokens, with its parameters and with its body to be read next. -/
@[simp] theorem readFunction_routine (routine : Routine) (context : Context) (access : Access)
    (name : Token) (later : List Token) :
    readFunction context access name (routine.tokens ++ later) =
      { found := some
          { declaration := upTo routine.closeBody (.ofFunction access name)
            parameters := (routine.parameters.map (·.declarations)).getD []
            body := routine.body.flatMap Local.tokens ++ [routine.closeBody.closeBody] }
        context
        access := { access with isStatic := false }
        rest := later } := by
  have split : routine.tokens ++ later = routine.openList.openList ::
      (routine.parameterTokens ++ routine.closeList.closeList :: routine.openBody.openBody ::
        (routine.body.flatMap Local.tokens ++ routine.closeBody.closeBody :: later)) := by
    simp [Routine.tokens]
  -- Each pair of brackets encloses nested tokens, so that both spans end where they should.
  have list (rest : List Token) : Bracket.parentheses.enclosed? (routine.openList.openList ::
      (routine.parameterTokens ++ routine.closeList.closeList :: rest)) = some _ :=
    enclosed?_of_nested rfl rfl rfl routine.nested_parameterTokens
  have body : Bracket.braces.enclosed? (routine.openBody.openBody ::
      (routine.body.flatMap Local.tokens ++ routine.closeBody.closeBody :: later)) = some _ :=
    enclosed?_of_nested rfl rfl rfl (nested_flatMap Local.nested_tokens)
  rw [split, readFunction, list]
  simp [body]

/-! ## Bodies -/

/-- The declarations of the body of a function. -/
theorem read_body {classes : List String} {body : List Local} {closeBody : Place}
    (fits : ∀ piece ∈ body, piece.Fits classes) :
    read .functionBody { classNames := classes } {}
        (body.flatMap Local.tokens ++ [closeBody.closeBody]) =
      (Forest.nil.withLeaves (body.filterMap Local.declaration?), { classNames := classes }) := by
  induction body with
  | nil => exact read_closeBody _ _ _ _
  | cons piece body ih =>
    obtain ⟨fit, fitsNext⟩ := List.forall_mem_cons.mp fits
    rw [List.flatMap_cons, List.append_assoc]
    cases piece with
    | variableDecl declared =>
      rw [Local.tokens, read_variable fun _ => fit, ih fitsNext]
      rfl
    | objectDecl directive className declarator =>
      obtain ⟨known, still⟩ := fit
      have starts : startsVariable .functionBody
          { classNames := classes, pendingType := directedType directive } className.token := by
        simp [startsVariable, className.isText, known]
      rw [Local.tokens, List.append_assoc, read_directiveTokens_first, List.cons_append,
        read_declarator className.isPlain starts fun _ => still, ih fitsNext]
      rfl
    | other phrase =>
      rw [Local.tokens, read_inert_append phrase.inert fun _ => fit, ih fitsNext]
      rfl

/-- Leaves in front of leaves. -/
@[simp] theorem withLeaves_withLeaves (first second : List Declaration)
    (forest : Forest Declaration) :
    (forest.withLeaves second).withLeaves first = forest.withLeaves (first ++ second) := by
  rw [Forest.withLeaves, Forest.withLeaves, Forest.withLeaves, List.foldr_append]

/-- A function is read with all it declares, where a step has come to its parameters. -/
theorem read_routine {region : Region} {classes : List String} {access : Access} {token : Token}
    {tokens later : List Token} {name : Token} {routine : Routine}
    (opens : step region { classNames := classes } access token tokens =
      readFunction { classNames := classes } access name (routine.tokens ++ later))
    (fits : routine.Fits classes) :
    read region { classNames := classes } access (token :: tokens) =
      found (upTo routine.closeBody (.ofFunction access name))
        (Forest.nil.withLeaves routine.leaves)
        (read region { classNames := classes } { access with isStatic := false } later) := by
  rw [readFunction_routine] at opens
  rw [read_of_step_found opens, read_body fits, withLeaves_withLeaves]
  rfl

/-- A keyword other than `var` is read as a keyword. -/
theorem step_keyword {word : String} (other : word ∉ Vocabulary.dataTypes) (region : Region)
    (context : Context) (access : Access) (place : Place) (tokens : List Token) :
    step region context access (place.keyword word) tokens =
      readKeyword region context access (place.keyword word) tokens :=
  step_of_keyword rfl (by simpa [Place.keyword, Vocabulary.isDataType] using other) region context
    access tokens

/-- A function starts behind the keyword and its name. -/
theorem step_function (region : Region) (holds : region ≠ .functionBody) (context : Context)
    (access : Access) (place : Place) (name : Name) (tokens : List Token) :
    step region context access (place.keyword "function") (name.token :: tokens) =
      readFunction context access name.token tokens := by
  rw [step_keyword (by decide), readKeyword, if_pos ⟨rfl, holds⟩, readNamed, if_pos name.isText]

/-- A constructor starts behind the keyword, which is its name. -/
@[simp] theorem step_constructor (context : Context) (access : Access) (place : Place)
    (tokens : List Token) :
    step .classBody context access (place.keyword "constructor") tokens =
      readFunction context access (place.keyword "constructor") tokens := by
  rw [step_keyword (by decide)]
  rfl

/-- An optional `static` makes the next member static. -/
@[simp] theorem read_staticTokens (context : Context) (visibility : Visibility)
    (static : Option Place) (later : List Token) :
    read .classBody context { visibility } (staticTokens static ++ later) =
      read .classBody context { visibility, isStatic := static.isSome } later := by
  cases static with
  | none => rfl
  | some place =>
    refine read_of_step_none ?_
    rw [step_keyword (by decide)]
    rfl

/-- No member starts with a colon. -/
@[simp] theorem dropColon_members (members : List Member) (closeBody : Place) :
    dropColon (members.flatMap Member.tokens ++ [closeBody.closeBody]) =
      members.flatMap Member.tokens ++ [closeBody.closeBody] := by
  have noColon {token : Token} {tokens : List Token} (isText : token.kind = .text) :
      dropColon (token :: tokens) = token :: tokens := by simp [dropColon, isText]
  cases members with
  | nil => rfl
  | cons member members =>
    cases member with
    | modifier visibility place colon => rfl
    | variableDecl directive static declared =>
      obtain ⟨inner, place, declarator⟩ := declared
      rcases directive with - | directive
      · rcases static with - | static
        · rcases inner with - | inner
          · rfl
          · exact noColon inner.isText
        · rfl
      · exact noColon directive.isText
    | functionDecl static place name routine => cases static <;> rfl
    | constructorDecl static place routine => cases static <;> rfl

/-- An access modifier changes the visibility of the members after it. -/
theorem read_modifier {context : Context} {old visibility : Visibility} {place : Place}
    {colon : Option Place} {later : List Token} (noColon : dropColon later = later) :
    read .classBody context { visibility := old }
        ((Member.modifier visibility place colon).tokens ++ later) =
      read .classBody context { visibility } later := by
  -- A colon that belongs to the modifier goes with it; none that belongs to a member may.
  have rest : dropColon ((colon.map (·.colon)).toList ++ later) = later := by
    cases colon with
    | none => exact noColon
    | some colon => rfl
  have next (tokens : List Token) : step .classBody context { visibility := old }
      (place.keyword (visibilityWord visibility)) tokens =
      { context, access := { visibility }, rest := dropColon tokens } := by
    cases visibility <;> rw [step_keyword (by decide)] <;> rfl
  rw [Member.tokens, List.cons_append, read_of_step_none (next _), rest]

/-- The declarations of the body of a class. -/
theorem read_members {classes : List String} {visibility : Visibility} {members : List Member}
    {closeBody : Place} (fits : ∀ member ∈ members, member.Fits classes) :
    read .classBody { classNames := classes } { visibility }
        (members.flatMap Member.tokens ++ [closeBody.closeBody]) =
      (memberDeclarations visibility members, { classNames := classes }) := by
  induction members generalizing visibility with
  | nil => exact read_closeBody _ _ _ _
  | cons member members ih =>
    obtain ⟨fit, fitsNext⟩ := List.forall_mem_cons.mp fits
    rw [List.flatMap_cons, List.append_assoc]
    cases member with
    | modifier visibility place colon =>
      rw [read_modifier (dropColon_members members closeBody), ih fitsNext]
      rfl
    | variableDecl directive static declared =>
      have still : Region.classBody = .functionBody → quiet classes declared.declarator.ending :=
        nofun
      rw [Member.tokens, List.append_assoc, List.append_assoc, read_directiveTokens_first,
        read_staticTokens, read_variable still, ih fitsNext]
      rfl
    | functionDecl static place name routine =>
      rw [Member.tokens, List.append_assoc, read_staticTokens, List.cons_append, List.cons_append,
        read_routine (step_function .classBody nofun _ _ _ _ _) fit, ih fitsNext]
      rfl
    | constructorDecl static place routine =>
      rw [Member.tokens, List.append_assoc, read_staticTokens, List.cons_append,
        read_routine (step_constructor _ _ _ _) fit, ih fitsNext]
      rfl

/-- A class or a namespace is read with all it declares, where a step has come to its body. -/
theorem read_container {context next : Context} {access : Access} {token : Token}
    {tokens inner later : List Token} {declaration : Declaration} {region : Region}
    {openBody closeBody : Place}
    (opens : step .outer context access token tokens =
      readContainer next access declaration region
        (openBody.openBody :: (inner ++ closeBody.closeBody :: later)))
    (isNested : nested anyKind [] inner) :
    read .outer context access (token :: tokens) =
      found (upTo closeBody declaration) (read region next {} (inner ++ [closeBody.closeBody])).1
        (read .outer (read region next {} (inner ++ [closeBody.closeBody])).2 access later) := by
  have body : Bracket.braces.enclosed? (openBody.openBody ::
      (inner ++ closeBody.closeBody :: later)) = some _ :=
    enclosed?_of_nested rfl rfl rfl isNested
  rw [readContainer, body] at opens
  simp only [if_true, through_closeBody] at opens
  rw [read_of_step_found opens]
  rfl

/-- A class starts behind the keyword and its name, which is known from then on. -/
@[simp] theorem step_class (context : Context) (access : Access) (place : Place) (name : Name)
    (tokens : List Token) :
    step .outer context access (place.keyword "class") (name.token :: tokens) =
      readContainer { context with classNames := name.token.lexeme :: context.classNames } access
        (.ofClass name.token) .classBody tokens := by
  rw [step_keyword (by decide)]
  simp [readKeyword, Place.keyword, readNamed, name.isText]

/-- A namespace starts behind the keyword and its name. -/
@[simp] theorem step_namespace (context : Context) (access : Access) (place : Place) (name : Name)
    (tokens : List Token) :
    step .outer context access (place.keyword "namespace") (name.token :: tokens) =
      readContainer context access (.ofNamespace name.token) .outer tokens := by
  rw [step_keyword (by decide)]
  simp [readKeyword, Place.keyword, readNamed, name.isText]

/-- The declarations of a program, read up to tokens that declare nothing. -/
theorem read_program {classes : List String} {program : Program} {later : List Token}
    (silent : ∀ context, read .outer context {} later = (.nil, context))
    (fits : program.Fits classes) :
    read .outer { classNames := classes } {} (program.tokens ++ later) =
      (program.declarations, { classNames := program.classesAfter classes }) := by
  induction program generalizing classes later with
  | done => exact silent _
  | variableDecl declared next ih =>
    have still : Region.outer = .functionBody → quiet classes declared.declarator.ending := nofun
    rw [Program.tokens, List.append_assoc, read_variable still, ih silent fits]
    rfl
  | functionDecl place name routine next ih =>
    obtain ⟨fit, fitsNext⟩ := fits
    rw [Program.tokens, List.cons_append, List.cons_append, List.append_assoc,
      read_routine (step_function .outer nofun _ _ _ _ _) fit, ih silent fitsNext]
    rfl
  | classDecl place name openBody members closeBody next ih =>
    obtain ⟨fit, fitsNext⟩ := fits
    simp only [Program.tokens, List.cons_append, List.append_assoc]
    rw [read_container (step_class _ _ _ _ _) (nested_flatMap Member.nested_tokens),
      read_members fit, ih silent fitsNext]
    rfl
  | namespaceDecl place name openBody inner closeBody next innerIh ih =>
    obtain ⟨fit, fitsNext⟩ := fits
    -- The body of the namespace is a program of its own, up to the closing bracket.
    have ends (context : Context) :
        read .outer context {} [closeBody.closeBody] = (.nil, context) := read_closeBody _ _ _ _
    simp only [Program.tokens, List.cons_append, List.append_assoc]
    rw [read_container (step_namespace _ _ _ _ _) inner.nested_tokens, innerIh ends fit,
      ih silent fitsNext]
    rfl

/-! ## Outlines -/

/-- The brackets of what a function declares are all closed. -/
theorem Routine.closed_leaves (routine : Routine) :
    ∀ declaration ∈ routine.leaves, declaration.unclosed = none := by
  intro declaration mem
  rcases List.mem_append.mp mem with isParameter | isLocal
  · cases listed : routine.parameters with
    | none => simp [listed] at isParameter
    | some list =>
      rw [listed, Option.map_some, Option.getD_some] at isParameter
      rcases List.mem_cons.mp isParameter with rfl | isOther
      · rfl
      · obtain ⟨other, -, rfl⟩ := List.mem_map.mp isOther
        rfl
  · obtain ⟨piece, -, eq⟩ := List.mem_filterMap.mp isLocal
    cases piece with
    | variableDecl declared => cases eq; rfl
    | objectDecl directive className declarator => cases eq; rfl
    | other phrase => cases eq

/-- The brackets of a function are all closed if those of what stands beside it are. -/
theorem Routine.closed_declarations {routine : Routine} {access : Access} {name : Token}
    {beside : Forest Declaration}
    (h : ∀ declaration ∈ beside.toList, declaration.unclosed = none) :
    ∀ declaration ∈ (routine.declarations access name beside).toList,
      declaration.unclosed = none := by
  rw [Routine.declarations, Forest.toList, Forest.toList_withLeaves, Forest.toList,
    List.append_nil]
  exact List.forall_mem_cons.mpr ⟨rfl, List.forall_mem_append.mpr ⟨routine.closed_leaves, h⟩⟩

/-- The brackets of what a class declares are all closed. -/
theorem closed_memberDeclarations (visibility : Visibility) (members : List Member) :
    ∀ declaration ∈ (memberDeclarations visibility members).toList,
      declaration.unclosed = none := by
  induction members generalizing visibility with
  | nil => exact List.forall_mem_nil _
  | cons member members ih =>
    cases member with
    | modifier visibility place colon => exact ih visibility
    | variableDecl directive static declared =>
      exact List.forall_mem_cons.mpr ⟨rfl, ih visibility⟩
    | functionDecl static place name routine => exact Routine.closed_declarations (ih visibility)
    | constructorDecl static place routine => exact Routine.closed_declarations (ih visibility)

/-- The brackets of what a program declares are all closed. -/
theorem Program.closed_declarations (program : Program) :
    ∀ declaration ∈ program.declarations.toList, declaration.unclosed = none := by
  induction program with
  | done => exact List.forall_mem_nil _
  | variableDecl declared next ih => exact List.forall_mem_cons.mpr ⟨rfl, ih⟩
  | functionDecl place name routine next ih => exact Routine.closed_declarations ih
  | classDecl place name openBody members closeBody next ih =>
    refine List.forall_mem_cons.mpr ⟨rfl, List.forall_mem_append.mpr ⟨?_, ih⟩⟩
    exact closed_memberDeclarations _ _
  | namespaceDecl place name openBody inner closeBody next innerIh ih =>
    exact List.forall_mem_cons.mpr ⟨rfl, List.forall_mem_append.mpr ⟨innerIh, ih⟩⟩

/-- **Programs are read back**: the outline of the tokens of a program is the tree of the program,
and it has no errors. -/
theorem ofTokens_tokens (program : Program) (fits : program.Fits []) :
    Outline.ofTokens program.tokens = program.declarations.number [] 0 ∧
      (Outline.ofTokens program.tokens).errors = [] := by
  have silent (context : Context) : read .outer context {} [] = (.nil, context) := by
    rw [Reader.read]
  have whole := read_program silent fits
  rw [List.append_nil] at whole
  have outline : Outline.ofTokens program.tokens = program.declarations.number [] 0 := by
    rw [Outline.ofTokens, whole]
  refine ⟨outline, ?_⟩
  rw [outline, Outline.errors, List.filterMap_eq_nil_iff]
  intro symbol mem
  have listed : symbol.declaration ∈ program.declarations.toList := by
    rw [← Forest.map_declaration_number [] 0 program.declarations]
    exact List.mem_map_of_mem mem
  rw [Declaration.bracketError?, program.closed_declarations _ listed]
  rfl

/-- A word at a place. -/
def Place.word (place : Place) (text : String) : Token :=
  { kind := .text, lexeme := text, line := place.line, column := place.column }

/-- A program with a class, whose constructor has a parameter with a comma in its default value; a
namespace, whose function declares an object of the class and uses the name of the class in other
ways too; and a variable behind a directive. -/
def drawing : Program :=
  .classDecl ⟨1, 0⟩ ⟨Place.word ⟨1, 6⟩ "Point", rfl, by decide⟩ ⟨1, 12⟩
    [.modifier .publicAccess ⟨2, 2⟩ (some ⟨2, 8⟩),
      .variableDecl none (some ⟨3, 2⟩)
        { directive := none
          place := ⟨3, 9⟩
          declarator :=
            { name := ⟨Place.word ⟨3, 13⟩ "origin", rfl, by decide⟩
              typeName := none
              value := some (⟨3, 20⟩,
                { tokens := [Place.word ⟨3, 22⟩ "Point", Place.openList ⟨3, 27⟩,
                    Place.closeList ⟨3, 28⟩]
                  inert := by decide
                  isNested := rfl })
              stop := ⟨3, 29⟩ } },
      .constructorDecl none ⟨4, 2⟩
        { openList := ⟨4, 13⟩
          parameters := some
            { first :=
                { typeName := none
                  name := ⟨Place.word ⟨4, 14⟩ "x", rfl, by decide⟩
                  value := some (⟨4, 16⟩,
                    { tokens := [Place.word ⟨4, 18⟩ "max", Place.openList ⟨4, 21⟩,
                        Place.word ⟨4, 22⟩ "a", Place.comma ⟨4, 23⟩, Place.word ⟨4, 25⟩ "b",
                        Place.closeList ⟨4, 26⟩]
                      isNested := rfl }) }
              others := [] }
          closeList := ⟨4, 27⟩
          openBody := ⟨4, 29⟩
          body := []
          closeBody := ⟨5, 2⟩ }]
    ⟨6, 0⟩ <|
  .namespaceDecl ⟨7, 0⟩ ⟨Place.word ⟨7, 10⟩ "Shapes", rfl, by decide⟩ ⟨7, 17⟩
    (.functionDecl ⟨8, 2⟩ ⟨Place.word ⟨8, 11⟩ "draw", rfl, by decide⟩
      { openList := ⟨8, 15⟩
        parameters := none
        closeList := ⟨8, 16⟩
        openBody := ⟨8, 18⟩
        body :=
          [.objectDecl none ⟨Place.word ⟨9, 4⟩ "Point", rfl, by decide⟩
            { name := ⟨Place.word ⟨9, 10⟩ "copy", rfl, by decide⟩
              typeName := none
              value := none
              stop := ⟨9, 14⟩ },
          .other
            { tokens := [Place.keyword ⟨10, 4⟩ "return", Place.word ⟨10, 11⟩ "Point",
                Place.openList ⟨10, 16⟩, Place.closeList ⟨10, 17⟩, Place.semicolon ⟨10, 18⟩]
              inert := by decide
              isNested := rfl }]
        closeBody := ⟨11, 2⟩ } .done)
    ⟨12, 0⟩ <|
  .variableDecl
    { directive := some ⟨Place.word ⟨13, 0⟩ "#type=Point", "Point", by decide⟩
      place := ⟨14, 0⟩
      declarator :=
        { name := ⟨Place.word ⟨14, 4⟩ "start", rfl, by decide⟩
          typeName := none
          value := none
          stop := ⟨14, 9⟩ } }
    .done

/-- That program is read back. -/
theorem ofTokens_tokens_drawing :
    drawing.Fits [] ∧ Outline.ofTokens drawing.tokens = drawing.declarations.number [] 0 ∧
      (Outline.ofTokens drawing.tokens).errors = [] := by
  have fits : drawing.Fits [] := by decide
  exact ⟨fits, ofTokens_tokens drawing fits⟩

end ScriptLens.Grammar
