import ScriptLens.Proofs.Symbol.NameTokens
import ScriptLens.Proofs.Token.Padding

/-! # Changes of layout
Two lists of tokens that differ in nothing but the places of the tokens have outlines that differ in
nothing but the places of the symbols, as long as the lines keep their order. In particular blank
lines and comments between the lines of a source only change the numbers of its lines.
Main definitions:
* `Token.Relaid`: a token in another place, with its line changed by a given function.
* `Entry.relaid`, `BracketError.relaid`: what becomes of the symbols and the errors.
Main statements:
* `ofTokens_of_relaid`, `errors_of_relaid`: the outline and the errors of tokens in other places.
* `exists_tokenize_padded`: the tokens of a source with padding.
* `outline_layout`: both changes of layout. -/

namespace ScriptLens

/-! ## Tokens in other places -/

/-- The same token in another place. Its line is the one that `f` gives, its column may be any. -/
structure Token.Relaid (f : Nat →o Nat) (token other : Token) : Prop where
  /-- The kind stays. -/
  kind : other.kind = token.kind
  /-- The text stays. -/
  lexeme : other.lexeme = token.lexeme
  /-- The line changes as all lines do. -/
  line : other.line = f token.line

/-- An entry on the lines that `f` gives, in the column that the new tokens have at the index of its
name. -/
def Entry.relaid (f : Nat →o Nat) (tokens relaid : List Token) (entry : Entry) : Entry :=
  { entry with
    declaration := { entry.declaration with
      line := f entry.declaration.line
      column := (relaid[nameIndex tokens entry.id]?.map (·.column)).getD 0
      lines := entry.declaration.lines.map f } }

/-- An error on the line that `f` gives. -/
def BracketError.relaid (f : Nat →o Nat) (error : BracketError) : BracketError :=
  { error with line := f error.line }

section

variable {f : Nat →o Nat} {tokens relaid : List Token}

/-- Tokens in other places come from the indexed tokens. -/
theorem map_moved_indexed_of_relaid (h : List.Forall₂ (Token.Relaid f) tokens relaid) :
    (indexed tokens).map (·.moved ⟨f, (columnsOf relaid).column⟩) = relaid := by
  refine List.ext_getElem (by simp [indexed, h.length_eq]) fun index within other => ?_
  have bound : index < tokens.length := by simpa [indexed] using within
  have same : Token.Relaid f tokens[index] relaid[index] := h.get bound other
  simp only [indexed, List.getElem_map, List.getElem_mapIdx, Token.moved, columnsOf,
    List.getElem?_eq_getElem other, Option.map_some, Option.getD_some, ← same.kind, ← same.lexeme,
    ← same.line]

/-- **The outline of tokens in other places.** -/
theorem ofTokens_of_relaid (h : List.Forall₂ (Token.Relaid f) tokens relaid) :
    Outline.ofTokens relaid =
      (Outline.ofTokens tokens).map (Symbol.mapEntries (·.relaid f tokens relaid)) := by
  have moved := ofTokens_moved ⟨f, (columnsOf relaid).column⟩ (indexed tokens)
  rw [map_moved_indexed_of_relaid h] at moved
  rw [moved, ofTokens_eq_map_indexed tokens, Forest.map_map]
  simp only [Symbol.mapEntries_mapEntries]
  -- Both outlines are that of the indexed tokens in other places, so it is enough to look there.
  refine Forest.map_mapEntries_congr fun symbol found => ?_
  have index : nameIndex tokens symbol.id = symbol.declaration.column := nameIndex_id found
  simp only [Entry.relaid, Entry.moved, Declaration.moved, index]
  rfl

/-- A declaration on another line has the same bracket error on that line. -/
theorem bracketError?_relaid (f : Nat →o Nat) (declaration : Declaration) (column : Nat)
    (lines : LineRange) :
    Declaration.bracketError? { declaration with line := f declaration.line, column, lines } =
      declaration.bracketError?.map (·.relaid f) := by
  unfold Declaration.bracketError?
  cases declaration.unclosed <;> rfl

/-- The errors of an outline whose entries are replaced by others with the same errors elsewhere. -/
theorem errors_mapEntries {outline : Outline} {replace : Entry → Entry}
    (h : ∀ entry, (replace entry).declaration.bracketError? =
      entry.declaration.bracketError?.map (·.relaid f)) :
    Outline.errors (outline.map (Symbol.mapEntries replace)) = outline.errors.map (·.relaid f) := by
  rw [Outline.errors, Outline.errors, Outline.symbols, Forest.toList_map, List.filterMap_map,
    List.map_filterMap]
  exact List.filterMap_congr fun symbol _ => h symbol.toEntry

/-- The errors of tokens in other places. -/
theorem errors_of_relaid (h : List.Forall₂ (Token.Relaid f) tokens relaid) :
    (Outline.ofTokens relaid).errors = (Outline.ofTokens tokens).errors.map (·.relaid f) := by
  rw [ofTokens_of_relaid h]
  exact errors_mapEntries fun entry => bracketError?_relaid f entry.declaration _ _

end

/-! ## Sources with padding -/

/-- **The tokens of a source with padding** are those of the source on other lines, and these lines
are those of the source. -/
theorem exists_tokenize_padded {source padded : String}
    (h : Text.Padded (Text.lines source.toList) (Text.lines padded.toList)) :
    ∃ f : Nat →o Nat, StrictMono f ∧
      (∀ index line, (Text.lines source.toList)[index]? = some line →
        ∃ place, f (index + 1) = place + 1 ∧ (Text.lines padded.toList)[place]? = some line) ∧
      tokenize padded = (tokenize source).map (·.moved ⟨f, id⟩) := by
  obtain ⟨f, mono, places, moved⟩ := h.exists_tokens
  -- Lines are numbered from one, and no line has the number zero.
  have strict := strictMono_shiftBehind mono
  refine ⟨⟨shiftBehind f, strict.monotone⟩, strict, fun index line found => ?_, ?_⟩
  · exact ⟨f index, rfl, places index line found⟩
  · rw [tokenize_eq_ofLines, tokenize_eq_ofLines, moved 1 1]
    refine List.map_congr_left fun token listed => ?_
    obtain ⟨index, number⟩ : ∃ index, token.line = index + 1 :=
      Nat.exists_eq_add_of_le' (Yield.tokens.line_bounds_of_mem_ofLines listed).1
    simp only [Token.onLine, Token.moved, number, Nat.add_sub_cancel]
    rfl

/-! ## Outlines -/

/-- **Layout does not matter.** Tokens in other places have the same outline in other places: lines
and ends of line ranges change as the lines of the tokens do, each symbol has the column that its
name has among the new tokens, the errors are on the new lines, and nothing else changes. So padding
in a source changes the numbers of lines and nothing else. -/
theorem outline_layout :
    (∀ (f : Nat →o Nat) (tokens relaid : List Token),
      List.Forall₂ (Token.Relaid f) tokens relaid →
      Outline.ofTokens relaid =
        (Outline.ofTokens tokens).map (Symbol.mapEntries (·.relaid f tokens relaid)) ∧
      (Outline.ofTokens relaid).errors = (Outline.ofTokens tokens).errors.map (·.relaid f) ∧
      ∀ symbol ∈ (Outline.ofTokens tokens).symbols, ∃ name other,
        tokens[nameIndex tokens symbol.id]? = some name ∧ symbol.declaration.NamedBy name ∧
        relaid[nameIndex tokens symbol.id]? = some other) ∧
    ∀ source padded : String,
      Text.Padded (Text.lines source.toList) (Text.lines padded.toList) →
      ∃ f : Nat →o Nat, StrictMono f ∧
        (∀ index line, (Text.lines source.toList)[index]? = some line →
          ∃ place, f (index + 1) = place + 1 ∧ (Text.lines padded.toList)[place]? = some line) ∧
        Outline.ofTokens (tokenize padded) =
          (Outline.ofTokens (tokenize source)).map (Symbol.mapEntries (·.moved ⟨f, id⟩)) ∧
        (Outline.ofTokens (tokenize padded)).errors =
          (Outline.ofTokens (tokenize source)).errors.map (·.relaid f) := by
  constructor
  · intro f tokens relaid h
    refine ⟨ofTokens_of_relaid h, errors_of_relaid h, fun symbol found => ?_⟩
    obtain ⟨name, here, named⟩ := exists_name_symbol found
    obtain ⟨bound, -⟩ := List.getElem?_eq_some_iff.mp here
    rw [h.length_eq] at bound
    exact ⟨name, relaid[nameIndex tokens symbol.id], here, named, List.getElem?_eq_getElem bound⟩
  · intro source padded h
    obtain ⟨f, strict, places, moved⟩ := exists_tokenize_padded h
    refine ⟨f, strict, places, ?_, ?_⟩
    · rw [moved, ofTokens_moved]
    · rw [moved, ofTokens_moved]
      exact errors_mapEntries fun entry => bracketError?_relaid f entry.declaration _ _

/-- A class with a variable, then a function whose parameter list never closes. -/
def narrowTokens : List Token :=
  [⟨.keyword, "class", 1, 0⟩, ⟨.text, "A", 1, 6⟩, ⟨.braceOpen, "\x7b", 1, 8⟩,
    ⟨.keyword, "var", 2, 2⟩, ⟨.text, "x", 2, 6⟩, ⟨.semicolon, ";", 2, 7⟩,
    ⟨.braceClose, "\x7d", 3, 0⟩, ⟨.keyword, "function", 3, 2⟩, ⟨.text, "f", 3, 11⟩,
    ⟨.parenthesisOpen, "(", 3, 12⟩]

/-- The same tokens on every other line, in other columns. -/
def wideTokens : List Token :=
  [⟨.keyword, "class", 2, 4⟩, ⟨.text, "A", 2, 14⟩, ⟨.braceOpen, "\x7b", 2, 20⟩,
    ⟨.keyword, "var", 4, 0⟩, ⟨.text, "x", 4, 4⟩, ⟨.semicolon, ";", 4, 8⟩,
    ⟨.braceClose, "\x7d", 6, 4⟩, ⟨.keyword, "function", 6, 6⟩, ⟨.text, "f", 6, 30⟩,
    ⟨.parenthesisOpen, "(", 6, 40⟩]

/-- The error of the function follows it to its new line, and a comment between two variables
renumbers the second one. -/
theorem outline_layout_wideTokens :
    ∃ f : Nat →o Nat, List.Forall₂ (Token.Relaid f) narrowTokens wideTokens ∧
      (Outline.ofTokens wideTokens).errors =
        [{ scope := "function", name := "f", line := 6, opening := .parenthesisOpen }] ∧
      ∃ g : Nat →o Nat, g 2 = 3 ∧
        Outline.ofTokens (tokenize "var x;\n # note\nvar y;") =
          (Outline.ofTokens (tokenize "var x;\nvar y;")).map
            (Symbol.mapEntries (·.moved ⟨g, id⟩)) := by
  let double : Nat →o Nat := ⟨(2 * ·), fun _ _ less => Nat.mul_le_mul_left 2 less⟩
  have relaid : List.Forall₂ (Token.Relaid double) narrowTokens wideTokens := by
    repeat' constructor
  have narrow : (Outline.ofTokens narrowTokens).errors =
      [{ scope := "function", name := "f", line := 3, opening := .parenthesisOpen }] := by
    decide +kernel
  obtain ⟨-, errors, -⟩ := outline_layout.1 double narrowTokens wideTokens relaid
  rw [narrow] at errors
  have plain : Text.lines "var x;\nvar y;".toList = ["var x;".toList, "var y;".toList] := by
    decide +kernel
  have commented : Text.lines "var x;\n # note\nvar y;".toList =
      ["var x;".toList, " # note".toList, "var y;".toList] := by decide +kernel
  have note : Text.IsPadding " # note".toList := by
    have blank : Text.isBlank ' ' := by decide
    refine Or.inr ⟨⟨[' '], " note".toList, rfl, List.forall_mem_singleton.mpr blank⟩, ?_⟩
    rw [← Text.occurs_iff]
    decide +kernel
  have inserted : Text.Padded (Text.lines "var x;\nvar y;".toList)
      (Text.lines "var x;\n # note\nvar y;".toList) := by
    rw [plain, commented]
    exact .keep _ (.insert note (.keep _ .nil))
  obtain ⟨g, -, places, renumbered, -⟩ := outline_layout.2 _ _ inserted
  obtain ⟨place, second, there⟩ := places 1 "var y;".toList (by rw [plain]; rfl)
  have last : place = 2 := by
    rw [commented] at there
    rcases place with - | - | - | place
    · exact absurd there (by decide)
    · exact absurd there (by decide)
    · rfl
    · exact absurd there (by simp)
  exact ⟨double, relaid, errors, g, by rw [second, last], renumbered⟩

end ScriptLens
