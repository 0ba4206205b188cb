import ScriptLens.Editor.Hover
import ScriptLens.Proofs.Text.Bytes
import ScriptLens.Proofs.Token.Caret

/-! # Tokens and their bytes
Columns of tokens and positions of an editor count the same characters: where a line has no
backslashes, the range of a token cuts the lexeme of the token out of the text.
Main statements:
* `exists_around_of_lineTokens`, `exists_around_of_mem_tokenize`: the lexeme of a token stands in its
  line at its column.
* `bytesIn_range`: the bytes in the range of a token are those of its lexeme.
* `bytesIn_range_and_card`: so are those in the range of a hover card. -/

namespace ScriptLens

/-! ## Lexemes in their lines -/

/-- What is left of a text without its margins stands behind the first margin. -/
theorem Text.eq_append_trim (text : List Char) :
    ∃ margin, text = text.takeWhile isBlank ++ (trim text ++ margin) := by
  refine ⟨((trimStart text).reverse.takeWhile isBlank).reverse, ?_⟩
  have tail : trim text ++ ((trimStart text).reverse.takeWhile isBlank).reverse = trimStart text := by
    rw [trim, trimEnd, ← List.reverse_append, List.takeWhile_append_dropWhile, List.reverse_reverse]
  rw [tail, trimStart, List.takeWhile_append_dropWhile]

/-- In a line without backslashes the lexeme of a token stands at the column of the token. -/
theorem exists_around_of_lineTokens {line : Nat} {text : List Char} {tokens : List Token}
    (h : lineTokens line text = .ok tokens) (free : '\\' ∉ text) {token : Token}
    (listed : token ∈ tokens) :
    ∃ start rest, text = start ++ (token.lexeme.toList ++ rest) ∧ start.length = token.column := by
  by_cases code : isCode text
  · rw [lineTokens_of_isCode line code] at h
    obtain ⟨tiles, rfl, tiled⟩ := exists_tiles_of_codeTokens h
    obtain ⟨tile, listedTile, rfl⟩ := List.mem_map.mp listed
    have bounds := tiled.inside tile listedTile
    have freeSource : '\\' ∉ tile.source text := fun found =>
      free (List.mem_of_mem_take (List.mem_of_mem_drop found))
    refine ⟨text.take tile.token.column, text.drop tile.stop, ?_, ?_⟩
    · rw [(tiled.plain tile listedTile freeSource).1]
      exact (Tile.append_source_append (by omega) bounds.2.2).symm
    · exact List.length_take_of_le (by omega)
  · -- A directive is a whole line without its margins.
    rcases tokens_of_not_isCode h code with rfl | ⟨rfl, -⟩
    · exact absurd listed List.not_mem_nil
    · rw [List.mem_singleton.mp listed]
      obtain ⟨margin, around⟩ := Text.eq_append_trim text
      exact ⟨text.takeWhile Text.isBlank, margin, by rwa [String.toList_ofList], rfl⟩

/-! ## Ranges -/

/-- The bytes of a text in a range. -/
def bytesIn (text : String) (range : Text.TextRange) : ByteArray :=
  text.toUTF8.extract (Text.offsetAt text.toList range.start) (Text.offsetAt text.toList range.stop)

/-- The line of a text with a given number, counted from zero. -/
def lineAt (text : String) (number : Nat) : List Char :=
  (Text.lines text.toList).getD number []

/-- The lexeme of a token stands in the line of the token, at its column, if that line has no
backslash. -/
theorem exists_around_of_mem_tokenize {text : String} {token : Token}
    (listed : token ∈ tokenize text) (free : '\\' ∉ lineAt text (token.line - 1)) :
    ∃ line start rest, (Text.lines text.toList)[token.line - 1]? = some line ∧
      Text.content line = start ++ (token.lexeme.toList ++ rest) ∧ start.length = token.column := by
  obtain ⟨number, line, tokens, found, read, mem, onLine⟩ := exists_line_of_mem_tokenize listed
  have place : token.line - 1 = number := by omega
  have freeContent : '\\' ∉ Text.content line := by
    rw [lineAt, place, List.getD_eq_getElem?_getD, found] at free
    exact fun inContent => free ((Text.content_isPrefix line).subset inContent)
  obtain ⟨start, rest, around, width⟩ := exists_around_of_lineTokens read freeContent mem
  exact ⟨line, start, rest, place ▸ found, around, width⟩

/-- The range of a token cuts out its lexeme. -/
theorem bytesIn_range {text : String} {token : Token} (listed : token ∈ tokenize text)
    (free : '\\' ∉ lineAt text (token.line - 1)) :
    bytesIn text token.range = token.lexeme.toUTF8 := by
  obtain ⟨line, start, rest, found, around, width⟩ := exists_around_of_mem_tokenize listed free
  have extracted := Text.extract_offsetAt found around
  rw [width, String.utf8Encode_toList, String.utf8Encode_toList, ← token.endColumn_eq] at extracted
  rw [bytesIn, Token.range, String.toUTF8_eq_toByteArray, String.toUTF8_eq_toByteArray]
  exact extracted

/-! ## Hover cards -/

/-- A cursor at a position stands on a token of the document that covers the position. -/
theorem Document.current_of_cursorAt? {document : Document} {position : Text.Position}
    {cursor : Cursor} (h : document.cursorAt? position = some cursor) :
    cursor.current ∈ document.tokens ∧
      cursor.current.covers (position.line + 1) position.character := by
  obtain ⟨index, found, rfl⟩ := Option.map_eq_some_iff.mp h
  obtain ⟨token, listed, covers⟩ := Token.exists_of_indexAt? found
  have current : Cursor.current { tokens := document.tokens, position := index } = token := by
    rw [Cursor.current, Cursor.get, listed]
    rfl
  rw [current]
  exact ⟨List.mem_of_getElem? listed, covers⟩

/-- A hover card is about the token under the cursor. -/
theorem Document.range_of_hover? {document : Document} {position : Text.Position} {card : HoverCard}
    (h : document.hover? position = some card) :
    ∃ cursor, document.cursorAt? position = some cursor ∧ card.range = cursor.current.range := by
  obtain ⟨cursor, found, described⟩ := Option.bind_eq_some_iff.mp h
  obtain ⟨summary, -, rfl⟩ := Option.map_eq_some_iff.mp described
  exact ⟨cursor, found, rfl⟩

/-- **Ranges cut out lexemes**: on a line without backslashes the bytes in the range of a token are
those of its lexeme, and the bytes in the range of a hover card are those of the lexeme of the token
that the pointer is on. -/
theorem bytesIn_range_and_card (text : String) :
    (∀ token ∈ tokenize text, '\\' ∉ lineAt text (token.line - 1) →
      bytesIn text token.range = token.lexeme.toUTF8) ∧
    ∀ position card, (Document.parse text).hover? position = some card →
      '\\' ∉ lineAt text position.line →
      ∃ cursor, (Document.parse text).cursorAt? position = some cursor ∧
        cursor.current ∈ tokenize text ∧
        cursor.current.covers (position.line + 1) position.character ∧
        card.range = cursor.current.range ∧
        bytesIn text card.range = cursor.current.lexeme.toUTF8 := by
  refine ⟨fun token listed free => bytesIn_range listed free, fun position card shown free => ?_⟩
  obtain ⟨cursor, found, same⟩ := Document.range_of_hover? shown
  obtain ⟨listed, covers⟩ := Document.current_of_cursorAt? found
  have onLine : cursor.current.line - 1 = position.line := by
    simp only [Token.covers, Bool.and_eq_true, decide_eq_true_eq] at covers
    omega
  refine ⟨cursor, found, listed, covers, same, ?_⟩
  rw [same]
  exact bytesIn_range listed (onLine ▸ free)

/-- A directive with a margin and a variable, on lines that end differently. -/
def accentedText : String :=
  "\u00a0 #type=Gr\u00f6\u00dfe \r\nvar h\u00f6he = a<<2;\n"

/-- The directive of `accentedText`. -/
def accentedDirective : Token :=
  { kind := .text, lexeme := "#type=Gr\u00f6\u00dfe", line := 1, column := 2 }

/-- The tokens of `accentedText`. -/
def accentedTokens : List Token :=
  [accentedDirective, ⟨.keyword, "var", 2, 0⟩, ⟨.text, "h\u00f6he", 2, 4⟩, ⟨.equalSign, "=", 2, 9⟩,
    ⟨.text, "a", 2, 11⟩, ⟨.shiftLeft, "<<", 2, 12⟩, ⟨.number, "2", 2, 14⟩, ⟨.semicolon, ";", 2, 15⟩]

/-- The directive of `accentedText` and the name on the line behind it are cut out as they stand. -/
theorem bytesIn_accentedText :
    (accentedDirective ∈ tokenize accentedText ∧
      '\\' ∉ lineAt accentedText (accentedDirective.line - 1) ∧
      bytesIn accentedText accentedDirective.range = accentedDirective.lexeme.toUTF8) ∧
    ∃ card cursor, (Document.parse accentedText).hover? ⟨1, 5⟩ = some card ∧
      '\\' ∉ lineAt accentedText 1 ∧
      (Document.parse accentedText).cursorAt? ⟨1, 5⟩ = some cursor ∧
      bytesIn accentedText card.range = cursor.current.lexeme.toUTF8 := by
  have listed : accentedDirective ∈ tokenize accentedText := by decide +kernel
  have free : '\\' ∉ lineAt accentedText (accentedDirective.line - 1) := by decide +kernel
  have freeBehind : '\\' ∉ lineAt accentedText 1 := by decide +kernel
  have read : tokenize accentedText = accentedTokens := by decide +kernel
  have shown : (Document.parse accentedText).hover? ⟨1, 5⟩ =
      some { text := "h\u00f6he (Gr\u00f6\u00dfe)\n\nGr\u00f6\u00dfe h\u00f6he"
             range := { start := ⟨1, 4⟩, stop := ⟨1, 8⟩ } } := by
    rw [Document.parse, read]
    decide +kernel
  obtain ⟨cursor, found, -, -, -, cut⟩ :=
    (bytesIn_range_and_card accentedText).2 ⟨1, 5⟩ _ shown freeBehind
  exact ⟨⟨listed, free, (bytesIn_range_and_card accentedText).1 _ listed free⟩,
    _, cursor, shown, freeBehind, found, cut⟩

end ScriptLens
