import ScriptLens.Proofs.Text.Cut

/-! # Bytes between positions
The offsets of two positions cut a stretch out of the UTF-8 form of a text. That stretch is the UTF-8
form of the characters between the positions.
Main statements:
* `size_utf8Encode`: the bytes of a text, counted.
* `before_of_line`, `before_append_of_line`: what lies before a position on a line that exists.
* `extract_offsetAt`: the bytes between the positions around some characters of a line. -/

namespace ScriptLens.Text

/-! ## Encoding -/

/-- The UTF-8 form of a text has as many bytes as are counted. -/
@[simp] theorem size_utf8Encode (text : List Char) : text.utf8Encode.size = byteSize text := by
  induction text with
  | nil => rfl
  | cons c text ih =>
    rw [List.utf8Encode_cons, ByteArray.size_append, ih, List.utf8Encode_singleton,
      List.size_toByteArray, String.length_utf8EncodeChar]
    rfl

/-- The bytes behind a beginning of a text, up to the end of what follows it, are those of what
follows it. -/
theorem extract_utf8Encode (before middle after : List Char) :
    (before ++ (middle ++ after)).utf8Encode.extract (byteSize before)
      (byteSize (before ++ middle)) = middle.utf8Encode := by
  rw [byteSize_append, ← size_utf8Encode before, ← size_utf8Encode middle, List.utf8Encode_append,
    List.utf8Encode_append]
  have inner : (middle.utf8Encode ++ after.utf8Encode).extract 0 middle.utf8Encode.size =
      middle.utf8Encode := ByteArray.extract_append_eq_left rfl
  rw [← Nat.add_zero before.utf8Encode.size, Nat.add_assoc, Nat.zero_add,
    ByteArray.extract_append_size_add, inner]

/-! ## Positions on a line -/

/-- Before a position on a line lie the lines before it, and the characters of the line up to it. -/
theorem before_of_line {text line : List Char} {number : Nat} (character : Nat)
    (h : (lines text)[number]? = some line) :
    before text ⟨number, character⟩ =
      ((lines text).take number).flatMap (· ++ ['\n']) ++ (content line).take character := by
  simp only [before, h]

/-- Where some characters stand in the content of a line, they are what the position behind them has
before it in addition. -/
theorem before_append_of_line {text line start middle rest : List Char} {number : Nat}
    (h : (lines text)[number]? = some line) (eq : content line = start ++ (middle ++ rest)) :
    before text ⟨number, start.length + middle.length⟩ =
      before text ⟨number, start.length⟩ ++ middle := by
  have upToStart : before text ⟨number, start.length⟩ =
      ((lines text).take number).flatMap (· ++ ['\n']) ++ start := by
    rw [before_of_line _ h, eq, List.take_left]
  rw [upToStart, before_of_line _ h, eq, ← List.length_append, ← List.append_assoc, List.take_left,
    List.append_assoc]

/-- Where some characters stand in the content of a line, the bytes between the positions before and
behind them are theirs. -/
theorem extract_offsetAt {text line start middle rest : List Char} {number : Nat}
    (h : (lines text)[number]? = some line) (eq : content line = start ++ (middle ++ rest)) :
    text.utf8Encode.extract (offsetAt text ⟨number, start.length⟩)
      (offsetAt text ⟨number, start.length + middle.length⟩) = middle.utf8Encode := by
  have upToEnd := before_append_of_line h eq
  -- The end of the characters is a beginning of the text, so something follows it.
  obtain ⟨after, whole⟩ := before_isPrefix text ⟨number, start.length + middle.length⟩
  rw [upToEnd, List.append_assoc] at whole
  rw [offsetAt_eq, offsetAt_eq, upToEnd]
  have extracted := extract_utf8Encode (before text ⟨number, start.length⟩) middle after
  rwa [whole] at extracted

end ScriptLens.Text
