import ScriptLens.Text.Lines

/-! # Positions in a text
An editor names a place by line and character, both counted from zero, while a text is cut at byte
offsets of its UTF-8 form. A position that lies past the end of its line means the end of the line,
and one on a line that does not exist means the end of the text.
Main definitions:
* `Position`, `TextRange`: a place and a stretch of a text.
* `offsetAt`, `positionAt`: the bytes before a position, and the position after some bytes.
* `takeBytes`, `dropBytes`: a text cut at an offset; `takeBytes_append_dropBytes` says that nothing is
  lost.
* `splice`: a text with a stretch replaced. -/

namespace ScriptLens.Text

/-- A place in a text as an editor names it. -/
structure Position where
  /-- The number of lines before it. -/
  line : Nat
  /-- The number of characters before it on its line. -/
  character : Nat
  deriving DecidableEq, Repr

/-- A stretch of a text between two places. -/
structure TextRange where
  /-- Where the stretch starts. -/
  start : Position
  /-- Where the stretch ends. -/
  stop : Position
  deriving DecidableEq, Repr

/-! ## Offsets -/

/-- The number of bytes of a text in UTF-8. -/
def byteSize : List Char → Nat
  | [] => 0
  | c :: rest => c.utf8Size + byteSize rest

/-- The number of bytes that some lines take up, each with its line feed after it. -/
def extent : List (List Char) → Nat
  | [] => 0
  | line :: later => byteSize line + 1 + extent later

/-- The number of bytes before a position. -/
def offsetAt (text : List Char) (position : Position) : Nat :=
  match (lines text)[position.line]? with
  | none => byteSize text
  | some line =>
    extent ((lines text).take position.line) + byteSize ((content line).take position.character)

/-! ## Cuts -/

/-- The longest beginning of a text that has at most `bytes` bytes. -/
def takeBytes (bytes : Nat) : List Char → List Char
  | [] => []
  | c :: rest => if c.utf8Size ≤ bytes then c :: takeBytes (bytes - c.utf8Size) rest else []

/-- What follows the longest beginning of a text that has at most `bytes` bytes. -/
def dropBytes (bytes : Nat) : List Char → List Char
  | [] => []
  | c :: rest => if c.utf8Size ≤ bytes then dropBytes (bytes - c.utf8Size) rest else c :: rest

/-- The two parts of a cut make up the text. -/
@[simp] theorem takeBytes_append_dropBytes (bytes : Nat) (text : List Char) :
    takeBytes bytes text ++ dropBytes bytes text = text := by
  induction text generalizing bytes with
  | nil => rfl
  | cons c rest ih =>
    by_cases h : c.utf8Size ≤ bytes
    · simp [takeBytes, dropBytes, h, ih]
    · simp [takeBytes, dropBytes, h]

/-- The position at the end of a text. -/
def endPosition (text : List Char) : Position where
  line := text.count '\n'
  character := (text.reverse.takeWhile (· ≠ '\n')).length

/-- The position after a number of bytes. Inside a character it is the position before that
character, and past the end of the text the position at its end. -/
def positionAt (text : List Char) (offset : Nat) : Position :=
  endPosition (takeBytes offset text)

/-- A text with a stretch replaced by other characters. A stretch that ends before it starts is
empty, so that the characters are inserted at its start. -/
def splice (text : List Char) (range : TextRange) (replacement : List Char) : List Char :=
  let start := offsetAt text range.start
  let stop := max start (offsetAt text range.stop)
  takeBytes start text ++ replacement ++ dropBytes stop text

end ScriptLens.Text
