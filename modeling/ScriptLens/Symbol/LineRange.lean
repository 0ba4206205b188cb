/-! # Line ranges
Main definitions:
* `LineRange`: an inclusive range of lines, which holds at least one line.
* `LineRange.between`, `LineRange.single`: ranges from their ends.
* `LineRange.contains`, `LineRange.encloses`: lines and ranges inside a range. -/

namespace ScriptLens

/-- An inclusive range of source lines. -/
structure LineRange where
  /-- The first line of the range. -/
  first : Nat
  /-- The last line of the range. -/
  last : Nat
  /-- A range holds at least its first line. -/
  first_le_last : first ≤ last
  deriving DecidableEq, Repr

namespace LineRange

/-- The range from one line to another; just the first line if the other one lies before it. -/
def between (first last : Nat) : LineRange where
  first := first
  last := max first last
  first_le_last := Nat.le_max_left first last

/-- The range of one line. -/
def single (line : Nat) : LineRange :=
  between line line

/-- Whether a line lies in a range. -/
def contains (range : LineRange) (line : Nat) : Bool :=
  range.first ≤ line && line ≤ range.last

/-- Whether another range lies entirely in a range. -/
def encloses (range other : LineRange) : Bool :=
  range.first ≤ other.first && other.last ≤ range.last

end LineRange

end ScriptLens
