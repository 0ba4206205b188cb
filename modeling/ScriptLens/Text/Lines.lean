/-! # Lines
A text is cut into lines at every line feed. The line feed belongs to no line, and a carriage return
right before it, or at the end of the text, does not belong to the line's content.
Main definitions:
* `lines`: the lines of a text; there is always at least one.
* `content`: a line without its carriage return. -/

namespace ScriptLens.Text

/-- The lines of a text: the parts between its line feeds. -/
def lines (text : List Char) : List (List Char) :=
  text.splitOn '\n'

/-- A line without the one carriage return that may end it. -/
def content (line : List Char) : List Char :=
  if line.getLast? = some '\r' then line.dropLast else line

/-- Two texts joined by a line feed have the lines of both. -/
@[simp] theorem lines_append_cons (before after : List Char) :
    lines (before ++ '\n' :: after) = lines before ++ lines after := by
  simp [lines, List.splitOn_eq_splitOnP, List.splitOnP_append_cons]

/-- A text without line feeds is its only line. -/
@[simp] theorem lines_of_notMem {text : List Char} (h : '\n' ∉ text) : lines text = [text] := by
  rw [lines, List.splitOn_eq_splitOnP, List.splitOnP_eq_singleton]
  intro c hc
  simpa using fun hn : c = '\n' => h (hn ▸ hc)

end ScriptLens.Text
