/-! # White space
The characters that separate words, and the words and margins they leave in a text. A text is
handled as its list of characters.
Main definitions:
* `isBlank`: the characters with the Unicode property *White_Space*.
* `indent`, `trim`, `firstWord?`: the margin, the middle and the first word of a text. -/

namespace ScriptLens.Text

/-- The code points with the property *White_Space*, as inclusive ranges in increasing order. -/
def blankRanges : List (Nat × Nat) :=
  [(0x09, 0x0D), (0x20, 0x20), (0x85, 0x85), (0xA0, 0xA0), (0x1680, 0x1680), (0x2000, 0x200A),
    (0x2028, 0x2029), (0x202F, 0x202F), (0x205F, 0x205F), (0x3000, 0x3000)]

/-- Whether a character is white space. -/
def isBlank (c : Char) : Bool :=
  blankRanges.any fun (low, high) => low ≤ c.toNat && c.toNat ≤ high

/-- The number of blank characters a text starts with. -/
def indent (text : List Char) : Nat :=
  (text.takeWhile isBlank).length

/-- A text without the blank characters at its start. -/
def trimStart (text : List Char) : List Char :=
  text.dropWhile isBlank

/-- A text without the blank characters at its end. -/
def trimEnd (text : List Char) : List Char :=
  (text.reverse.dropWhile isBlank).reverse

/-- A text without the blank characters at its start and at its end. -/
def trim (text : List Char) : List Char :=
  trimEnd (trimStart text)

/-- The first run of characters that are not blank, if there is one. -/
def firstWord? (text : List Char) : Option (List Char) :=
  match (trimStart text).takeWhile (!isBlank ·) with
  | [] => none
  | word => some word

end ScriptLens.Text
