import ScriptLens.Token.Kind

/-! # Vocabulary
The fixed tables of the language and the look-ups in them.
Main definitions:
* `keywords`, `keyword?`, `keywordsStarting`: the reserved words.
* `marks`, `mark?` and `pairs`, `pair?`: the operators of one and of two characters.
* `escapes`, `escape?`: what a character after a backslash stands for.
* `isDataType`: the names of built-in types. -/

namespace ScriptLens.Vocabulary

open Token (Kind)

/-! ## Words -/

/-- The reserved words with their kinds, in the order in which they are offered. -/
def keywords : List (String × Kind) :=
  [("null", .null), ("if", .keyword), ("in", .keyword), ("then", .keyword), ("else", .keyword),
    ("for", .keyword), ("do", .keyword), ("while", .keyword), ("break", .keyword),
    ("continue", .keyword), ("return", .keyword), ("try", .keyword), ("catch", .keyword),
    ("throw", .keyword), ("from", .keyword), ("use", .keyword), ("as", .keyword),
    ("var", .keyword), ("function", .keyword), ("class", .keyword), ("namespace", .keyword),
    ("constructor", .keyword), ("public", .keyword), ("protected", .keyword),
    ("private", .keyword), ("static", .keyword), ("and", .keyword), ("or", .keyword),
    ("not", .keyword), ("xor", .keyword), ("true", .keyword), ("false", .keyword),
    ("this", .keyword), ("super", .keyword)]

/-- The kind of a reserved word. -/
def keyword? (word : String) : Option Kind :=
  keywords.lookup word

/-- The reserved words that start with the given characters, with their kinds. -/
def keywordsStarting (start : String) : List (String × Kind) :=
  keywords.filter fun (word, _) => start.toList.isPrefixOf word.toList

/-- The names of built-in types. -/
def dataTypes : List String :=
  ["var"]

/-- Whether a word names a built-in type. -/
def isDataType (word : String) : Bool :=
  dataTypes.contains word

/-! ## Operators -/

/-- The operators and punctuation marks of one character. -/
def marks : List (Char × Kind) :=
  [('+', .plus), ('-', .minus), ('*', .asterisk), ('/', .slash), ('%', .percent),
    ('&', .ampersand), ('|', .bar), ('~', .tilde), ('^', .caret), ('(', .parenthesisOpen),
    (')', .parenthesisClose), ('=', .equalSign), ('[', .bracketOpen), (']', .bracketClose),
    ('{', .braceOpen), ('}', .braceClose), ('.', .dot), (':', .colon), (',', .comma),
    ('<', .lessThan), ('>', .greaterThan), ('"', .doubleQuote), ('\x27', .quote),
    ('!', .exclamation), (';', .semicolon)]

/-- The kind of a mark. -/
def mark? (c : Char) : Option Kind :=
  marks.lookup c

/-- The operators of two characters. -/
def pairs : List ((Char × Char) × Kind) :=
  [(('=', '='), .equalTo), (('!', '='), .notEqual), (('<', '='), .lessEqual),
    (('>', '='), .greaterEqual), (('%', '='), .percentEqual), (('/', '='), .slashEqual),
    (('*', '='), .asteriskEqual), (('-', '='), .minusEqual), (('+', '='), .plusEqual),
    (('&', '='), .ampersandEqual), (('|', '='), .barEqual), (('^', '='), .caretEqual),
    (('&', '&'), .doubleAmpersand), (('|', '|'), .doubleBar), (('-', '-'), .doubleMinus),
    (('+', '+'), .doublePlus), (('<', '<'), .shiftLeft), (('>', '>'), .shiftRight)]

/-- The kind of the operator spelled by two characters. -/
def pair? (first second : Char) : Option Kind :=
  pairs.lookup (first, second)

/-! ## Escapes -/

/-- The characters that may follow a backslash, and what each pair stands for. -/
def escapes : List (Char × Char) :=
  [('a', '\x07'), ('b', '\x08'), ('f', '\x0c'), ('n', '\n'), ('r', '\r'), ('t', '\t'),
    ('v', '\x0b'), ('\\', '\\'), ('\x27', '\x27'), ('"', '"'), ('?', '?'), ('0', '\x00')]

/-- The character that a backslash followed by `c` stands for. -/
def escape? (c : Char) : Option Char :=
  escapes.lookup c

end ScriptLens.Vocabulary
