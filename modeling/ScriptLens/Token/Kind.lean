/-! # Token kinds
Main definitions:
* `Token.Kind`: what a token is.
* `Token.Kind.name`: the label a kind is shown by.
* `Token.Kind.combines`: the one-character kinds that may start a two-character operator. -/

namespace ScriptLens.Token

/-- What a token is. -/
inductive Kind where
  /-- The kind of the token that stands for "no token". -/
  | invalid
  /-- An integer literal: decimal, hexadecimal or binary. -/
  | number
  /-- A reserved word other than `null`. -/
  | keyword
  /-- An identifier, the content of a string, or anything else without a class of its own. -/
  | text
  /-- The literal `null`. -/
  | null
  /-- The mark `.`. -/
  | dot
  /-- The mark `:`. -/
  | colon
  /-- The mark `,`. -/
  | comma
  /-- The mark `(`. -/
  | parenthesisOpen
  /-- The mark `)`. -/
  | parenthesisClose
  /-- The mark `[`. -/
  | bracketOpen
  /-- The mark `]`. -/
  | bracketClose
  /-- The mark `{`. -/
  | braceOpen
  /-- The mark `}`. -/
  | braceClose
  /-- The mark `!`. -/
  | exclamation
  /-- The mark `;`. -/
  | semicolon
  /-- The mark `'`. -/
  | quote
  /-- The mark `"`, which opens and closes a string. -/
  | doubleQuote
  /-- The operator `+`. -/
  | plus
  /-- The operator `-`. -/
  | minus
  /-- The operator `*`. -/
  | asterisk
  /-- The operator `/`. -/
  | slash
  /-- The operator `%`. -/
  | percent
  /-- The operator `&`. -/
  | ampersand
  /-- The operator `|`. -/
  | bar
  /-- The operator `~`. -/
  | tilde
  /-- The operator `^`. -/
  | caret
  /-- The operator `=`. -/
  | equalSign
  /-- The operator `<`. -/
  | lessThan
  /-- The operator `>`. -/
  | greaterThan
  /-- The operator `==`. -/
  | equalTo
  /-- The operator `!=`. -/
  | notEqual
  /-- The operator `<=`. -/
  | lessEqual
  /-- The operator `>=`. -/
  | greaterEqual
  /-- The operator `%=`. -/
  | percentEqual
  /-- The operator `/=`. -/
  | slashEqual
  /-- The operator `*=`. -/
  | asteriskEqual
  /-- The operator `-=`. -/
  | minusEqual
  /-- The operator `+=`. -/
  | plusEqual
  /-- The operator `&=`. -/
  | ampersandEqual
  /-- The operator `|=`. -/
  | barEqual
  /-- The operator `^=`. -/
  | caretEqual
  /-- The operator `&&`. -/
  | doubleAmpersand
  /-- The operator `||`. -/
  | doubleBar
  /-- The operator `--`. -/
  | doubleMinus
  /-- The operator `++`. -/
  | doublePlus
  /-- The operator `<<`. -/
  | shiftLeft
  /-- The operator `>>`. -/
  | shiftRight
  deriving DecidableEq, Repr, Inhabited

namespace Kind

/-- The label of a kind, shown as the type of a token that names no declaration. -/
def name : Kind → String
  | invalid => "INVALID"
  | number => "NUMBER"
  | keyword => "KEYWORD"
  | text => "TEXT"
  | null => "NULL"
  | dot => "DOT"
  | colon => "COLON"
  | comma => "COMMA"
  | parenthesisOpen => "PARENTHESISOPEN"
  | parenthesisClose => "PARENTHESISCLOSE"
  | bracketOpen => "BRACKETOPEN"
  | bracketClose => "BRACKETCLOSE"
  | braceOpen => "CURLYBRACKETOPEN"
  | braceClose => "CURLYBRACKETCLOSE"
  | exclamation => "EXCLAMATIONPOINT"
  | semicolon => "SEMICOLON"
  | quote => "QUOTE"
  | doubleQuote => "DOUBLEQUOTE"
  | plus => "PLUS"
  | minus => "MINUS"
  | asterisk => "ASTERISK"
  | slash => "SLASH"
  | percent => "MODULO"
  | ampersand => "AND"
  | bar => "OR"
  | tilde => "TILDE"
  | caret => "CARET"
  | equalSign => "EQUALSIGN"
  | lessThan => "LESSTHAN"
  | greaterThan => "GREATERTHAN"
  | equalTo => "EQUALTO"
  | notEqual => "NOTEQUAL"
  | lessEqual => "LESSEQUAL"
  | greaterEqual => "GREATEREQUAL"
  | percentEqual => "MODEQUAL"
  | slashEqual => "DIVEQUAL"
  | asteriskEqual => "MULEQUAL"
  | minusEqual => "MINUSEQUAL"
  | plusEqual => "PLUSEQUAL"
  | ampersandEqual => "ANDEQUAL"
  | barEqual => "OREQUAL"
  | caretEqual => "XOREQUAL"
  | doubleAmpersand => "ANDAND"
  | doubleBar => "OROR"
  | doubleMinus => "MINUSMINUS"
  | doublePlus => "PLUSPLUS"
  | shiftLeft => "BITSHIFTLEFT"
  | shiftRight => "BITSHIFTRIGHT"

/-- Whether a one-character token of this kind may join the character right after it into a
two-character operator. -/
def combines : Kind → Bool
  | plus | minus | asterisk | slash | percent | ampersand | bar | caret | equalSign | lessThan
  | greaterThan | exclamation => true
  | _ => false

end Kind

end ScriptLens.Token
