/-! # Integer literals
Main definition:
* `isNumeral`: whether a word is an integer literal: a decimal that fits in 32 bits, or hexadecimal
  digits after `0x`, or binary digits after `0b`. -/

namespace ScriptLens.Numeral

/-- The value of a run of decimal digits, the most significant digit first. -/
def value (digits : List Char) : Nat :=
  digits.foldl (fun total digit => 10 * total + (digit.toNat - '0'.toNat)) 0

/-- Whether a word is one or more decimal digits of a value of at most `limit`. -/
def isDecimal (limit : Nat) (digits : List Char) : Bool :=
  !digits.isEmpty && digits.all Char.isDigit && value digits ≤ limit

/-- Whether a character is a hexadecimal digit, in either case. -/
def isHexDigit (c : Char) : Bool :=
  c.isDigit || ('a' ≤ c && c ≤ 'f') || ('A' ≤ c && c ≤ 'F')

/-- Whether a character is a binary digit. -/
def isBinaryDigit (c : Char) : Bool :=
  c == '0' || c == '1'

/-- Whether a word is an integer literal. A decimal may have a sign and lies in the range of signed
32-bit words; after `0x` and `0b` any number of digits may follow, also none. -/
def isNumeral : List Char → Bool
  | '+' :: digits => isDecimal 2147483647 digits
  | '-' :: digits => isDecimal 2147483648 digits
  | '0' :: 'x' :: digits => digits.all isHexDigit
  | '0' :: 'X' :: digits => digits.all isHexDigit
  | '0' :: 'b' :: digits => digits.all isBinaryDigit
  | '0' :: 'B' :: digits => digits.all isBinaryDigit
  | digits => isDecimal 2147483647 digits

end ScriptLens.Numeral
