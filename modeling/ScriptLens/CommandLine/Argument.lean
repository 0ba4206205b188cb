/-! # Arguments
Main definitions:
* `Argument`: what a word of a command line looks like.
* `Argument.ofString`: the look of a word. -/

namespace ScriptLens.CommandLine

/-- What a word of a command line looks like. -/
inductive Argument where
  /-- The word `--`, after which no word is an option any more. -/
  | separator
  /-- A word such as `--name` or `--name=value`. -/
  | long (name : String) (value : Option String)
  /-- A word such as `-abc`: a first letter and the letters after it. -/
  | short (letter : Char) (letters : List Char)
  /-- Any other word, also `-` and the empty word. -/
  | plain (text : String)
  deriving DecidableEq, Repr

/-- A name and the value behind its first equals sign. -/
def splitValue (text : List Char) : String × Option String :=
  let name := String.ofList (text.takeWhile (· ≠ '='))
  match text.dropWhile (· ≠ '=') with
  | [] => (name, none)
  | _ :: value => (name, some (String.ofList value))

/-- The look of a word. -/
def Argument.ofString (word : String) : Argument :=
  match word.toList with
  | ['-', '-'] => separator
  | '-' :: '-' :: text =>
    let (name, value) := splitValue text
    long name value
  | '-' :: letter :: letters => short letter letters
  | _ => plain word

end ScriptLens.CommandLine
