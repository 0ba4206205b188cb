import ScriptLens.CommandLine.Argument

/-! # Options
Main definitions:
* `Level`: how much is logged.
* `Options`, `Options.level`: what a command line settles, and the level that follows from it.
* `Rejection`: the reasons for which a command line settles nothing.
* `Options.ofArguments`: the options of a command line.
* `Options.logReport?`: the report on a log file that cannot be opened. -/

namespace ScriptLens.CommandLine

/-! ## Levels -/

/-- How much is logged: each level logs what the levels before it do, and more. -/
inductive Level where
  /-- Errors only. -/
  | error
  /-- Warnings too. -/
  | warn
  /-- Information on the work done too. -/
  | info
  /-- Details for finding faults too. -/
  | debug
  /-- Every step. -/
  | trace
  deriving DecidableEq, Repr

namespace Level

/-- The place of a level in the order from the least to the most that is logged. -/
def rank : Level → Nat
  | error => 0
  | warn => 1
  | info => 2
  | debug => 3
  | trace => 4

/-- The one of two levels that logs more. -/
def most (first second : Level) : Level :=
  if first.rank ≤ second.rank then second else first

/-- The level with a given name. -/
def ofName? : String → Option Level
  | "error" => some error
  | "warn" => some warn
  | "info" => some info
  | "debug" => some debug
  | "trace" => some trace
  | _ => none

end Level

/-! ## Options -/

/-- What a command line settles. -/
structure Options where
  /-- The file that the log is appended to; without one it goes to standard error. -/
  logFile : Option String := none
  /-- Whether details for finding faults are asked for. -/
  debug : Bool := false
  /-- The level that is asked for. -/
  logLevel : Level := .info
  deriving DecidableEq, Repr

/-- The level at which logging takes place. Asking for details never lowers it. -/
def Options.level (options : Options) : Level :=
  if options.debug then options.logLevel.most .debug else options.logLevel

/-- The reasons for which a command line settles nothing. -/
inductive Rejection where
  /-- A value is missing, empty or unknown. -/
  | invalidValue
  /-- A word is no known option, or a word too many. -/
  | unknownArgument
  /-- An option is given twice. -/
  | repeatedOption
  /-- An option that takes no value has one. -/
  | unexpectedValue
  /-- The help is asked for. -/
  | help
  /-- The version is asked for. -/
  | version
  deriving DecidableEq, Repr

/-- The options that take a value. -/
inductive Setting where
  /-- The file that the log is appended to. -/
  | logFile
  /-- The level that is asked for. -/
  | logLevel
  deriving DecidableEq, Repr

/-- The options that take no value. -/
inductive Flag where
  /-- Asks for details for finding faults. -/
  | debug
  /-- Asks for the help. -/
  | help
  /-- Asks for the version. -/
  | version
  deriving DecidableEq, Repr

/-- The flag with a given name. -/
def Flag.ofName? : String → Option Flag
  | "debug" => some debug
  | "help" => some help
  | "version" => some version
  | _ => none

/-- The flag with a given letter. -/
def Flag.ofLetter? : Char → Option Flag
  | 'h' => some help
  | 'V' => some version
  | _ => none

/-- The setting with a given name. -/
def Setting.ofName? : String → Option Setting
  | "log-file" => some logFile
  | "log-level" => some logLevel
  | _ => none

/-! ## Reading a command line -/

/-- The options that the words read so far have given. -/
structure Given where
  /-- The file that the log is appended to. -/
  logFile : Option String := none
  /-- The level that is asked for. -/
  logLevel : Option Level := none
  /-- Whether details are asked for. -/
  debug : Bool := false
  deriving DecidableEq, Repr

/-- A setting whose value is not taken up yet: the value is the next plain word, and it is looked
at only when the words after it call for it. -/
structure Waiting where
  /-- The setting. -/
  setting : Setting
  /-- Its value, once that word has been read. -/
  value : Option String := none
  deriving DecidableEq, Repr

namespace Given

/-- Takes up the value of a setting. That the setting is given twice is noticed before its value is
looked at. -/
def set (given : Given) (setting : Setting) (value : String) : Except Rejection Given :=
  match setting with
  | .logFile =>
    if given.logFile.isSome then .error .repeatedOption
    else if value.isEmpty then .error .invalidValue
    else .ok { given with logFile := some value }
  | .logLevel =>
    if given.logLevel.isSome then .error .repeatedOption
    else
      match Level.ofName? value with
      | none => .error .invalidValue
      | some level => .ok { given with logLevel := some level }

/-- Takes up a flag. -/
def raise (given : Given) : Flag → Except Rejection Given
  | .debug => if given.debug then .error .repeatedOption else .ok { given with debug := true }
  | .help => .error .help
  | .version => .error .version

/-- Takes up the setting that waits, if there is one. -/
def settle (given : Given) : Option Waiting → Except Rejection Given
  | none => .ok given
  | some { setting := _, value := none } => .error .invalidValue
  | some { setting, value := some value } => given.set setting value

/-- The options given by the words of a command line, where `waiting` is the setting before them
that is not taken up yet. -/
def read (given : Given) (waiting : Option Waiting) : List String → Except Rejection Given
  | [] => given.settle waiting
  | word :: words =>
    match Argument.ofString word with
    | .separator => if words.isEmpty then given.settle waiting else .error .unknownArgument
    | .long name value =>
      match Flag.ofName? name, Setting.ofName? name with
      | some flag, _ =>
        if value.isSome then .error .unexpectedValue
        else do
          let given ← given.settle waiting
          let given ← given.raise flag
          given.read none words
      | none, some setting => do
        let given ← given.settle waiting
        match value with
        | some value =>
          let given ← given.set setting value
          given.read none words
        | none => given.read (some { setting }) words
      | none, none => .error .unknownArgument
    | .short letter _ =>
      match Flag.ofLetter? letter with
      | some flag => do
        let given ← given.settle waiting
        let given ← given.raise flag
        given.read none words
      | none => .error .unknownArgument
    | .plain text =>
      match waiting with
      | some { setting, value := none } => given.read (some { setting, value := some text }) words
      | _ => .error .unknownArgument

end Given

/-- The options of a command line. -/
def Options.ofArguments (words : List String) : Except Rejection Options :=
  (Given.read {} none words).map fun given =>
    { logFile := given.logFile, debug := given.debug, logLevel := given.logLevel.getD .info }

/-! ## The log file -/

/-- The report that the log file at a path cannot be opened, with the reason. -/
def logFileReport (path reason : String) : String :=
  "cannot open log file " ++ path ++ ": " ++ reason

/-- The report on the log file, if there is one and it cannot be opened. The file is opened by
`reason?`, which tells why that has failed, if it has. -/
def Options.logReport? {m : Type → Type} [Monad m] (options : Options)
    (reason? : String → m (Option String)) : m (Option String) :=
  match options.logFile with
  | none => return none
  | some path => return (← reason? path).map (logFileReport path)

end ScriptLens.CommandLine
