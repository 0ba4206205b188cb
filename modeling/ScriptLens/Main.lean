import ScriptLens.CommandLine.Options
import ScriptLens.Editor.Session

/-! # Command line
Main definition:
* `main`: reads the options, opens the log, and reports what is wrong with either. -/

namespace ScriptLens.CommandLine

/-- The text of the help. -/
def usage (server : Server) : String :=
  "Usage: " ++ server.name ++ " [--log-file PATH] [--debug] [--log-level LEVEL]"

/-- What is told about a rejected command line. -/
def Rejection.report (server : Server) : Rejection → String
  | invalidValue => "a value is missing or not valid\n" ++ usage server
  | unknownArgument => "an argument is not known\n" ++ usage server
  | repeatedOption => "an option is given twice\n" ++ usage server
  | unexpectedValue => "an option takes no value\n" ++ usage server
  | help => usage server
  | version => server.name ++ " " ++ server.version

/-- The exit code for a rejected command line; asking for help or for the version is no fault. -/
def Rejection.exitCode : Rejection → UInt32
  | help | version => 0
  | _ => 2

/-- Opens a file for writing at its end, and tells why that has failed, if it has. -/
def openReason? (path : String) : IO (Option String) := do
  try
    let _ ← IO.FS.Handle.mk path .append
    return none
  catch problem => return some (toString problem)

end ScriptLens.CommandLine

open ScriptLens in
/-- Reads the options and opens the log. -/
def main (arguments : List String) : IO UInt32 := do
  let server := Server.tscript
  match CommandLine.Options.ofArguments arguments with
  | .error rejection =>
    IO.eprintln (rejection.report server)
    return rejection.exitCode
  | .ok options =>
    match ← options.logReport? CommandLine.openReason? with
    | none => return 0
    | some report =>
      IO.eprintln (server.name ++ ": " ++ report)
      return 1
