import Lineage.Command.Run

set_option autoImplicit false

/-! # The command line

Reads the files, runs the command and prints the report. -/

namespace Lineage.CommandLine

/-- What is said when help is asked for. -/
def usage : String :=
  "Annotate overriding and implementing members of TypeScript classes and interfaces\n\n" ++
  "Usage: lineage [OPTIONS] <SNAPSHOT>\n\n" ++
  "Options:\n" ++
  "  -d, --document <URI>   Report only on this document; may be repeated\n" ++
  "  -c, --config <PATH>    Lens configuration (JSON)\n" ++
  "      --mode <MODE>      Peek mode: peek, gotoAndPeek or goto\n" ++
  "      --format <FORMAT>  Output format: text or json\n" ++
  "  -h, --help             Print help\n" ++
  "  -V, --version          Print version\n"

/-- What is said about arguments that were not accepted. -/
def describe : ArgumentError → String
  | .missingRequired => "a snapshot is required"
  | .unknown => "unexpected argument"
  | .invalidValue => "invalid or missing value"
  | .conflict => "an option is used more than once"
  | .tooManyValues => "unexpected value"
  | .help => usage
  | .version => "lineage 0.1.0\n"

/-- What is found at a path. -/
def contentsOf (path : String) : IO FileContents := do
  try
    return .ok (← IO.FS.readBinFile path)
  catch
    | .noFileOrDirectory _ _ _ => return .error .missing
    | .inappropriateType _ _ _ => return .error .folder
    | _ => return .error .unreadable

/-- Runs the command with its arguments and prints the report. -/
def runWith (arguments : Arguments) : IO UInt32 := do
  let mut files : Assoc String FileContents := []
  for path in arguments.snapshot :: arguments.config.toList do
    files := files.insert path (← contentsOf path)
  match arguments.run fun path => (files.get? path).getD (.error .missing) with
  | .error error =>
    IO.eprintln ("Error: " ++ error.message)
    return 1
  | .ok report =>
    match report.render arguments.format with
    | some text =>
      IO.print text
      return 0
    | none =>
      IO.eprintln "Error: a position is out of range"
      return 1

end Lineage.CommandLine

open Lineage Lineage.CommandLine

/-- The program. -/
def main (arguments : List String) : IO UInt32 := do
  match Arguments.ofList arguments with
  | .ok arguments => runWith arguments
  | .error .help =>
    IO.print (describe .help)
    return 0
  | .error .version =>
    IO.print (describe .version)
    return 0
  | .error error =>
    IO.eprintln ("error: " ++ describe error)
    return 2
