import CallCensus.Census.Run
import CallCensus.CommandLine.FileTree
import CallCensus.CommandLine.Options

namespace CallCensus.CommandLine

def versionText : String := "jargraph 0.1.0\n"

def helpText : String :=
  Lines.unlines
    ["Build a class-level call graph for each JAR archive",
      "",
      "Usage: jargraph [OPTIONS] <ARCHIVES>...",
      "",
      "Arguments:",
      "  <ARCHIVES>...  JAR archives to analyze, processed in order",
      "",
      "Options:",
      "  -f, --format <FORMAT>  Output format (csv, json, dot) [default: csv]",
      "  -o, --output <OUTPUT>  Write to this file instead of stdout",
      "      --skip-malformed   Skip class entries that fail to decode instead of aborting",
      "  -v, --verbose          Enable debug logging on stderr",
      "  -h, --help             Print help",
      "  -V, --version          Print version"]

structure Ending where
  status : Nat
  output : List UInt8
  diagnostics : List String
  deriving DecidableEq, Repr

-- The line that tells why the program failed, from the outermost account to the innermost.
def failureLine (accounts : List String) : String := "Error: " ++ String.intercalate ": " accounts

def accountsOf (failure : Failure) : List String :=
  ["Error while processing jar", failure.message] ++ failure.cause?.toList

def Options.census (options : Options) (source : Source (List UInt8)) : Census (List UInt8) :=
  ⟨if options.skipMalformed then .skip else .abort, options.format, DecodedClass.ofBytes, source⟩

-- The end of a program that took a census and printed this. A verbosity that is set elsewhere goes
-- before the option.
def endingOf {State : Type} (options : Options) (verbosity : Option Verbosity)
    (outcome : Census.Outcome State) (printed : List UInt8) : Ending :=
  let verbosity := verbosity.getD (.standard options.verbose)
  let told (events : List Event) : List String :=
    (events.filter fun event => verbosity.admits event.severity).map Event.render
  match outcome.result with
  | .ok summary => ⟨0, printed, told (outcome.events ++ [.finished summary options.format])⟩
  | .error failure => ⟨1, printed, told outcome.events ++ [failureLine (accountsOf failure)]⟩

def analyze (options : Options) (verbosity : Option Verbosity) (source : Source (List UInt8)) :
    Ending :=
  let outcome := (options.census source).run options.archives .unlimited
  endingOf options verbosity outcome outcome.sink.written

-- Prints to a file at a place among the others. The archives are looked for once it is made, and then
-- it holds what has gone through the buffer. The rest follows in the end, also where the census fails.
def analyzeInto (options : Options) (verbosity : Option Verbosity) (tree : FileTree)
    (place : List String) : Ending × FileTree :=
  let outcome := Census.runOver Buffered.writer
    (fun file => options.census (tree.put place (.file file.passed)).source) .empty .empty
    options.archives
  (endingOf options verbosity outcome [], tree.put place (.file outcome.sink.contents))

def withoutOutputFile (path reason : String) : Ending :=
  ⟨1, [], [failureLine ["Failed to create output file " ++ path, reason]]⟩

def usageEnding (error : UsageError) : Ending := ⟨2, [], ["error: " ++ error.message]⟩

def textEnding (text : String) : Ending := ⟨0, Utf8.encode text, []⟩

def run (arguments : List String) (verbosity : Option Verbosity) (tree : FileTree) :
    Ending × FileTree :=
  match parse arguments with
  | .error error => (usageEnding error, tree)
  | .ok .version => (textEnding versionText, tree)
  | .ok .help => (textEnding helpText, tree)
  | .ok (.analyze options) =>
    match options.output with
    | none => (analyze options verbosity tree.source, tree)
    | some path =>
      match tree.placeFor path with
      | .error obstacle => (withoutOutputFile path obstacle.message, tree)
      | .ok place => analyzeInto options verbosity tree place

end CallCensus.CommandLine
