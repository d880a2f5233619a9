import CallCensus.Report.OutputFormat

namespace CallCensus.CommandLine

structure Options where
  archives : List String
  format : OutputFormat
  -- The file that the output goes to instead of the standard output.
  output : Option String
  skipMalformed : Bool
  verbose : Bool
  deriving DecidableEq, Repr

inductive Request where
  | analyze (options : Options)
  | version
  | help
  deriving DecidableEq, Repr

inductive OptionName where
  | format
  | output
  | skipMalformed
  | verbose
  | version
  | help
  deriving DecidableEq, Repr

namespace OptionName

def written : OptionName → String
  | .format => "--format"
  | .output => "--output"
  | .skipMalformed => "--skip-malformed"
  | .verbose => "--verbose"
  | .version => "--version"
  | .help => "--help"

def ofWritten? (text : String) : Option OptionName :=
  [format, output, skipMalformed, verbose, version, help].find? fun name => name.written = text

def ofLetter? : Char → Option OptionName
  | 'f' => some .format
  | 'o' => some .output
  | 'v' => some .verbose
  | 'V' => some .version
  | 'h' => some .help
  | _ => none

def takesValue (name : OptionName) : Bool := name = .format || name = .output

end OptionName

inductive UsageError where
  | unknownOption (text : String)
  | repeatedOption (name : OptionName)
  | missingValue (name : OptionName)
  | unexpectedValue (name : OptionName)
  | unknownFormat (cause : OutputFormat.Unknown)
  | emptyPath
  | missingArchives
  deriving DecidableEq, Repr

def UsageError.message : UsageError → String
  | .unknownOption text => "unexpected argument '" ++ text ++ "' found"
  | .repeatedOption name =>
    "the argument '" ++ name.written ++ "' cannot be used multiple times"
  | .missingValue name =>
    "a value is required for '" ++ name.written ++ "' but none was supplied"
  | .unexpectedValue name => "unexpected value for '" ++ name.written ++ "'"
  | .unknownFormat cause => "invalid value for '--format': " ++ cause.message
  | .emptyPath => "a path is empty"
  | .missingArchives => "no archives were provided"

-- What an argument, or a letter of it, stands for.
inductive Piece where
  | path (text : String)
  -- An option, and the value that is attached to it.
  | option (name : OptionName) (value : Option String)
  -- All arguments after this one are paths.
  | endOfOptions
  | unknown (text : String)
  deriving DecidableEq, Repr

def longPiece (chars : List Char) : Piece :=
  let written := "--" ++ String.ofList (chars.takeWhile (· ≠ '='))
  match OptionName.ofWritten? written, chars.dropWhile (· ≠ '=') with
  | none, _ => .unknown written
  | some name, [] => .option name none
  | some name, _ :: value => .option name (some (String.ofList value))

-- Options of one letter. What follows one that takes a value is its value.
def letterPieces : List Char → List Piece
  | [] => []
  | letter :: rest =>
    match OptionName.ofLetter? letter with
    | none => [.unknown (String.ofList ['-', letter])]
    | some name =>
      if name.takesValue then
        match rest with
        | [] => [.option name none]
        | '=' :: value => [.option name (some (String.ofList value))]
        | value => [.option name (some (String.ofList value))]
      else .option name none :: letterPieces rest

-- The pieces of an argument. A single dash is a path.
def piecesOf (argument : String) : List Piece :=
  match argument.toList with
  | '-' :: '-' :: chars => [longPiece chars]
  | '-' :: letter :: rest => letterPieces (letter :: rest)
  | _ => [.path argument]

def pieces : List String → List Piece
  | [] => []
  | argument :: rest =>
    if argument = "--" then .endOfOptions :: rest.map .path else piecesOf argument ++ pieces rest

structure Given where
  archives : List String
  format : Option OutputFormat
  output : Option String
  skipMalformed : Bool
  verbose : Bool

namespace Given

def nothing : Given := ⟨[], none, none, false, false⟩

def addArchive (given : Given) (path : String) : Except UsageError Given :=
  if path = "" then .error .emptyPath else .ok { given with archives := given.archives ++ [path] }

def setFormat (given : Given) (value : String) : Except UsageError Given :=
  match OutputFormat.parse value with
  | .error unknown => .error (.unknownFormat unknown)
  | .ok format =>
    if given.format.isSome then .error (.repeatedOption .format)
    else .ok { given with format := some format }

def setOutput (given : Given) (path : String) : Except UsageError Given :=
  if path = "" then .error .emptyPath
  else if given.output.isSome then .error (.repeatedOption .output)
  else .ok { given with output := some path }

def setSkipMalformed (given : Given) : Except UsageError Given :=
  if given.skipMalformed then .error (.repeatedOption .skipMalformed)
  else .ok { given with skipMalformed := true }

def setVerbose (given : Given) : Except UsageError Given :=
  if given.verbose then .error (.repeatedOption .verbose) else .ok { given with verbose := true }

def finish (given : Given) : Except UsageError Request :=
  if given.archives = [] then .error .missingArchives
  else
    .ok (.analyze ⟨given.archives, given.format.getD .standard, given.output, given.skipMalformed,
      given.verbose⟩)

end Given

-- Goes on with the pieces that are left. The value of an option is attached to it or is the next
-- argument, unless that is an option itself.
def parsePieces (given : Given) : List Piece → Except UsageError Request
  | [] => given.finish
  | .path text :: rest => do parsePieces (← given.addArchive text) rest
  | .endOfOptions :: rest => parsePieces given rest
  | .unknown text :: _ => .error (.unknownOption text)
  | .option .format (some value) :: rest => do parsePieces (← given.setFormat value) rest
  | .option .format none :: .path value :: rest => do parsePieces (← given.setFormat value) rest
  | .option .output (some value) :: rest => do parsePieces (← given.setOutput value) rest
  | .option .output none :: .path value :: rest => do parsePieces (← given.setOutput value) rest
  | .option .skipMalformed none :: rest => do parsePieces (← given.setSkipMalformed) rest
  | .option .verbose none :: rest => do parsePieces (← given.setVerbose) rest
  | .option .version none :: _ => .ok .version
  | .option .help none :: _ => .ok .help
  | .option name none :: _ => .error (.missingValue name)
  | .option name (some _) :: _ => .error (.unexpectedValue name)

-- Options and the paths of archives stand in any order. A request for the version or for help is
-- granted unless something before it is wrong.
def parse (arguments : List String) : Except UsageError Request :=
  parsePieces .nothing (pieces arguments)

end CallCensus.CommandLine
