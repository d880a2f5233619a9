import CallCensus.ClassFile.DecodeError
import CallCensus.Report.OutputFormat

namespace CallCensus

inductive Failure where
  | missingArchive (path : String)
  | unreadableArchive (path reason : String)
  -- An entry that is named as a class is none that can be read.
  | malformedClass (archive entry : String) (cause : DecodeError)
  | output (reason : String)
  deriving DecidableEq, Repr

namespace Failure

def message : Failure → String
  | .missingArchive path => "Jar file " ++ path ++ " does not exist"
  | .unreadableArchive path reason => "cannot read archive " ++ path ++ ": " ++ reason
  | .malformedClass archive entry cause =>
    "malformed class entry " ++ entry ++ " in " ++ archive ++ ": " ++ cause.message
  | .output reason => "failed to write output: " ++ reason

def cause? : Failure → Option String
  | .missingArchive _ => none
  | .unreadableArchive _ reason => some reason
  | .malformedClass _ _ cause => some cause.message
  | .output reason => some reason

end Failure

structure Summary where
  processed : Nat
  -- The paths at which there is no archive.
  missing : List String
  -- The number of entries left out because they are malformed.
  skipped : Nat
  lines : Nat
  deriving DecidableEq, Repr

def Summary.empty : Summary := ⟨0, [], 0, 0⟩

inductive Event where
  -- A member of an archive is no class.
  | memberPassedOver (archive name : String)
  | entriesListed (archive : String) (count : Nat)
  | classDecoded (entry name : String) (callSites : Nat)
  -- A malformed entry is left out.
  | entrySkipped (failure : Failure)
  | graphBuilt (archive : String) (classes edges : Nat)
  -- An archive is left out because there is none at its path.
  | archiveMissing (failure : Failure)
  | finished (summary : Summary) (format : OutputFormat)
  deriving DecidableEq, Repr

inductive Severity where
  | debug
  | info
  | warning
  deriving DecidableEq, Repr

def Severity.label : Severity → String
  | .debug => "DEBUG"
  | .info => "INFO"
  | .warning => "WARN"

namespace Event

def severity : Event → Severity
  | .memberPassedOver _ _ => .debug
  | .entriesListed _ _ => .info
  | .classDecoded _ _ _ => .debug
  | .entrySkipped _ => .warning
  | .graphBuilt _ _ _ => .info
  | .archiveMissing _ => .warning
  | .finished _ _ => .info

def message : Event → String
  | .memberPassedOver archive name => archive ++ ": skipping " ++ name
  | .entriesListed archive count => archive ++ ": " ++ toString count ++ " class entries"
  | .classDecoded entry name callSites =>
    entry ++ ": " ++ toString callSites ++ " call sites in " ++ name
  | .entrySkipped failure => "skipping entry: " ++ failure.message
  | .graphBuilt archive classes edges =>
    archive ++ ": " ++ toString classes ++ " classes, " ++ toString edges ++ " edges"
  | .archiveMissing failure => failure.message
  | .finished summary format =>
    "processed " ++ toString summary.processed ++ " archive(s), " ++
      toString summary.missing.length ++ " missing, " ++ toString summary.skipped ++
      " entries skipped, " ++ toString summary.lines ++ " lines (" ++ format.name ++ ")"

def render (event : Event) : String := event.severity.label ++ " " ++ event.message

end Event

-- How much is told: all from the named severity on. There are no events that are errors.
inductive Verbosity where
  | off
  | error
  | warning
  | info
  | debug
  deriving DecidableEq, Repr

namespace Verbosity

def name : Verbosity → String
  | .off => "off"
  | .error => "error"
  | .warning => "warn"
  | .info => "info"
  | .debug => "debug"

def ofName? (name : String) : Option Verbosity :=
  [off, error, warning, info, debug].find? fun verbosity => verbosity.name = name

def standard (verbose : Bool) : Verbosity := if verbose then debug else warning

def admits : Verbosity → Severity → Bool
  | .off, _ => false
  | .error, _ => false
  | .warning, severity => severity = .warning
  | .info, severity => severity ≠ .debug
  | .debug, _ => true

end Verbosity

end CallCensus
