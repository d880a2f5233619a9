import CallCensus.CommandLine.Program

namespace CallCensus.CommandLine

-- What keeps the system from opening a file, where it is one of the obstacles that are known.
def obstacleOf? : IO.Error → Option Obstacle
  | .noFileOrDirectory _ _ _ => some .notFound
  | .inappropriateType _ code _ =>
    if code.toInt32.toInt.natAbs = 20 then some .notDirectory else some .isDirectory
  | _ => none

def reasonOf (error : IO.Error) : String :=
  match obstacleOf? error with
  | some obstacle => obstacle.message
  | none => toString error

def readArchive (path : String) : IO (Option (Listing Failure (List UInt8))) := do
  try
    let bytes ← IO.FS.readBinFile path
    return some (FileTree.listNode Archive.zip path (.file bytes.data.toList))
  catch error =>
    match obstacleOf? error with
    | some .isDirectory => return some (FileTree.listNode Archive.zip path .directory)
    | some _ => return none
    | none => return some ⟨[], .error (.unreadableArchive path (toString error))⟩

def readArchives (paths : List String) : IO (Source (List UInt8)) := do
  let found ← paths.mapM fun path => do return (path, ← readArchive path)
  return {
    present := fun path => ((found.lookup path).getD none).isSome
    list := fun path =>
      ((found.lookup path).getD none).getD ⟨[], .error (.missingArchive path)⟩ }

def toByteArray (bytes : List UInt8) : ByteArray := ⟨bytes.toArray⟩

def finish (ending : Ending) : IO UInt32 := do
  let output ← IO.getStdout
  output.write (toByteArray ending.output)
  output.flush
  for line in ending.diagnostics do
    IO.eprintln line
  return ending.status.toUInt32

-- What has gone through the buffer since a file was in another state.
def passedSince (before after : Buffered) : ByteArray :=
  toByteArray (after.passed.drop before.passed.length)

-- A census whose output goes to a file, in which the archives that are looked for next may be.
def censusInto (options : Options) (output : IO.FS.Handle) (summary : Summary) (file : Buffered) :
    List String → IO (Census.Outcome Buffered)
  | [] => do
    let closed := Census.close Buffered.writer summary file
    output.write (passedSince file closed.sink)
    return closed
  | path :: rest => do
    let census := options.census (← readArchives [path])
    let visited := census.visit Buffered.writer summary file path
    output.write (passedSince file visited.sink)
    output.flush
    match visited.result with
    | .error _ =>
      output.write (toByteArray visited.sink.held)
      return visited
    | .ok summary =>
      return (← censusInto options output summary visited.sink rest).after visited.events

def analyzeFiles (options : Options) (verbosity : Option Verbosity) : IO UInt32 := do
  match options.output with
  | none => finish (analyze options verbosity (← readArchives options.archives))
  | some path =>
    match ← (IO.FS.Handle.mk path .write).toBaseIO with
    | .error error => finish (withoutOutputFile path (reasonOf error))
    | .ok output =>
      let outcome ← censusInto options output .empty .empty options.archives
      finish (endingOf options verbosity outcome [])

def verbosityVariable : String := "RUST_LOG"

end CallCensus.CommandLine

open CallCensus CommandLine

def main (arguments : List String) : IO UInt32 := do
  let verbosity := (← IO.getEnv verbosityVariable).bind Verbosity.ofName?
  match CommandLine.parse arguments with
  | .error error => finish (usageEnding error)
  | .ok .version => finish (textEnding versionText)
  | .ok .help => finish (textEnding helpText)
  | .ok (.analyze options) => analyzeFiles options verbosity
