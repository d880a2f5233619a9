import CallCensus.Census.Sink
import CallCensus.Census.Survey

namespace CallCensus

structure Census (Content : Type) where
  policy : Policy
  format : OutputFormat
  decoder : Decoder Content
  source : Source Content

namespace Census

-- How a census ends, or stands after one of its archives: what was told, what was written to as it was
-- left, and what the census amounts to.
structure Outcome (State : Type) where
  events : List Event
  sink : State
  result : Except Failure Summary

namespace Outcome

variable {State : Type}

def after (events : List Event) (outcome : Outcome State) : Outcome State :=
  { outcome with events := events ++ outcome.events }

def bind (outcome : Outcome State) (next : Summary → State → Outcome State) : Outcome State :=
  match outcome.result with
  | .error failure => { outcome with result := .error failure }
  | .ok summary => (next summary outcome.sink).after outcome.events

end Outcome

variable {Content State : Type}

def survey (census : Census Content) (path : String) : Told (CallGraph × Nat) :=
  Survey.build census.policy census.decoder census.source path

-- One archive of a census. Its graph is written once it is complete, so that nothing is written of an
-- archive that fails. A path with nothing there is told of and passed over.
def visit (census : Census Content) (writer : Writer State) (summary : Summary) (state : State)
    (path : String) : Outcome State :=
  if census.source.present path then
    let told := census.survey path
    match told.outcome with
    | .error failure => ⟨told.events, state, .error failure⟩
    | .ok (graph, skipped) =>
      let text := census.format.render graph
      match writer.write state (Utf8.encode text) with
      | (.error reason, state) => ⟨told.events, state, .error (.output reason)⟩
      | (.ok (), state) =>
        ⟨told.events, state, .ok
          { summary with
            processed := summary.processed + 1
            skipped := summary.skipped + skipped
            lines := summary.lines + Lines.count text.toList }⟩
  else
    ⟨[.archiveMissing (.missingArchive path)], state,
      .ok { summary with missing := summary.missing ++ [path] }⟩

def close (writer : Writer State) (summary : Summary) (state : State) : Outcome State :=
  match writer.flush state with
  | (.error reason, state) => ⟨[], state, .error (.output reason)⟩
  | (.ok (), state) => ⟨[], state, .ok summary⟩

-- A census of archives that may be others each time that something is written.
def runOver (writer : Writer State) (found : State → Census Content) (summary : Summary)
    (state : State) : List String → Outcome State
  | [] => close writer summary state
  | path :: rest =>
    ((found state).visit writer summary state path).bind fun summary state =>
      runOver writer found summary state rest

def runTo (census : Census Content) (writer : Writer State) (summary : Summary) (state : State)
    (paths : List String) : Outcome State :=
  runOver writer (fun _ => census) summary state paths

def run (census : Census Content) (paths : List String) (sink : Sink) : Outcome Sink :=
  census.runTo Sink.writer .empty sink paths

end Census

end CallCensus
