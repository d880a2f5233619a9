import CallCensus.Archive.Listing
import CallCensus.CallGraph.Graph
import CallCensus.CallGraph.Inbound
import CallCensus.CallGraph.Roster
import CallCensus.Census.Event
import CallCensus.ClassFile.DecodedClass

namespace CallCensus

inductive Policy where
  | abort
  | skip
  deriving DecidableEq, Repr

-- Where archives are found. What is in their entries is read by a decoder, so it may be anything.
structure Source (Content : Type) where
  present : String → Bool
  list : String → Listing Failure Content

abbrev Decoder (Content : Type) := Content → Except DecodeError DecodedClass

-- The outcome of work that tells what it does.
structure Told (α : Type) where
  events : List Event
  outcome : Except Failure α

namespace Told

def pure {α : Type} (value : α) : Told α := ⟨[], .ok value⟩

def fail {α : Type} (failure : Failure) : Told α := ⟨[], .error failure⟩

def after {α : Type} (events : List Event) (told : Told α) : Told α :=
  ⟨events ++ told.events, told.outcome⟩

-- Goes on from a success. What was told before stays told.
def bind {α β : Type} (told : Told α) (next : α → Told β) : Told β :=
  match told.outcome with
  | .error failure => ⟨told.events, .error failure⟩
  | .ok value => (next value).after told.events

end Told

namespace Survey

variable {Content : Type}

def decodeEntries (policy : Policy) (decoder : Decoder Content) (archive : String) :
    List (ClassEntry Content) → Told (List DecodedClass × Nat)
  | [] => Told.pure ([], 0)
  | entry :: rest =>
    match decoder entry.content with
    | .ok decoded =>
      ((decodeEntries policy decoder archive rest).bind fun (classes, skipped) =>
        Told.pure (decoded :: classes, skipped)).after
          [.classDecoded entry.name decoded.name decoded.references.length]
    | .error cause =>
      let failure := Failure.malformedClass archive entry.name cause
      match policy with
      | .abort => Told.fail failure
      | .skip =>
        ((decodeEntries policy decoder archive rest).bind fun (classes, skipped) =>
          Told.pure (classes, skipped + 1)).after [.entrySkipped failure]

def graphOf (archive : String) (classes : List DecodedClass) : CallGraph :=
  let roster := Roster.empty.recordAll (classes.map fun entry => (entry.name, entry.references))
  CallGraph.ofRecords archive (CallRecord.withInbound roster.records)

def listEntries (source : Source Content) (path : String) : Told (List (ClassEntry Content)) :=
  let listing := source.list path
  ⟨listing.passedOver.map (.memberPassedOver path), listing.entries⟩

def build (policy : Policy) (decoder : Decoder Content) (source : Source Content) (path : String) :
    Told (CallGraph × Nat) :=
  (listEntries source path).bind fun entries =>
    ((decodeEntries policy decoder path entries).bind fun (classes, skipped) =>
      let graph := graphOf path classes
      ⟨[.graphBuilt path graph.records.length graph.edgeCount], .ok (graph, skipped)⟩).after
        [.entriesListed path entries.length]

end Survey

end CallCensus
