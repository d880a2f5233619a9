import CallCensus.CallGraph.CallRecord

namespace CallCensus

structure Roster where
  -- In the order in which the classes were first seen.
  records : List CallRecord
  -- The position of a record, by its caller.
  positions : List (String × Nat)
  deriving DecidableEq, Repr

namespace Roster

def empty : Roster := ⟨[], []⟩

def position? (roster : Roster) (caller : String) : Option Nat := roster.positions.lookup caller

-- The roster with a record of this caller in it, and the position of that record. A caller that
-- was not seen before gets a record at the end.
def enter (roster : Roster) (caller : String) : Roster × Nat :=
  match roster.position? caller with
  | some position => (roster, position)
  | none =>
    let position := roster.records.length
    (⟨roster.records ++ [CallRecord.ofCaller caller], (caller, position) :: roster.positions⟩,
      position)

def record (roster : Roster) (caller : String) (callees : List String) : Roster :=
  let (roster, position) := roster.enter (ClassName.topLevel caller)
  { roster with records := roster.records.modify position (·.observeAll callees) }

def recordAll (roster : Roster) (classes : List (String × List String)) : Roster :=
  classes.foldl (fun roster entry => roster.record entry.1 entry.2) roster

end Roster

end CallCensus
