import CallCensus.CallGraph.CallRecord

namespace CallCensus

-- The records stand in the order of their callers, so that it makes no difference in which order
-- classes were read.
structure CallGraph where
  archive : String
  records : List CallRecord
  ordered : records.Pairwise fun a b => a.caller ≤ b.caller
  deriving DecidableEq, Repr

structure Edge where
  caller : String
  inbound : UInt64
  callee : String
  count : UInt64
  deriving DecidableEq, Repr

def CallRecord.edges (record : CallRecord) : List Edge :=
  record.outbound.entries.map fun entry => ⟨record.caller, record.inbound, entry.1, entry.2⟩

namespace CallGraph

def callerLE (a b : CallRecord) : Bool := a.caller ≤ b.caller

theorem callerLE_trans (a b c : CallRecord) (hab : callerLE a b) (hbc : callerLE b c) :
    callerLE a c := by
  simp only [callerLE, decide_eq_true_eq] at *
  exact String.le_trans hab hbc

theorem callerLE_total (a b : CallRecord) : callerLE a b || callerLE b a := by
  simpa [callerLE] using String.le_total a.caller b.caller

theorem pairwise_mergeSort_callerLE (records : List CallRecord) :
    (records.mergeSort callerLE).Pairwise fun a b => a.caller ≤ b.caller := by
  simpa [callerLE] using List.pairwise_mergeSort callerLE_trans callerLE_total records

-- Records with equal callers keep their order.
def ofRecords (archive : String) (records : List CallRecord) : CallGraph :=
  ⟨archive, records.mergeSort callerLE, pairwise_mergeSort_callerLE records⟩

def edges (graph : CallGraph) : List Edge := graph.records.flatMap CallRecord.edges

-- The number of edges, without making them.
def edgeCount (graph : CallGraph) : Nat :=
  graph.records.foldr (fun record count => record.outbound.entries.length + count) 0

-- Halves a range of `size` records from `low` on until one is left: the last of them whose caller
-- is not above the name, if there is such a record.
def lastNotAbove (records : Array CallRecord) (name : String) (low size : Nat)
    (h : low + size ≤ records.size) : Nat :=
  if hsize : 1 < size then
    let half := size / 2
    have hmiddle : low + half < records.size := by omega
    if name < records[low + half].caller then
      lastNotAbove records name low (size - half) (by omega)
    else lastNotAbove records name (low + half) (size - half) (by omega)
  else low
termination_by size

-- The record of the class of exactly this name. Of several the last is found.
def find? (graph : CallGraph) (name : String) : Option CallRecord :=
  let records := graph.records.toArray
  (records[lastNotAbove records name 0 records.size (by omega)]?).filter (·.caller = name)

end CallGraph

end CallCensus
