import CallCensus.CallGraph.CallRecord

namespace CallCensus

namespace CallCounts

def merge (totals counts : CallCounts) : CallCounts :=
  counts.entries.foldl (fun totals entry => totals.add entry.1 entry.2) totals

end CallCounts

namespace CallRecord

def totalOutbound (records : List CallRecord) : CallCounts :=
  records.foldl (fun totals record => totals.merge record.outbound) .empty

-- Gives each record the number of calls that all records make to its class.
def withInbound (records : List CallRecord) : List CallRecord :=
  let totals := totalOutbound records
  records.map fun record => { record with inbound := totals.count record.caller }

end CallRecord

end CallCensus
