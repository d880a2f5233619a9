import CallCensus.Census.Survey
import CallCensus.Proofs.CallGraph.Totals

namespace CallCensus

open ClassName

namespace CallGraph

def callers (graph : CallGraph) : List String := graph.records.map (·.caller)

-- A graph with a record for each of these classes, and the numbers of calls between and into them.
structure Shows (graph : CallGraph) (names : List String) (between : String → String → Nat)
    (into : String → Nat) : Prop where
  distinct : graph.callers.Nodup
  callers : ∀ caller, caller ∈ graph.callers ↔ caller ∈ names
  counts : ∀ record ∈ graph.records, ∀ callee,
    (record.callsTo callee).toNat = between record.caller callee
  inbound : ∀ record ∈ graph.records, record.inbound.toNat = into record.caller
  edges : ∀ edge, edge ∈ graph.edges ↔ edge.caller ∈ names ∧
    edge.inbound.toNat = into edge.caller ∧
    edge.count.toNat = between edge.caller edge.callee ∧ 0 < between edge.caller edge.callee
  pairs : (graph.edges.map fun edge => (edge.caller, edge.callee)).Nodup

theorem mem_records_ofRecords {archive : String} {records : List CallRecord} {record : CallRecord} :
    record ∈ (ofRecords archive records).records ↔ record ∈ records :=
  List.mem_mergeSort

theorem callers_ofRecords_perm (archive : String) (records : List CallRecord) :
    (ofRecords archive records).callers.Perm (records.map (·.caller)) :=
  (List.mergeSort_perm records callerLE).map _

theorem mem_edges {graph : CallGraph} {edge : Edge} :
    edge ∈ graph.edges ↔ ∃ record ∈ graph.records, ∃ entry ∈ record.outbound.entries,
      edge = ⟨record.caller, record.inbound, entry.1, entry.2⟩ := by
  simp only [edges, CallRecord.edges, List.mem_flatMap, List.mem_map, eq_comm]

theorem pairs_nodup {graph : CallGraph} (hdistinct : graph.callers.Nodup) :
    (graph.edges.map fun edge => (edge.caller, edge.callee)).Nodup := by
  have hpair (record : CallRecord) : (record.edges.map fun edge => (edge.caller, edge.callee)) =
      record.outbound.entries.map fun entry => (record.caller, entry.1) := by
    rw [CallRecord.edges, List.map_map]
    rfl
  simp only [edges, List.map_flatMap, hpair]
  apply List.nodup_flatMap.mpr
  constructor
  · intro record _
    apply List.pairwise_map.mpr
    apply record.outbound.sorted.imp
    intro entry other hlt heq
    rw [(Prod.mk.inj heq).2] at hlt
    exact String.lt_irrefl _ hlt
  · apply (List.pairwise_map.mp hdistinct).imp
    intro first second hne pair hfirst hsecond
    obtain ⟨entry, -, rfl⟩ := List.mem_map.mp hfirst
    obtain ⟨other, -, heq⟩ := List.mem_map.mp hsecond
    exact hne (Prod.mk.inj heq).1.symm

-- The edges are determined by the records.
theorem mem_edges_iff {graph : CallGraph} {names : List String}
    {between : String → String → Nat} {into : String → Nat}
    (hcallers : ∀ caller, caller ∈ graph.callers ↔ caller ∈ names)
    (hcounts : ∀ record ∈ graph.records, ∀ callee,
      (record.callsTo callee).toNat = between record.caller callee)
    (hlisted : ∀ record ∈ graph.records, ∀ callee,
      callee ∈ record.outbound.keys ↔ 0 < between record.caller callee)
    (hinbound : ∀ record ∈ graph.records, record.inbound.toNat = into record.caller) (edge : Edge) :
    edge ∈ graph.edges ↔ edge.caller ∈ names ∧ edge.inbound.toNat = into edge.caller ∧
      edge.count.toNat = between edge.caller edge.callee ∧
      0 < between edge.caller edge.callee := by
  rw [mem_edges, ← hcallers edge.caller]
  constructor
  · rintro ⟨record, hrecord, entry, hentry, rfl⟩
    have hcount := hcounts record hrecord entry.1
    rw [CallRecord.callsTo, CallCounts.count_of_mem hentry] at hcount
    exact ⟨List.mem_map_of_mem hrecord, hinbound record hrecord, hcount,
      (hlisted record hrecord entry.1).mp (List.mem_map_of_mem hentry)⟩
  · rintro ⟨hcaller, hinto, hcount, hpos⟩
    obtain ⟨record, hrecord, heq⟩ := List.mem_map.mp hcaller
    obtain ⟨caller, inbound, callee, count⟩ := edge
    simp only at heq hinto hcount hpos ⊢
    subst heq
    obtain ⟨entry, hentry, rfl⟩ := List.mem_map.mp ((hlisted record hrecord callee).mpr hpos)
    rw [← hinbound record hrecord] at hinto
    rw [← hcounts record hrecord, CallRecord.callsTo, CallCounts.count_of_mem hentry] at hcount
    refine ⟨record, hrecord, entry, hentry, ?_⟩
    rw [UInt64.toNat_inj.mp hinto, UInt64.toNat_inj.mp hcount]

end CallGraph

namespace Survey

-- A record of a graph is one of the roster, with the calls into its class.
theorem exists_of_mem_records {archive : String} {records : List CallRecord} {record : CallRecord}
    (h : record ∈ (CallGraph.ofRecords archive (CallRecord.withInbound records)).records) :
    ∃ before ∈ records, record =
      { before with inbound := (CallRecord.totalOutbound records).count before.caller } := by
  rw [CallGraph.mem_records_ofRecords] at h
  obtain ⟨before, hbefore, rfl⟩ := List.mem_map.mp h
  exact ⟨before, hbefore, rfl⟩

theorem callers_perm (archive : String) (roster : Roster) :
    (CallGraph.ofRecords archive (CallRecord.withInbound roster.records)).callers.Perm
      roster.callers := by
  have hcallers : (CallRecord.withInbound roster.records).map (·.caller) = roster.callers := by
    rw [CallRecord.withInbound, List.map_map]
    rfl
  exact hcallers ▸ CallGraph.callers_ofRecords_perm archive _

def calls (classes : List DecodedClass) : List (String × List String) :=
  classes.map fun entry => (entry.name, entry.references)

-- There is one record for each top-level class, and it lists the classes that are called.
theorem nodup_callers_graphOf (archive : String) (classes : List DecodedClass) :
    (graphOf archive classes).callers.Nodup := by
  have htallies := Roster.tallies_recordAll (calls classes)
  exact (callers_perm archive _).nodup_iff.mpr (Roster.callers_nodup htallies.indexed)

theorem mem_callers_graphOf {archive : String} {classes : List DecodedClass} {caller : String} :
    caller ∈ (graphOf archive classes).callers ↔
      caller ∈ (calls classes).map fun entry => topLevel entry.1 := by
  have htallies := Roster.tallies_recordAll (calls classes)
  rw [graphOf, ← calls, (callers_perm archive _).mem_iff, htallies.callers, List.mem_eraseDups]

theorem mem_keys_graphOf {archive : String} {classes : List DecodedClass} {record : CallRecord}
    (hrecord : record ∈ (graphOf archive classes).records) (callee : String) :
    callee ∈ record.outbound.keys ↔ 0 < callsBetween (calls classes) record.caller callee := by
  obtain ⟨before, hbefore, rfl⟩ := exists_of_mem_records hrecord
  exact ((Roster.tallies_recordAll (calls classes)).records before hbefore).listed callee

theorem shows_graphOf (archive : String) {classes : List DecodedClass}
    (hsize : (classes.map fun entry => entry.references.length).sum < UInt64.size) :
    (graphOf archive classes).Shows ((calls classes).map fun entry => topLevel entry.1)
      (callsBetween (calls classes)) (callsInto (calls classes)) := by
  have hseen : ((calls classes).map fun entry => entry.2.length).sum < UInt64.size := by
    rwa [calls, List.map_map]
  have hexact := Roster.exact_of_tallies (Roster.tallies_recordAll (calls classes)) hseen
  have htotal := Roster.toNat_count_totalOutbound hexact hseen
  have hdistinct := nodup_callers_graphOf archive classes
  have hnames (caller : String) := @mem_callers_graphOf archive classes caller
  have hlisted (record : CallRecord) (hrecord : record ∈ (graphOf archive classes).records) :=
    mem_keys_graphOf hrecord
  have hcounts : ∀ record ∈ (graphOf archive classes).records, ∀ callee,
      (record.callsTo callee).toNat = callsBetween (calls classes) record.caller callee := by
    intro record hrecord
    obtain ⟨before, hbefore, rfl⟩ := exists_of_mem_records hrecord
    exact hexact.counts before hbefore
  have hinbound : ∀ record ∈ (graphOf archive classes).records,
      record.inbound.toNat = callsInto (calls classes) record.caller := by
    intro record hrecord
    obtain ⟨before, -, rfl⟩ := exists_of_mem_records hrecord
    exact htotal before.caller
  exact ⟨hdistinct, hnames, hcounts, hinbound,
    CallGraph.mem_edges_iff hnames hcounts hlisted hinbound, CallGraph.pairs_nodup hdistinct⟩

end Survey

end CallCensus
