import CallCensus.Proofs.Census.Aggregation
import CallCensus.Proofs.Census.Decoding
import Mathlib.Algebra.Order.BigOperators.Group.List
import Mathlib.Algebra.Order.Group.Nat

namespace CallCensus

namespace CallCounts

theorem mem_keys_foldl_add {entries : List (String × UInt64)} {totals : CallCounts} {key : String} :
    key ∈ (entries.foldl (fun totals entry => totals.add entry.1 entry.2) totals).keys ↔
      key ∈ totals.keys ∨ key ∈ entries.map (·.1) := by
  induction entries generalizing totals with
  | nil => simp
  | cons entry entries ih =>
      rw [List.foldl_cons, ih, mem_keys_add, List.map_cons, List.mem_cons, or_assoc, or_left_comm]

theorem mem_keys_merge {totals counts : CallCounts} {key : String} :
    key ∈ (totals.merge counts).keys ↔ key ∈ totals.keys ∨ key ∈ counts.keys :=
  mem_keys_foldl_add

-- A class is listed once at most, so its entries amount to its count.
theorem sum_entries_eq_lookup {entries : List (String × UInt64)}
    (hsorted : entries.Pairwise fun a b => a.1 < b.1) (key : String) :
    ((entries.filter (·.1 = key)).map (·.2.toNat)).sum = ((entries.lookup key).getD 0).toNat := by
  induction entries with
  | nil => rfl
  | cons entry rest ih =>
      obtain ⟨hfirst, hrest⟩ := List.pairwise_cons.mp hsorted
      obtain ⟨name, count⟩ := entry
      rw [lookup_cons_eq_ite]
      by_cases hkey : key = name
      · have hnone : rest.lookup key = none := lookup_eq_none_of_lt (hkey ▸ hfirst)
        have hzero := ih hrest
        rw [hnone, Option.getD_none, UInt64.toNat_zero] at hzero
        simp only [List.filter_cons, hkey.symm, decide_true, if_true, List.map_cons, List.sum_cons,
          Option.getD_some]
        rw [hzero, Nat.add_zero]
      · simp only [List.filter_cons, decide_eq_true_eq, if_neg hkey, if_neg (Ne.symm hkey)]
        exact ih hrest

end CallCounts

-- How many calls some edges lead to a class, in all.
def Edge.received (edges : List Edge) (callee : String) : Nat :=
  ((edges.filter (·.callee = callee)).map (·.count.toNat)).sum

theorem Edge.received_le (edges : List Edge) (callee : String) :
    received edges callee ≤ (edges.map (·.count.toNat)).sum := by
  have hsublist := (List.filter_sublist (p := (·.callee = callee)) (l := edges)).map (·.count.toNat)
  exact hsublist.sum_le_sum fun _ _ => Nat.zero_le _

namespace CallRecord

-- How many calls some records make to a class, in all.
def received (records : List CallRecord) (callee : String) : Nat :=
  (records.map fun record => (record.callsTo callee).toNat).sum

theorem mem_keys_foldl_merge {records : List CallRecord} {totals : CallCounts} {key : String} :
    key ∈ (records.foldl (fun totals record => totals.merge record.outbound) totals).keys ↔
      key ∈ totals.keys ∨ ∃ record ∈ records, key ∈ record.outbound.keys := by
  induction records generalizing totals with
  | nil => simp
  | cons record records ih =>
      rw [List.foldl_cons, ih, CallCounts.mem_keys_merge, List.exists_mem_cons_iff, or_assoc]

theorem mem_keys_totalOutbound {records : List CallRecord} {key : String} :
    key ∈ (totalOutbound records).keys ↔ ∃ record ∈ records, key ∈ record.outbound.keys := by
  rw [totalOutbound, mem_keys_foldl_merge, CallCounts.keys_empty]
  simp

theorem toNat_count_totalOutbound {records : List CallRecord} {key : String}
    (h : received records key < UInt64.size) :
    ((totalOutbound records).count key).toNat = received records key := by
  rw [count_totalOutbound]
  exact UInt64.toNat_ofNat_of_lt' h

-- The totals do not depend on what was attached to the records before.
theorem totalOutbound_withInbound (records : List CallRecord) :
    totalOutbound (withInbound records) = totalOutbound records := by
  rw [withInbound, totalOutbound, List.foldl_map]
  rfl

theorem received_withInbound (records : List CallRecord) (callee : String) :
    received (withInbound records) callee = received records callee := by
  rw [received, withInbound, List.map_map]
  rfl

theorem withInbound_idem (records : List CallRecord) :
    withInbound (withInbound records) = withInbound records := by
  rw [withInbound, totalOutbound_withInbound, withInbound, List.map_map]
  rfl

theorem received_edges (record : CallRecord) (callee : String) :
    Edge.received record.edges callee = (record.callsTo callee).toNat := by
  rw [Edge.received, edges, List.filter_map, List.map_map]
  exact CallCounts.sum_entries_eq_lookup record.outbound.sorted callee

-- The calls into a class are the same ones, whether they are looked up in records or in edges.
theorem received_flatMap_edges (records : List CallRecord) (callee : String) :
    Edge.received (records.flatMap edges) callee = received records callee := by
  induction records with
  | nil => rfl
  | cons record records ih =>
      unfold Edge.received received at ih ⊢
      rw [List.flatMap_cons, List.filter_append, List.map_append, List.sum_append, ih,
        List.map_cons, List.sum_cons, ← received_edges, Edge.received]

end CallRecord

namespace CallGraph

theorem received_edges (graph : CallGraph) (callee : String) :
    Edge.received graph.edges callee = CallRecord.received graph.records callee :=
  CallRecord.received_flatMap_edges graph.records callee

theorem received_edges_ofRecords (archive : String) (records : List CallRecord) (callee : String) :
    Edge.received (ofRecords archive (CallRecord.withInbound records)).edges callee =
      CallRecord.received records callee := by
  have hperm := (List.mergeSort_perm (CallRecord.withInbound records) callerLE).map
    fun record => (record.callsTo callee).toNat
  rw [received_edges, ← CallRecord.received_withInbound records]
  exact hperm.sum_eq

-- In a graph of records whose totals were attached, every edge tells how many calls lead back to
-- its caller.
theorem inbound_eq_received {archive : String} {records : List CallRecord}
    (h : ∀ name, CallRecord.received records name < UInt64.size) {edge : Edge}
    (hedge : edge ∈ (ofRecords archive (CallRecord.withInbound records)).edges) :
    edge.inbound.toNat =
      Edge.received (ofRecords archive (CallRecord.withInbound records)).edges edge.caller := by
  obtain ⟨record, hrecord, entry, -, rfl⟩ := mem_edges.mp hedge
  obtain ⟨before, -, rfl⟩ := List.mem_map.mp (mem_records_ofRecords.mp hrecord)
  rw [received_edges_ofRecords]
  exact CallRecord.toNat_count_totalOutbound (h before.caller)

end CallGraph

namespace CallRecord

-- The inbound count of a record is the number of calls that all records make to its class, and
-- nothing else about the records changes. So it is in every graph that is built from an archive:
-- the edges that lead to a class amount to the inbound count that its own edges tell.
theorem withInbound_consistent {records : List CallRecord}
    (h : ∀ name, received records name < UInt64.size) :
    (∀ name, name ∈ (totalOutbound records).keys ↔
      ∃ record ∈ records, name ∈ record.outbound.keys) ∧
    (∀ entry ∈ (totalOutbound records).entries, entry.2.toNat = received records entry.1) ∧
    List.Forall₂ (fun before after => after.caller = before.caller ∧
      after.outbound = before.outbound ∧ after.inbound.toNat = received records before.caller)
      records (withInbound records) ∧
    withInbound (withInbound records) = withInbound records ∧
    ∀ (Content : Type) (policy : Policy) (decoder : Decoder Content) (source : Source Content)
      (path : String) (graph : CallGraph) (skipped : Nat),
      (Survey.build policy decoder source path).outcome = .ok (graph, skipped) →
      (∀ name, Edge.received graph.edges name < UInt64.size) →
      ∀ edge ∈ graph.edges, edge.inbound.toNat = Edge.received graph.edges edge.caller := by
  refine ⟨fun _ => mem_keys_totalOutbound, ?_, ?_, withInbound_idem records, ?_⟩
  · intro entry hentry
    rw [← CallCounts.count_of_mem hentry]
    exact toNat_count_totalOutbound (h entry.1)
  · rw [withInbound, List.forall₂_map_right_iff, List.forall₂_same]
    intro record _
    exact ⟨rfl, rfl, toNat_count_totalOutbound (h record.caller)⟩
  · intro Content policy decoder source path graph skipped hbuilt hbound edge hedge
    obtain ⟨classes, rfl⟩ := Survey.exists_graphOf_of_build hbuilt
    refine CallGraph.inbound_eq_received (fun name => ?_) hedge
    rw [← CallGraph.received_edges_ofRecords path]
    exact hbound name

theorem withInbound_consistent_mutual :
    let records : List CallRecord := [⟨"A", ⟨[("A", 1), ("B", 2)], by decide⟩, 7⟩,
      ⟨"A", ⟨[("B", 1), ("C", 5)], by decide⟩, 0⟩, ⟨"B", .empty, 0⟩, ⟨"D", .empty, 9⟩]
    let classes : List DecodedClass := [⟨"A", ["B", "C", "A"]⟩, ⟨"B", ["A", "A$1"]⟩]
    let source : Source DecodedClass := ⟨fun _ => true, fun _ => ⟨[], .ok (classes.map (⟨"", ·⟩))⟩⟩
    let graph := Survey.graphOf "a.jar" classes
    (∀ name, received records name < UInt64.size) ∧
      (withInbound records).map (·.inbound.toNat) = [1, 1, 3, 0] ∧
      withInbound (withInbound records) = withInbound records ∧
      (Survey.build .abort .ok source "a.jar").outcome = .ok (graph, 0) ∧
      (∀ name, Edge.received graph.edges name < UInt64.size) ∧
      graph.edges = [⟨"A", 3, "A", 1⟩, ⟨"A", 3, "B", 1⟩, ⟨"A", 3, "C", 1⟩, ⟨"B", 1, "A", 2⟩] ∧
      ∀ edge ∈ graph.edges, edge.inbound.toNat = Edge.received graph.edges edge.caller := by
  intro records classes source graph
  have hrecords (name : String) : received records name < UInt64.size := by
    rw [← received_flatMap_edges]
    exact Nat.lt_of_le_of_lt (Edge.received_le ..) (by decide)
  have hbuilt : (Survey.build .abort .ok source "a.jar").outcome = .ok (graph, 0) := rfl
  have hedges : graph.edges =
      [⟨"A", 3, "A", 1⟩, ⟨"A", 3, "B", 1⟩, ⟨"A", 3, "C", 1⟩, ⟨"B", 1, "A", 2⟩] := by
    rw [CallGraph.edges, show graph.records = _ from List.mergeSort_of_pairwise (by decide +kernel)]
    decide +kernel
  have hgraph (name : String) : Edge.received graph.edges name < UInt64.size := by
    rw [hedges]
    exact Nat.lt_of_le_of_lt (Edge.received_le ..) (by decide)
  obtain ⟨-, -, -, hagain, hpipeline⟩ := withInbound_consistent hrecords
  exact ⟨hrecords, by decide +kernel, hagain, hbuilt, hgraph, hedges,
    hpipeline _ _ _ _ _ _ _ hbuilt hgraph⟩

end CallRecord

end CallCensus
