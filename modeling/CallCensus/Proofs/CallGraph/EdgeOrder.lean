import CallCensus.CallGraph.Graph
import CallCensus.Proofs.Text.ByteOrder
import Mathlib.Data.List.Nodup
import Mathlib.Data.List.Perm.Basic

namespace CallCensus

open Utf8

-- An edge comes before another by the bytes of its caller, and then by those of its callee.
def Edge.Before (edge other : Edge) : Prop :=
  Utf8.Before edge.caller other.caller ∨
    edge.caller = other.caller ∧ Utf8.Before edge.callee other.callee

-- Edges that list the calls of a record: each of its entries once, in the order of the callees.
structure CallRecord.ListedAs (record : CallRecord) (edges : List Edge) : Prop where
  caller : ∀ edge ∈ edges, edge.caller = record.caller
  inbound : ∀ edge ∈ edges, edge.inbound = record.inbound
  calls : ∀ callee count, (∃ edge ∈ edges, edge.callee = callee ∧ edge.count = count) ↔
    (callee, count) ∈ record.outbound.entries
  increasing : edges.Pairwise fun edge later => Utf8.Before edge.callee later.callee

theorem CallRecord.listedAs_edges (record : CallRecord) : record.ListedAs record.edges where
  caller edge hedge := by
    obtain ⟨entry, -, rfl⟩ := List.mem_map.mp hedge
    rfl
  inbound edge hedge := by
    obtain ⟨entry, -, rfl⟩ := List.mem_map.mp hedge
    rfl
  calls callee count := by
    constructor
    · rintro ⟨edge, hedge, rfl, rfl⟩
      obtain ⟨entry, hentry, rfl⟩ := List.mem_map.mp hedge
      exact hentry
    · intro hentry
      exact ⟨_, List.mem_map_of_mem hentry, rfl, rfl⟩
  increasing := List.pairwise_map.mpr (record.outbound.sorted.imp before_of_lt)

namespace CallGraph

variable {records others : List CallRecord}

-- The number of edges is told without making them.
theorem edgeCount_eq_length_edges (graph : CallGraph) : graph.edgeCount = graph.edges.length := by
  unfold edgeCount edges
  induction graph.records with
  | nil => rfl
  | cons record records ih =>
      rw [List.foldr_cons, ih, List.flatMap_cons, List.length_append, CallRecord.edges,
        List.length_map]

-- Records of one caller are in order as they stand, so they are not moved past each other.
theorem filter_caller_mergeSort (records : List CallRecord) (name : String) :
    (records.mergeSort callerLE).filter (·.caller = name) = records.filter (·.caller = name) := by
  have hequal : (records.filter (·.caller = name)).Pairwise fun a b => callerLE a b := by
    apply List.pairwise_of_forall_mem_list
    intro record hrecord other hother
    have hcaller : record.caller = name := by simpa using (List.mem_filter.mp hrecord).2
    have hsame : other.caller = name := by simpa using (List.mem_filter.mp hother).2
    rw [callerLE, hcaller, hsame]
    exact decide_eq_true (String.le_refl name)
  have hsublist := (List.sublist_mergeSort callerLE_trans callerLE_total hequal
    List.filter_sublist).filter (·.caller = name)
  have hlength := ((List.mergeSort_perm records callerLE).filter (·.caller = name)).length_eq
  rw [List.filter_filter] at hsublist
  simp only [Bool.and_self] at hsublist
  exact (hsublist.eq_of_length hlength.symm).symm

-- Where callers are distinct their order leaves no choice, however the records are given.
theorem ofRecords_eq_of_perm (archive : String) (hdistinct : (records.map (·.caller)).Nodup)
    (h : others.Perm records) : ofRecords archive others = ofRecords archive records := by
  have hperm : (others.mergeSort callerLE).Perm (records.mergeSort callerLE) :=
    (List.mergeSort_perm ..).trans (h.trans (List.mergeSort_perm ..).symm)
  have hsorted : others.mergeSort callerLE = records.mergeSort callerLE := by
    refine hperm.eq_of_pairwise ?_ (pairwise_mergeSort_callerLE others)
      (pairwise_mergeSort_callerLE records)
    intro record other hrecord hother hle hge
    have hrecord := h.mem_iff.mp (List.mem_mergeSort.mp hrecord)
    have hother := List.mem_mergeSort.mp hother
    exact List.inj_on_of_nodup_map hdistinct hrecord hother (String.le_antisymm hle hge)
  simp only [ofRecords, hsorted]

theorem edges_increasing {graph : CallGraph} (hdistinct : (graph.records.map (·.caller)).Nodup) :
    graph.edges.Pairwise Edge.Before := by
  have hne : graph.records.Pairwise fun record later => record.caller ≠ later.caller :=
    List.pairwise_map.mp hdistinct
  refine List.pairwise_flatMap.mpr ⟨fun record _ => ?_, ?_⟩
  · obtain ⟨hcaller, -, -, hincreasing⟩ := record.listedAs_edges
    refine hincreasing.imp_of_mem fun hedge hlater hcallee => .inr ⟨?_, hcallee⟩
    rw [hcaller _ hedge, hcaller _ hlater]
  · refine (graph.ordered.and hne).imp fun {record later} hboth edge hedge other hother => .inl ?_
    rw [record.listedAs_edges.caller edge hedge, later.listedAs_edges.caller other hother]
    exact before_of_lt (Std.lt_of_le_of_ne hboth.1 hboth.2)

-- A graph holds the records it is made of, by their callers in the order of bytes, and those of one
-- caller as they were given. Its edges are the entries of its records, one record after the other.
-- If no two records have one caller then no two edges are alike, and the edges stand in the order of
-- bytes as well, whatever the order the records were given in.
theorem ofRecords_arranges (archive : String) (records : List CallRecord) :
    let graph := ofRecords archive records
    graph.archive = archive ∧ graph.records.Perm records ∧
    graph.records.Pairwise (fun record later => ¬ Utf8.Before later.caller record.caller) ∧
    (∀ name, graph.records.filter (·.caller = name) = records.filter (·.caller = name)) ∧
    graph.edgeCount = graph.edges.length ∧
    (∃ parts, List.Forall₂ CallRecord.ListedAs graph.records parts ∧
      graph.edges = parts.flatten) ∧
    ((records.map (·.caller)).Nodup → graph.edges.Pairwise Edge.Before ∧
      ∀ others, others.Perm records → ofRecords archive others = graph) := by
  intro graph
  have hperm : graph.records.Perm records := List.mergeSort_perm records callerLE
  refine ⟨rfl, hperm, ?_, filter_caller_mergeSort records, edgeCount_eq_length_edges graph, ?_, ?_⟩
  · exact graph.ordered.imp fun hle hbefore => String.not_lt.mpr hle (before_iff_lt.mp hbefore)
  · refine ⟨graph.records.map CallRecord.edges, ?_, List.flatMap_def⟩
    exact List.forall₂_map_right_iff.mpr
      (List.forall₂_same.mpr fun record _ => record.listedAs_edges)
  · intro hdistinct
    have hcallers : (graph.records.map (·.caller)).Nodup :=
      (hperm.map (·.caller)).nodup_iff.mpr hdistinct
    exact ⟨edges_increasing hcallers, fun others h => ofRecords_eq_of_perm archive hdistinct h⟩

-- The second caller is the greater one in UTF-16, where it is written as two surrogates, but not in
-- bytes.
theorem ofRecords_arranges_astral :
    let first : CallRecord := ⟨"😀", ⟨[("A", 1), ("Z", 2)], by decide⟩, 3⟩
    let second : CallRecord := ⟨"\uFFFD", ⟨[("A", 4)], by decide⟩, 0⟩
    ([first, second].map (·.caller)).Nodup ∧ [second, first].Perm [first, second] ∧
      (ofRecords "a.jar" [first, second]).edges.Pairwise Edge.Before ∧
      (ofRecords "a.jar" [first, second]).edges =
        [⟨"\uFFFD", 0, "A", 4⟩, ⟨"😀", 3, "A", 1⟩, ⟨"😀", 3, "Z", 2⟩] ∧
      ofRecords "a.jar" [second, first] = ofRecords "a.jar" [first, second] := by
  intro first second
  have hdistinct : ([first, second].map (·.caller)).Nodup := by decide
  have hperm : [second, first].Perm [first, second] := .swap first second []
  obtain ⟨-, -, -, -, -, -, hordered⟩ := ofRecords_arranges "a.jar" [first, second]
  obtain ⟨hincreasing, hpermuted⟩ := hordered hdistinct
  have hsorted : (ofRecords "a.jar" [second, first]).records = [second, first] :=
    List.mergeSort_of_pairwise (by decide +kernel)
  have hedges : (ofRecords "a.jar" [first, second]).edges =
      [⟨"\uFFFD", 0, "A", 4⟩, ⟨"😀", 3, "A", 1⟩, ⟨"😀", 3, "Z", 2⟩] := by
    rw [← hpermuted _ hperm, edges, hsorted]
    rfl
  exact ⟨hdistinct, hperm, hincreasing, hedges, hpermuted _ hperm⟩

end CallGraph

end CallCensus
