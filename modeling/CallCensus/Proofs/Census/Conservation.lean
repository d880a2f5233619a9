import CallCensus.Proofs.Census.Consistency
import CallCensus.Proofs.Census.Tables

namespace CallCensus

open ClassName

namespace CallCounts

variable {counts other : CallCounts}

theorem mem_entries_iff {entry : String × UInt64} :
    entry ∈ counts.entries ↔ entry.1 ∈ counts.keys ∧ counts.count entry.1 = entry.2 := by
  constructor
  · intro hentry
    exact ⟨List.mem_map_of_mem hentry, count_of_mem hentry⟩
  · rintro ⟨hkey, hcount⟩
    obtain ⟨listed, hlisted, hname⟩ := List.mem_map.mp hkey
    rw [← hname, count_of_mem hlisted] at hcount
    rwa [← Prod.ext hname hcount]

theorem eq_of_counts (hkeys : ∀ key, key ∈ counts.keys ↔ key ∈ other.keys)
    (hcounts : ∀ key, counts.count key = other.count key) : counts = other := by
  have hentries : counts.entries = other.entries := by
    apply eq_of_mem_iff_of_sorted counts.sorted other.sorted
    intro entry
    rw [mem_entries_iff, mem_entries_iff, hkeys, hcounts]
  obtain ⟨entries, hsorted⟩ := counts
  obtain ⟨others, hothers⟩ := other
  subst hentries
  rfl

theorem nodup_keys (counts : CallCounts) : counts.keys.Nodup := by
  apply List.pairwise_map.mpr
  apply counts.sorted.imp
  intro entry later hlt heq
  exact String.lt_irrefl _ (heq ▸ hlt)

end CallCounts

namespace CallRecord

variable {records others : List CallRecord} {targets : List String}

-- Records that among them hold one call to each of these classes, and no other.
structure Account (targets : List String) (records : List CallRecord) : Prop where
  listed : ∀ key, (∃ record ∈ records, key ∈ record.outbound.keys) ↔ key ∈ targets
  counts : ∀ key, received records key = targets.count key

-- What is counted is listed, so only the other direction has to be seen to.
theorem account_of_counts
    (hlisted : ∀ record ∈ records, ∀ key ∈ record.outbound.keys, 0 < (record.callsTo key).toNat)
    (hcounts : ∀ key, received records key = targets.count key) : Account targets records where
  listed key := by
    rw [← List.count_pos_iff, ← hcounts, received, List.sum_pos_iff_exists_pos_nat]
    constructor
    · rintro ⟨record, hrecord, hkey⟩
      exact ⟨_, List.mem_map_of_mem hrecord, hlisted record hrecord key hkey⟩
    · rintro ⟨_, hmem, hpos⟩
      obtain ⟨record, hrecord, rfl⟩ := List.mem_map.mp hmem
      exact ⟨record, hrecord, List.mem_map_of_mem (CallCounts.mem_entries_of_count_pos hpos)⟩
  counts := hcounts

theorem Account.perm (h : Account targets records) (hperm : records.Perm others) :
    Account targets others where
  listed key := by
    rw [← h.listed key]
    simp only [hperm.mem_iff]
  counts key := by
    rw [← h.counts key]
    exact (hperm.map fun record => (record.callsTo key).toNat).sum_eq.symm

theorem Account.withInbound (h : Account targets records) :
    Account targets (withInbound records) where
  listed key := by
    rw [← h.listed key, CallRecord.withInbound]
    simp
  counts key := by rw [received_withInbound, h.counts]

-- The totals depend on the calls alone, not on how they are shared out among records.
theorem Account.totalOutbound_eq (h : Account targets records) (hothers : Account targets others) :
    totalOutbound records = totalOutbound others := by
  apply CallCounts.eq_of_counts
  · intro key
    rw [mem_keys_totalOutbound, mem_keys_totalOutbound, h.listed, hothers.listed]
  · intro key
    rw [count_totalOutbound, count_totalOutbound]
    exact congrArg UInt64.ofNat ((h.counts key).trans (hothers.counts key).symm)

-- Every call is in one of the totals, and in one only.
theorem Account.sum_totalOutbound (h : Account targets records)
    (hsize : targets.length < UInt64.size) :
    ((totalOutbound records).entries.map (·.2.toNat)).sum = targets.length := by
  have hvalues : (totalOutbound records).entries.map (·.2.toNat) =
      (totalOutbound records).keys.map targets.count := by
    rw [CallCounts.keys, List.map_map]
    apply List.map_congr_left
    intro entry hentry
    have hbound : received records entry.1 < UInt64.size := by
      rw [h.counts]
      exact Nat.lt_of_le_of_lt List.count_le_length hsize
    rw [Function.comp_apply, ← h.counts, ← toNat_count_totalOutbound hbound,
      CallCounts.count_of_mem hentry]
  rw [hvalues]
  apply sum_count_eq_length (CallCounts.nodup_keys _)
  intro key hkey
  exact mem_keys_totalOutbound.mpr ((h.listed key).mpr hkey)

end CallRecord

namespace Survey

-- The top-level classes that calls go to, once for each call.
def targets (classes : List DecodedClass) : List String :=
  classes.flatMap fun entry => entry.references.map topLevel

-- A record for each class, as it is before records of one caller are merged.
def unmerged (classes : List DecodedClass) : List CallRecord :=
  classes.map fun entry => (CallRecord.ofCaller entry.name).observeAll entry.references

theorem length_targets (classes : List DecodedClass) :
    (targets classes).length = (classes.map fun entry => entry.references.length).sum := by
  simp [targets, List.length_flatMap]

theorem callsAmong_eq_count (callees : List String) (key : String) :
    CallRecord.callsAmong callees key = (callees.map topLevel).count key := by
  rw [List.count_eq_countP, List.countP_map, CallRecord.callsAmong]
  apply List.countP_congr
  intro callee _
  simp

theorem count_targets (classes : List DecodedClass) (callee : String) :
    (targets classes).count callee =
      (classes.map fun entry => CallRecord.callsAmong entry.references callee).sum := by
  simp only [targets, List.count_flatMap, Function.comp_def, callsAmong_eq_count]

theorem callsInto_eq_count (classes : List DecodedClass) (callee : String) :
    callsInto (calls classes) callee = (targets classes).count callee := by
  rw [callsInto_eq_sum, count_targets, calls, List.map_map]
  rfl

section Accounts

variable {classes : List DecodedClass}
  (hsize : (classes.map fun entry => entry.references.length).sum < UInt64.size)

include hsize

theorem toNat_callsTo_unmerged {entry : DecodedClass} (hentry : entry ∈ classes) (key : String) :
    (((CallRecord.ofCaller entry.name).observeAll entry.references).callsTo key).toNat =
      CallRecord.callsAmong entry.references key := by
  have hlength : entry.references.length ∈ classes.map fun entry => entry.references.length :=
    List.mem_map_of_mem hentry
  have hle : CallRecord.callsAmong entry.references key ≤ entry.references.length :=
    List.countP_le_length
  have hsum := List.le_sum_of_mem hlength
  rw [CallRecord.callsTo_observeAll, CallRecord.callsTo, CallRecord.ofCaller,
    CallCounts.count_empty, UInt64.zero_add]
  exact UInt64.toNat_ofNat_of_lt' (by omega)

theorem account_unmerged : CallRecord.Account (targets classes) (unmerged classes) := by
  apply CallRecord.account_of_counts
  · intro record hrecord key hkey
    obtain ⟨entry, hentry, rfl⟩ := List.mem_map.mp hrecord
    rw [CallRecord.mem_keys_observeAll, CallRecord.ofCaller, CallCounts.keys_empty] at hkey
    rw [toNat_callsTo_unmerged hsize hentry]
    simpa using hkey
  · intro key
    rw [count_targets, CallRecord.received, unmerged, List.map_map]
    congr 1
    exact List.map_congr_left fun entry hentry => toNat_callsTo_unmerged hsize hentry key

theorem exact_roster : Roster.Exact (calls classes) (Roster.empty.recordAll (calls classes)) := by
  apply Roster.exact_of_tallies (Roster.tallies_recordAll (calls classes))
  rwa [calls, List.map_map]

-- The records that are merged hold the same calls.
theorem account_merged :
    CallRecord.Account (targets classes) (Roster.empty.recordAll (calls classes)).records := by
  have hexact := exact_roster hsize
  apply CallRecord.account_of_counts
  · intro record hrecord key hkey
    obtain ⟨entry, hentry, rfl⟩ := List.mem_map.mp hkey
    rw [CallRecord.callsTo, CallCounts.count_of_mem hentry]
    exact UInt64.le_iff_toNat_le.mp (hexact.positive record hrecord entry hentry)
  · intro key
    rw [← callsInto_eq_count, ← Roster.sum_callsTo hexact, CallRecord.received]

theorem account_graphOf (archive : String) :
    CallRecord.Account (targets classes) (graphOf archive classes).records :=
  (account_merged hsize).withInbound.perm
    (List.mergeSort_perm _ CallGraph.callerLE).symm

-- Every call is in one edge, and in one only.
theorem sum_count_edges (archive : String) :
    ((graphOf archive classes).edges.map (·.count.toNat)).sum =
      (classes.map fun entry => entry.references.length).sum := by
  have hshows := shows_graphOf archive hsize
  have hcounts : (graphOf archive classes).edges.map (·.count.toNat) =
      (edgePairs archive classes).map fun pair => (foldedPairs classes).count pair := by
    rw [edgePairs, List.map_map]
    apply List.map_congr_left
    intro edge hedge
    rw [((hshows.edges edge).mp hedge).2.2.1, callsBetween_eq_count]
    rfl
  rw [hcounts, sum_count_eq_length (nodup_edgePairs archive classes) fun _ => mem_edgePairs_iff.mpr]
  simp [foldedPairs, List.length_flatMap]

-- Those calls go into a class of the archive that lead to one of its callers.
theorem sum_inbound (archive : String) :
    ((graphOf archive classes).records.map (·.inbound.toNat)).sum =
      (classes.flatMap (·.references)).countP (topLevel · ∈ callerNames classes) := by
  have hshows := shows_graphOf archive hsize
  have hinbound : (graphOf archive classes).records.map (·.inbound.toNat) =
      (graphOf archive classes).callers.map (targets classes).count := by
    rw [CallGraph.callers, List.map_map]
    apply List.map_congr_left
    intro record hrecord
    rw [hshows.inbound record hrecord, callsInto_eq_count]
    rfl
  rw [hinbound, sum_count_eq_countP hshows.distinct, targets, ← List.map_flatMap, List.countP_map]
  apply List.countP_congr
  intro callee _
  rw [Function.comp_apply, decide_eq_true_eq, decide_eq_true_eq, hshows.callers, callerNames_eq]

end Accounts

-- No call is lost on the way from the classes of an archive to its graph, and none is counted
-- twice: the edges amount to all calls, the totals as well, and the calls into the classes of the
-- archive to those that go to one of them. It makes no difference to the totals whether they are
-- taken from a record for each class, from the records that are merged, or from the graph.
theorem calls_conserved (archive : String) {classes : List DecodedClass}
    (hsize : (classes.map fun entry => entry.references.length).sum < UInt64.size) :
    let graph := graphOf archive classes
    let merged := (Roster.empty.recordAll (calls classes)).records
    let total := (classes.map fun entry => entry.references.length).sum
    (graph.edges.map (·.count.toNat)).sum = total ∧
    ((CallRecord.totalOutbound merged).entries.map (·.2.toNat)).sum = total ∧
    (graph.records.map (·.inbound.toNat)).sum =
      (classes.flatMap (·.references)).countP (topLevel · ∈ callerNames classes) ∧
    CallRecord.totalOutbound merged = CallRecord.totalOutbound (unmerged classes) ∧
    CallRecord.totalOutbound merged = CallRecord.totalOutbound graph.records := by
  intro graph merged total
  have hmerged := account_merged hsize
  refine ⟨sum_count_edges hsize archive, ?_, sum_inbound hsize archive,
    hmerged.totalOutbound_eq (account_unmerged hsize),
    hmerged.totalOutbound_eq (account_graphOf hsize archive)⟩
  rw [hmerged.sum_totalOutbound (by rwa [length_targets]), length_targets]

-- Two classes belong to one top-level class, which is called by itself, and one class that is called
-- is not in the archive.
theorem calls_conserved_nested :
    let classes : List DecodedClass := [⟨"A$1", ["B", "A", "A$2"]⟩, ⟨"B", []⟩, ⟨"A", ["C", "B$1"]⟩]
    let graph := graphOf "a.jar" classes
    (classes.map fun entry => entry.references.length).sum < UInt64.size ∧
      (graph.edges.map (·.count.toNat)).sum = 5 ∧
      (graph.records.map (·.inbound.toNat)).sum = 4 ∧
      (CallRecord.totalOutbound (unmerged classes)).entries = [("A", 2), ("B", 2), ("C", 1)] ∧
      CallRecord.totalOutbound graph.records = CallRecord.totalOutbound (unmerged classes) := by
  intro classes graph
  have hsize : (classes.map fun entry => entry.references.length).sum < UInt64.size := by decide
  obtain ⟨hedges, -, hinbound, hunmerged, hgraph⟩ := calls_conserved "a.jar" hsize
  have hcalled : (classes.flatMap (·.references)).countP (topLevel · ∈ callerNames classes) = 4 := by
    decide
  exact ⟨hsize, hedges, hinbound.trans hcalled, by decide +kernel, hgraph.symm.trans hunmerged⟩

end Survey

end CallCensus
