import CallCensus.Proofs.CallGraph.Search
import CallCensus.Proofs.Census.Aggregation
import CallCensus.Proofs.Census.Policies
import Mathlib.Data.List.Nodup

namespace CallCensus

open ClassName

-- Where every caller has one record only, it is found by its caller.
theorem CallGraph.find?_caller_of_mem {graph : CallGraph} (hdistinct : graph.callers.Nodup)
    {record : CallRecord} (hmem : record ∈ graph.records) :
    graph.find? record.caller = some record := by
  obtain ⟨found, hfound⟩ := find?_complete hmem
  obtain ⟨hlisted, hcaller⟩ := find?_sound hfound
  rw [hfound, List.inj_on_of_nodup_map hdistinct hlisted hmem hcaller]

namespace Survey

variable {Content : Type} {policy : Policy} {decoder : Decoder Content} {source : Source Content}
  {path : String} {entries : List (ClassEntry Content)} {graph : CallGraph} {skipped : Nat}

-- Under either policy a graph shows all entries that can be read. Where malformed entries are not
-- left out, there was none.
theorem graph_eq_graphOf (hlisted : (source.list path).entries = .ok entries)
    (hbuilt : (build policy decoder source path).outcome = .ok (graph, skipped)) :
    graph = graphOf path (readable decoder entries) := by
  cases policy with
  | skip =>
      rw [outcome_build_skip hlisted] at hbuilt
      exact (Prod.mk.inj (Except.ok.inj hbuilt)).1.symm
  | abort =>
      rcases accepts_or_first_rejected decoder entries with
        haccepts | ⟨before, entry, after, cause, rfl, hbefore, hentry⟩
      · rw [outcome_build_of_accepts hlisted haccepts] at hbuilt
        exact (Prod.mk.inj (Except.ok.inj hbuilt)).1.symm
      · rw [outcome_build_abort hlisted hbefore hentry] at hbuilt
        cases hbuilt

theorem topLevel_mem_callers {archive : String} {entry : ClassEntry Content}
    (hentry : entry ∈ entries) {decoded : DecodedClass}
    (hdecoded : decoder entry.content = .ok decoded) :
    topLevel decoded.name ∈ (graphOf archive (readable decoder entries)).callers := by
  have hread : decoded ∈ readable decoder entries :=
    List.mem_filterMap.mpr ⟨entry, hentry, by rw [hdecoded]; rfl⟩
  rw [mem_callers_graphOf, calls, List.map_map]
  exact List.mem_map_of_mem hread

-- The callers of a graph are names of top-level classes.
theorem separator_notMem_caller {archive : String} {classes : List DecodedClass}
    {record : CallRecord} (h : record ∈ (graphOf archive classes).records) :
    separator ∉ record.caller.toList.tail := by
  obtain ⟨entry, -, hentry⟩ := List.mem_map.mp
    (mem_callers_graphOf.mp (List.mem_map_of_mem h))
  exact hentry ▸ Roster.separator_notMem_topLevel entry.1

-- A search finds a record of exactly the name that is looked for, if there is one. In the graph of
-- an archive it finds the only record of every class by the name of its top-level class, and
-- nothing by the name of a nested class.
theorem find?_exact (policy : Policy) (decoder : Decoder Content) (source : Source Content)
    (path : String) :
    (∀ archive records name,
      (((CallGraph.ofRecords archive records).find? name).isSome ↔
        ∃ record ∈ records, record.caller = name) ∧
      ∀ record, (CallGraph.ofRecords archive records).find? name = some record →
        record ∈ records ∧ record.caller = name) ∧
    ∀ entries graph skipped, (source.list path).entries = .ok entries →
      (build policy decoder source path).outcome = .ok (graph, skipped) →
      (∀ entry ∈ entries, ∀ decoded, decoder entry.content = .ok decoded →
        ∃ record ∈ graph.records, graph.find? (topLevel decoded.name) = some record ∧
          ∀ other ∈ graph.records, other.caller = topLevel decoded.name ↔ other = record) ∧
      ∀ name : String, separator ∈ name.toList.tail → graph.find? name = none := by
  constructor
  · intro archive records name
    constructor
    · simp only [CallGraph.isSome_find?_iff, CallGraph.mem_records_ofRecords]
    · intro record h
      obtain ⟨hmem, hcaller⟩ := CallGraph.find?_sound h
      exact ⟨CallGraph.mem_records_ofRecords.mp hmem, hcaller⟩
  · intro entries graph skipped hlisted hbuilt
    obtain rfl := graph_eq_graphOf hlisted hbuilt
    have hdistinct := nodup_callers_graphOf path (readable decoder entries)
    constructor
    · intro entry hentry decoded hdecoded
      obtain ⟨record, hmem, hcaller⟩ := List.mem_map.mp (topLevel_mem_callers hentry hdecoded)
      refine ⟨record, hmem, hcaller ▸ CallGraph.find?_caller_of_mem hdistinct hmem,
        fun other hother => ?_⟩
      constructor
      · intro hname
        exact List.inj_on_of_nodup_map hdistinct hother hmem (hname.trans hcaller.symm)
      · rintro rfl
        exact hcaller
    · intro name hnested
      apply Option.eq_none_iff_forall_ne_some.mpr
      rintro record hfound
      obtain ⟨hmem, rfl⟩ := CallGraph.find?_sound hfound
      exact separator_notMem_caller hmem hnested

-- Among three records two have one caller, and a nested class is looked for in an archive that has
-- it beside its top-level class and a malformed entry.
theorem find?_exact_nested :
    let first : CallRecord := ⟨"é", .empty, 1⟩
    let second : CallRecord := ⟨"B", .empty, 2⟩
    let third : CallRecord := ⟨"é", .empty, 3⟩
    let entries : List (ClassEntry (Except DecodeError DecodedClass)) :=
      [⟨"A$1.class", .ok ⟨"A$1", ["B"]⟩⟩, ⟨"bad.class", .error (.badMagic 0)⟩,
        ⟨"A.class", .ok ⟨"A", []⟩⟩]
    let graph := graphOf "a.jar" [⟨"A$1", ["B"]⟩, ⟨"A", []⟩]
    ((CallGraph.ofRecords "a.jar" [first, second, third]).find? "é").isSome ∧
      ¬ ((CallGraph.ofRecords "a.jar" [first, second, third]).find? "é$1").isSome ∧
      (build .skip id ⟨fun _ => true, fun _ => ⟨[], .ok entries⟩⟩ "a.jar").outcome =
        .ok (graph, 1) ∧
      (∃ record ∈ graph.records, graph.find? "A" = some record) ∧
      graph.find? "A$1" = none := by
  intro first second third entries graph
  obtain ⟨hlist, hgraph⟩ :=
    find?_exact .skip id ⟨fun _ => true, fun _ => ⟨[], .ok entries⟩⟩ "a.jar"
  obtain ⟨hfound, hnone⟩ := hgraph entries graph 1 rfl rfl
  obtain ⟨record, hmem, hrecord, -⟩ := hfound ⟨"A$1.class", .ok ⟨"A$1", ["B"]⟩⟩ (by decide) _ rfl
  refine ⟨(hlist _ _ _).1.mpr ⟨first, by decide, rfl⟩, ?_, rfl, ⟨record, hmem, ?_⟩,
    hnone "A$1" (by decide)⟩
  · rw [(hlist _ _ _).1]
    decide
  · have hname : topLevel "A$1" = "A" := by decide
    rwa [hname] at hrecord

end Survey

end CallCensus
