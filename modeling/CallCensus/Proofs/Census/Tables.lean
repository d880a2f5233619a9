import CallCensus.Proofs.CallGraph.EdgeOrder
import CallCensus.Proofs.Census.Regrouping
import CallCensus.Proofs.Census.Success
import CallCensus.Proofs.Report.Rows
import Mathlib.Algebra.BigOperators.Group.Finset.Basic
import Mathlib.Algebra.Order.BigOperators.Group.Finset

namespace CallCensus

namespace Survey

-- The calls from one top-level class to another, each such pair once.
def distinctPairs (classes : List DecodedClass) : Finset (String × String) :=
  (foldedPairs classes).toFinset

-- The newlines in the names of all pairs.
def lineBreaks (classes : List DecodedClass) : Nat :=
  ∑ pair ∈ distinctPairs classes, (pair.1.toList.count '\n' + pair.2.toList.count '\n')

-- No name that is written has a newline in it.
def Unbroken (classes : List DecodedClass) : Prop :=
  ∀ pair ∈ distinctPairs classes, '\n' ∉ pair.1.toList ∧ '\n' ∉ pair.2.toList

theorem lineBreaks_eq_zero_iff {classes : List DecodedClass} :
    lineBreaks classes = 0 ↔ Unbroken classes := by
  unfold lineBreaks Unbroken
  rw [Finset.sum_eq_zero_iff]
  simp only [Nat.add_eq_zero_iff, List.count_eq_zero]

def edgePairs (archive : String) (classes : List DecodedClass) : List (String × String) :=
  (graphOf archive classes).edges.map fun edge => (edge.caller, edge.callee)

theorem nodup_edgePairs (archive : String) (classes : List DecodedClass) :
    (edgePairs archive classes).Nodup :=
  CallGraph.pairs_nodup (nodup_callers_graphOf archive classes)

-- There is an edge for each pair of top-level classes with a call between them, however many calls
-- there are.
theorem mem_edgePairs_iff {archive : String} {classes : List DecodedClass} {pair : String × String} :
    pair ∈ edgePairs archive classes ↔ pair ∈ foldedPairs classes := by
  obtain ⟨caller, callee⟩ := pair
  rw [← List.count_pos_iff (l := foldedPairs classes), ← callsBetween_eq_count]
  constructor
  · intro hmem
    obtain ⟨edge, hedge, heq⟩ := List.mem_map.mp hmem
    obtain ⟨record, hrecord, entry, hentry, rfl⟩ := CallGraph.mem_edges.mp hedge
    obtain ⟨rfl, rfl⟩ := Prod.mk.inj heq
    exact (mem_keys_graphOf hrecord entry.1).mp (List.mem_map_of_mem hentry)
  · intro hpos
    have hcaller : caller ∈ (graphOf archive classes).callers := by
      rw [mem_callers_graphOf]
      by_contra hnone
      rw [callsBetween_eq_zero hnone callee] at hpos
      exact Nat.lt_irrefl 0 hpos
    obtain ⟨record, hrecord, rfl⟩ := List.mem_map.mp hcaller
    obtain ⟨entry, hentry, rfl⟩ := List.mem_map.mp ((mem_keys_graphOf hrecord callee).mpr hpos)
    exact List.mem_map.mpr ⟨_, CallGraph.mem_edges.mpr ⟨record, hrecord, entry, hentry, rfl⟩, rfl⟩

theorem toFinset_edgePairs (archive : String) (classes : List DecodedClass) :
    (edgePairs archive classes).toFinset = distinctPairs classes := by
  ext pair
  rw [distinctPairs, List.mem_toFinset, List.mem_toFinset, mem_edgePairs_iff]

theorem length_edges_graphOf (archive : String) (classes : List DecodedClass) :
    (graphOf archive classes).edges.length = (distinctPairs classes).card := by
  rw [← toFinset_edgePairs archive, List.toFinset_card_of_nodup (nodup_edgePairs archive classes),
    edgePairs, List.length_map]

theorem sum_newlines_graphOf (archive : String) (classes : List DecodedClass) :
    ((graphOf archive classes).edges.map fun edge =>
      edge.caller.toList.count '\n' + edge.callee.toList.count '\n').sum = lineBreaks classes := by
  rw [lineBreaks, ← toFinset_edgePairs archive, List.sum_toFinset _ (nodup_edgePairs archive classes),
    edgePairs, List.map_map]
  rfl

-- Each edge is a line, and each newline in a name makes one line more.
theorem count_render_graphOf (archive : String) (classes : List DecodedClass) :
    Lines.count (Csv.render (graphOf archive classes)).toList =
      (distinctPairs classes).card + lineBreaks classes := by
  rw [Csv.render, Lines.count_eq_of_ended (Lines.ended_unlines _), Csv.count_newline_rows,
    length_edges_graphOf, sum_newlines_graphOf]

end Survey

namespace Census

variable {Content : Type} {census : Census Content}

-- These archives are decoded to these classes.
def Decodes (census : Census Content) (paths : List String) (archives : List (List DecodedClass)) :
    Prop :=
  List.Forall₂ (fun path classes =>
      ∃ skipped, (census.survey path).outcome = .ok (Survey.graphOf path classes, skipped))
    (paths.filter (census.source.present ·)) archives

theorem gives_of_decodes (hformat : census.format = .csv) {paths : List String}
    {archives : List (List DecodedClass)} (h : census.Decodes paths archives) :
    ∃ portions, census.Gives paths portions ∧ (Portion.output portions).count 0x0A =
      (archives.map fun classes =>
        (Survey.distinctPairs classes).card + Survey.lineBreaks classes).sum := by
  unfold Decodes at h
  unfold Gives
  generalize paths.filter (census.source.present ·) = present at h ⊢
  induction h with
  | nil => exact ⟨[], .nil, rfl⟩
  | @cons path classes _ _ hfirst _ ih =>
      obtain ⟨skipped, hbuilt⟩ := hfirst
      obtain ⟨portions, hportions, hcount⟩ := ih
      have hportion : census.portion path =
          .ok (.ofGraph .csv (Survey.graphOf path classes) skipped) := by
        rw [portion, hbuilt, hformat]
        rfl
      refine ⟨_, .cons hportion hportions, ?_⟩
      rw [Portion.output, List.flatMap_cons, List.count_append, List.map_cons, List.sum_cons,
        ← hcount, Portion.ofGraph, ← OutputFormat.count_render, OutputFormat.render,
        Survey.count_render_graphOf]
      rfl

-- A table has a line for each pair of classes with a call between them, and one more for each
-- newline in their names, which are written as they are. So the lines that a census tells are as
-- many as the pairs of its archives exactly if no name has a newline in it.
theorem csv_lines_eq_pairs_iff (archive : String) (classes : List DecodedClass) :
    let graph := Survey.graphOf archive classes
    let lines := Lines.count (Csv.render graph).toList
    graph.edgeCount = (Survey.distinctPairs classes).card ∧
    lines = (Survey.distinctPairs classes).card + Survey.lineBreaks classes ∧
    (lines = (Survey.distinctPairs classes).card ↔ Survey.Unbroken classes) ∧
    ∀ (Content : Type) (census : Census Content) (paths : List String) (sink : Sink)
      (archives : List (List DecodedClass)),
      census.format = .csv → census.Decodes paths archives → census.Delivers paths sink →
      ∃ total, (census.run paths sink).result = .ok total ∧
        total.lines = (archives.map fun classes =>
          (Survey.distinctPairs classes).card + Survey.lineBreaks classes).sum ∧
        (total.lines = (archives.map fun classes => (Survey.distinctPairs classes).card).sum ↔
          ∀ classes ∈ archives, Survey.Unbroken classes) := by
  intro graph lines
  have hlines : lines = _ := Survey.count_render_graphOf archive classes
  refine ⟨?_, hlines, ?_, fun Content census paths sink archives hformat hdecodes hsink => ?_⟩
  · rw [CallGraph.edgeCount_eq_length_edges, Survey.length_edges_graphOf]
  · rw [hlines, Nat.add_eq_left, Survey.lineBreaks_eq_zero_iff]
  · obtain ⟨portions, hgives, hcount⟩ := gives_of_decodes hformat hdecodes
    have hopened := (run_opened hsink).trans (run_of_gives hgives sink.written)
    refine ⟨_, congrArg Outcome.result hopened, hcount, ?_⟩
    rw [hcount, List.sum_map_add, Nat.add_eq_left, List.sum_eq_zero_iff_forall_eq_nat,
      List.forall_mem_map]
    simp only [Survey.lineBreaks_eq_zero_iff]

theorem csv_lines_eq_pairs_nested :
    let first : List DecodedClass := [⟨"A", ["B", "B$1", "C"]⟩, ⟨"A$1", ["B", "A"]⟩]
    let second : List DecodedClass := [⟨"X\r", ["Y", "\n"]⟩]
    let census : Census DecodedClass := ⟨.abort, .csv, .ok, (· ≠ "gone"), fun path =>
      ⟨[], .ok ((if path = "a.jar" then first else second).map (⟨"", ·⟩))⟩⟩
    let paths := ["a.jar", "gone", "b.jar"]
    census.Decodes paths [first, second] ∧ census.Delivers paths .unlimited ∧
      (Survey.distinctPairs first).card = 3 ∧ (Survey.distinctPairs second).card = 2 ∧
      (census.run paths .unlimited).result = .ok ⟨2, ["gone"], 0, 6⟩ ∧
      ¬ ∀ classes ∈ [first, second], Survey.Unbroken classes := by
  intro first second census paths
  have hdecodes : census.Decodes paths [first, second] := .cons ⟨0, rfl⟩ (.cons ⟨0, rfl⟩ .nil)
  have hresult : (census.run paths .unlimited).result = .ok ⟨2, ["gone"], 0, 6⟩ := by
    decide +kernel
  have hdelivers : census.Delivers paths .unlimited := delivers_of_ok hresult
  obtain ⟨-, -, -, hruns⟩ := csv_lines_eq_pairs_iff "a.jar" first
  obtain ⟨total, htotal, -, hiff⟩ := hruns _ census paths _ _ rfl hdecodes hdelivers
  have hsame := Except.ok.inj (htotal.symm.trans hresult)
  refine ⟨hdecodes, hdelivers, by decide +kernel, by decide +kernel, hresult, ?_⟩
  rw [← hiff, hsame]
  decide +kernel

-- A class whose name has a newline in it, as it stands in a class file. It makes one call.
theorem csv_lines_eq_pairs_newline :
    let content : List UInt8 := [0xCA, 0xFE, 0xBA, 0xBE, 0, 0, 0, 0x34, 0, 7,
      1, 0, 3, 0x41, 0x0A, 0x42, 7, 0, 1, 1, 0, 1, 0x43, 7, 0, 3, 0x0A, 0, 4, 0, 0,
      1, 0, 4, 0x43, 0x6F, 0x64, 0x65, 0, 0, 0, 2, 0, 0, 0, 0, 0, 0,
      0, 1, 0, 0, 0, 0, 0, 0, 0, 1, 0, 6, 0, 0, 0, 12, 0, 0, 0, 0, 0, 0, 0, 4, 0xB8, 0, 5, 0xB1, 0, 0]
    let census : Census (List UInt8) := ⟨.abort, .csv, DecodedClass.ofBytes, fun _ => true,
      fun _ => ⟨[], .ok [⟨"x.class", content⟩]⟩⟩
    let classes : List DecodedClass := [⟨"A\nB", ["C"]⟩]
    DecodedClass.ofBytes content = .ok ⟨"A\nB", ["C"]⟩ ∧
      (Survey.distinctPairs classes).card = 1 ∧
      (Survey.graphOf "a.jar" classes).edgeCount = 1 ∧
      Lines.count (Csv.render (Survey.graphOf "a.jar" classes)).toList = 2 ∧
      (census.run ["a.jar"] .unlimited).result = .ok ⟨1, [], 0, 2⟩ := by
  intro content census classes
  exact ⟨by decide +kernel, by decide +kernel, by decide +kernel, by decide +kernel,
    by decide +kernel⟩

-- A table is read back as the edges it was made of exactly if no name that is written has a comma
-- or a newline in it. Such tables tell graphs apart by their edges, and those of several archives
-- one after the other are read as the edges of all.
theorem csv_rows_read_back :
    (∀ graph : CallGraph,
      (Csv.parse? (Csv.render graph) = some graph.edges ↔ Csv.PlainNames graph.edges) ∧
      ((∀ record ∈ graph.records, Csv.Plain record.caller ∧
        ∀ callee ∈ record.outbound.keys, Csv.Plain callee) → Csv.PlainNames graph.edges)) ∧
    (∀ graph other : CallGraph, Csv.PlainNames graph.edges → Csv.PlainNames other.edges →
      (Csv.render graph = Csv.render other ↔ graph.edges = other.edges)) ∧
    (∀ graphs : List CallGraph, (∀ graph ∈ graphs, Csv.PlainNames graph.edges) →
      Csv.parse? (String.join (graphs.map Csv.render)) = some (graphs.flatMap CallGraph.edges)) ∧
    ∀ (census : Census Content) (paths : List String) (sink : Sink) (total : Summary),
      census.format = .csv → (census.run paths sink).result = .ok total →
      ∃ graphs text,
        List.Forall₂ (fun path graph => ∃ skipped,
            (census.survey path).outcome = .ok (graph, skipped))
          (paths.filter (census.source.present ·)) graphs ∧
        (census.run paths sink).sink.written = sink.written ++ Utf8.encode text ∧
        ((∀ graph ∈ graphs, Csv.PlainNames graph.edges) →
          Csv.parse? text = some (graphs.flatMap CallGraph.edges)) := by
  have hread {graph : CallGraph} (h : Csv.PlainNames graph.edges) :
      Csv.parse? (Csv.render graph) = some graph.edges := Csv.parse?_rows h
  have hjoin {graphs : List CallGraph} (h : ∀ graph ∈ graphs, Csv.PlainNames graph.edges) :
      Csv.parse? (String.join (graphs.map Csv.render)) =
        some (graphs.flatMap CallGraph.edges) := by
    rw [Csv.join_render]
    apply Csv.parse?_rows
    intro edge hedge
    obtain ⟨graph, hgraph, hmem⟩ := List.mem_flatMap.mp hedge
    exact h graph hgraph edge hmem
  refine ⟨fun graph => ⟨Csv.parse?_rows_iff, fun h => ?_⟩, fun graph other hgraph hother => ?_,
    fun graphs h => hjoin h, fun census paths sink total hformat h => ?_⟩
  · intro edge hedge
    obtain ⟨record, hrecord, entry, hentry, rfl⟩ := CallGraph.mem_edges.mp hedge
    exact ⟨(h record hrecord).1, (h record hrecord).2 entry.1 (List.mem_map_of_mem hentry)⟩
  · constructor
    · intro heq
      have hsame := congrArg Csv.parse? heq
      rwa [hread hgraph, hread hother, Option.some.injEq] at hsame
    · intro heq
      rw [Csv.render, heq, ← Csv.render]
  · obtain ⟨portions, hgives, hwritten, -⟩ := gives_of_ok h
    obtain ⟨graphs, hgraphs, -, houtput⟩ := graphs_of_gives hgives
    rw [hformat] at houtput
    exact ⟨graphs, _, hgraphs, hwritten.trans (congrArg _ houtput), fun hplain => hjoin hplain⟩

-- Names that are empty, quoted or have a carriage return in them, and an archive without classes.
theorem csv_rows_read_back_mixed :
    let classes : List DecodedClass := [⟨"A\r", ["", "\"B\"", "A\r$1"]⟩]
    let census : Census DecodedClass := ⟨.abort, .csv, .ok, (· ≠ "gone"), fun path =>
      ⟨[], .ok ((if path = "empty" then [] else classes).map (⟨"", ·⟩))⟩⟩
    let graph := Survey.graphOf "a" classes
    let outcome := census.run ["a", "gone", "empty", "b"] .unlimited
    Csv.PlainNames graph.edges ∧ Csv.parse? (Csv.render graph) = some graph.edges ∧
      outcome.result = .ok ⟨3, ["gone"], 0, 6⟩ ∧
      ∃ text, outcome.sink.written = Utf8.encode text ∧
        Csv.parse? text = some (graph.edges ++ (Survey.graphOf "b" classes).edges) := by
  intro classes census graph outcome
  have hresult : outcome.result = .ok ⟨3, ["gone"], 0, 6⟩ := by decide +kernel
  obtain ⟨hgraph, -, -, hruns⟩ := @csv_rows_read_back DecodedClass
  have hplain : Csv.PlainNames graph.edges := by decide +kernel
  obtain ⟨graphs, text, hgraphs, hwritten, hparse⟩ := hruns census _ _ _ rfl hresult
  -- What an archive is built to is determined, so these are the graphs.
  have hunique : Relator.RightUnique fun path graph =>
      ∃ skipped, (census.survey path).outcome = .ok (graph, skipped) := by
    rintro path first second ⟨_, hfirst⟩ ⟨_, hsecond⟩
    exact (Prod.mk.inj (Except.ok.inj (hfirst.symm.trans hsecond))).1
  have hsame : graphs = [graph, Survey.graphOf "empty" [], Survey.graphOf "b" classes] :=
    List.right_unique_forall₂' hunique hgraphs
      (.cons ⟨0, rfl⟩ (.cons ⟨0, rfl⟩ (.cons ⟨0, rfl⟩ .nil)))
  subst hsame
  have hnone : (Survey.graphOf "empty" []).edges = [] := by decide +kernel
  have hread := hparse (by decide +kernel)
  rw [List.flatMap_cons, List.flatMap_cons, List.flatMap_singleton, hnone, List.nil_append] at hread
  exact ⟨hplain, (hgraph graph).1.mpr hplain, hresult, text, hwritten, hread⟩

end Census

end CallCensus
