import CallCensus.Proofs.Census.Success
import CallCensus.Proofs.Report.Documents

namespace CallCensus.Census

variable {Content : Type}

-- The text of a census in this format is a document on each line.
theorem join_render_json (graphs : List CallGraph) :
    String.join (graphs.map OutputFormat.json.render) =
      Lines.unlines ((graphs.map Document.ofGraph).map Document.render) := by
  rw [Lines.unlines, List.map_map, List.map_map]
  rfl

-- A document is one line that is read back as it was, whatever is in its texts. So the output of a
-- census that succeeds is as many lines as archives, and the lines are read as the graphs of the
-- archives, in their order.
theorem json_lines_read_back :
    (∀ document : Document, Document.parse? document.render = some document) ∧
    (∀ graph : CallGraph,
      let text := OutputFormat.json.render graph
      let document := Document.ofGraph graph
      text.toList.count '\n' = 1 ∧ text.toList.getLast? = some '\n' ∧
        Document.parse? text = some document ∧
        document.archive = graph.archive ∧ document.edges = graph.edges ∧
        (document.classes.map fun entry =>
            (entry.name, entry.inbound, entry.calls.map fun call => (call.callee, call.count))) =
          graph.records.map fun record =>
            (record.caller, record.inbound, record.outbound.entries)) ∧
    ∀ (census : Census Content) (paths : List String) (sink : Sink) (total : Summary),
      census.format = .json → (census.run paths sink).result = .ok total →
      ∃ graphs text lines,
        List.Forall₂ (fun path graph => graph.archive = path ∧
            ∃ skipped, (census.survey path).outcome = .ok (graph, skipped))
          (paths.filter (census.source.present ·)) graphs ∧
        (census.run paths sink).sink.written = sink.written ++ Utf8.encode text ∧
        Lines.ended? text.toList = some lines ∧
        List.Forall₂ (fun line graph =>
            Document.parse? (String.ofList line) = some (Document.ofGraph graph)) lines graphs ∧
        total.processed = lines.length ∧ total.lines = total.processed := by
  refine ⟨Document.parse?_render, fun graph => ?_, fun census paths sink total hformat h => ?_⟩
  · have htoList : (OutputFormat.json.render graph).toList =
        (Document.ofGraph graph).render.toList ++ ['\n'] := String.toList_append
    have hline := List.count_eq_zero.mpr (Document.newline_notMem_render (.ofGraph graph))
    refine ⟨?_, ?_, ?_, rfl, Document.edges_ofGraph graph, ?_⟩
    · rw [htoList, List.count_append, hline]
      rfl
    · rw [htoList, List.getLast?_concat]
    · exact Document.parse?_render_append _ (by simp [Json.isBlank])
    · simp [Document.ofGraph, Document.ofRecord, Function.comp_def]
  · obtain ⟨portions, hgives, hwritten, htotal⟩ := gives_of_ok h
    obtain ⟨graphs, hgraphs, hlength, houtput⟩ := graphs_of_gives hgives
    rw [hformat, join_render_json] at houtput
    obtain ⟨lines, hended, hread⟩ := Document.read_unlines (graphs.map Document.ofGraph)
    have hprocessed : total.processed = lines.length := by
      rw [htotal, hread.length_eq, List.length_map, ← hlength]
    have hlines : total.lines = lines.length := by
      rw [htotal, hread.length_eq, ← List.length_map (f := Document.render),
        ← Lines.count_newline_unlines fun _ hmem => Document.newline_notMem_of_mem_render hmem,
        ← Utf8.count_newline_encode, ← houtput]
    have hdocuments := List.forall₂_map_right_iff.mp hread
    refine ⟨graphs, _, lines, hgraphs.imp ?_, hwritten.trans (congrArg _ houtput), hended,
      hdocuments, hprocessed, hlines.trans hprocessed.symm⟩
    rintro path graph ⟨skipped, hbuilt⟩
    exact ⟨Survey.archive_of_build hbuilt, skipped, hbuilt⟩

theorem json_lines_read_back_missing :
    let census : Census DecodedClass := ⟨.abort, .json, .ok, (· ≠ "gone"),
      fun path => ⟨[], .ok [⟨"", ⟨path, ["\n"]⟩⟩]⟩⟩
    let outcome := census.run ["a", "gone", "\""] .unlimited
    outcome.result = .ok ⟨2, ["gone"], 0, 2⟩ ∧
      ∃ graphs text lines,
        outcome.sink.written = Utf8.encode text ∧ Lines.ended? text.toList = some lines ∧
        lines.length = 2 ∧
        List.Forall₂ (fun line graph =>
          Document.parse? (String.ofList line) = some (Document.ofGraph graph)) lines graphs := by
  intro census outcome
  have hresult : outcome.result = .ok ⟨2, ["gone"], 0, 2⟩ := by decide +kernel
  obtain ⟨-, -, hruns⟩ := @json_lines_read_back DecodedClass
  obtain ⟨graphs, text, lines, -, hwritten, hended, hread, hprocessed, -⟩ :=
    hruns census _ _ _ rfl hresult
  exact ⟨hresult, graphs, text, lines, hwritten, hended, hprocessed.symm, hread⟩

end CallCensus.Census
