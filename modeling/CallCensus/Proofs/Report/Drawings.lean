import CallCensus.CallGraph.Inbound
import CallCensus.Proofs.Report.Lines
import CallCensus.Proofs.Report.Quoting
import CallCensus.Proofs.Results
import Mathlib.Data.List.TakeWhile

namespace CallCensus.Dot

section Lines

-- What is written in a node.
def label (record : CallRecord) : String :=
  record.caller ++ " (in: " ++ Decimal.render record.inbound.toNat ++ ")"

theorem toList_title (archive : String) :
    ("digraph \"" ++ escaped archive ++ "\" \x7b").toList =
      "digraph ".toList ++ quote archive ++ " \x7b".toList := by
  simp [escaped, quote]

theorem toList_node (record : CallRecord) : (node record).toList =
    "    ".toList ++ quote record.caller ++
      (" [label=".toList ++ quote (label record) ++ "];".toList) := by
  simp [node, escaped, quote, label, Decimal.render, flatMap_escape_digits, escape]

theorem toList_arrow (edge : Edge) : (arrow edge).toList =
    "    ".toList ++ quote edge.caller ++ (" -> ".toList ++ quote edge.callee ++
      (" [label=".toList ++ quote (Decimal.render edge.count.toNat) ++ "];".toList)) := by
  simp [arrow, escaped, quote, Decimal.render, flatMap_escape_digits]

def lines (graph : CallGraph) : List String :=
  heading graph.archive ++ graph.records.map node ++ [""] ++ graph.edges.map arrow ++ ["\x7d"]

theorem newline_notMem_title (archive : String) :
    '\n' ∉ ("digraph \"" ++ escaped archive ++ "\" \x7b").toList := by
  rw [toList_title]
  simp [newline_notMem_quote]

theorem newline_notMem_node (record : CallRecord) : '\n' ∉ (node record).toList := by
  rw [toList_node]
  simp [newline_notMem_quote]

theorem newline_notMem_arrow (edge : Edge) : '\n' ∉ (arrow edge).toList := by
  rw [toList_arrow]
  simp [newline_notMem_quote]

theorem newline_notMem_of_mem_lines {graph : CallGraph} {line : String} (h : line ∈ lines graph) :
    '\n' ∉ line.toList := by
  simp only [lines, heading, List.mem_append, List.mem_cons, List.mem_map, List.not_mem_nil,
    or_false] at h
  rcases h with ((((rfl | rfl | rfl | rfl | rfl) | ⟨record, -, rfl⟩) | rfl) | ⟨edge, -, rfl⟩) | rfl
  · exact newline_notMem_title _
  all_goals try decide
  · exact newline_notMem_node record
  · exact newline_notMem_arrow edge

-- The texts that are quoted in the drawing of a graph.
def quoted (graph : CallGraph) : List String :=
  [graph.archive, "Helvetica", "Helvetica"] ++
    graph.records.flatMap (fun record => [record.caller, label record]) ++
    graph.edges.flatMap fun edge => [edge.caller, edge.callee, Decimal.render edge.count.toNat]

theorem quotes_title (archive : String) :
    Quotes ("digraph \"" ++ escaped archive ++ "\" \x7b").toList [archive] := by
  rw [toList_title]
  refine .cons _ ?_ (quotes_of_notMem ?_) <;> decide

theorem quotes_font (front rest : String) (hfront : '"' ∉ front.toList)
    (hrest : '"' ∉ rest.toList) : Quotes (front ++ "\"Helvetica\"" ++ rest).toList ["Helvetica"] := by
  rw [String.toList_append, String.toList_append]
  exact .cons "Helvetica" hfront (quotes_of_notMem hrest)

theorem quotes_heading (archive : String) :
    Quotes ((heading archive).flatMap fun line => line.toList ++ ['\n'])
      [archive, "Helvetica", "Helvetica"] := by
  have hnode := quotes_font "    node [shape=box, fontname=" ", fontsize=12];" (by decide)
    (by decide)
  have hedge := quotes_font "    edge [fontname=" ", fontsize=10];" (by decide) (by decide)
  exact (quotes_title archive).line.append ((quotes_of_notMem (by decide)).append
    (hnode.line.append (hedge.line.append (quotes_of_notMem (by decide)))))

theorem quotes_node (record : CallRecord) :
    Quotes (node record).toList [record.caller, label record] := by
  rw [toList_node]
  refine .cons _ ?_ (.cons _ ?_ (quotes_of_notMem ?_)) <;> decide

theorem quotes_arrow (edge : Edge) :
    Quotes (arrow edge).toList [edge.caller, edge.callee, Decimal.render edge.count.toNat] := by
  rw [toList_arrow]
  refine .cons _ ?_ (.cons _ ?_ (.cons _ ?_ (quotes_of_notMem ?_))) <;> decide

theorem quotes_render (graph : CallGraph) : Quotes (render graph).toList (quoted graph) := by
  have hnodes := Quotes.flatMap (fun record => (quotes_node record).line) graph.records
  have harrows := Quotes.flatMap (fun edge => (quotes_arrow edge).line) graph.edges
  have hblank : Quotes ("".toList ++ ['\n']) [] := quotes_of_notMem (by decide)
  have hend : Quotes ("\x7d".toList ++ ['\n']) [] := quotes_of_notMem (by decide)
  have h := ((((quotes_heading graph.archive).append hnodes).append hblank).append harrows).append
    hend
  rw [render, Lines.toList_unlines]
  simp only [List.flatMap_append, List.flatMap_map, List.flatMap_singleton, List.append_nil] at h ⊢
  exact h

-- Each quote that opens a text is found, and the text after it is read as it was before.
theorem quotedTexts?_render (graph : CallGraph) :
    quotedTexts? (render graph).toList = some ((quoted graph).map String.toList) := by
  have h := quotes_render graph []
  rwa [List.append_nil, quotedTexts?, Option.map_some, List.append_nil] at h

end Lines

section Drawings

theorem expect_append (literal : String) (rest : List Char) :
    expect literal (literal.toList ++ rest) = some rest := by
  have hprefix : literal.toList.isPrefixOf (literal.toList ++ rest) := by
    rw [List.isPrefixOf_iff_prefix]
    exact List.prefix_append _ _
  rw [expect, if_pos hprefix, ← String.length_toList, List.drop_left]

-- A quoted text is taken with the opening quote first.
theorem expect_quote {opening front : String} (h : opening = front ++ "\"") (text : String)
    (rest : List Char) :
    expect opening (front.toList ++ quote text ++ rest) =
      some (text.toList.flatMap escape ++ '"' :: rest) := by
  have happend : front.toList ++ quote text ++ rest =
      opening.toList ++ (text.toList.flatMap escape ++ '"' :: rest) := by
    rw [h, String.toList_append]
    simp [quote]
  rw [happend, expect_append]

theorem parseHeading?_title (archive : String) :
    parseHeading? ("digraph \"" ++ escaped archive ++ "\" \x7b").toList = some archive := by
  have hopening : "digraph \"" = "digraph " ++ "\"" := rfl
  rw [toList_title]
  simp only [parseHeading?, expect_quote hopening, unquote_flatMap_escape, Option.bind_eq_bind,
    Option.bind_some, if_true, String.ofList_toList]

theorem parseLabel?_label (record : CallRecord) :
    parseLabel? record.caller.toList (label record).toList = some record.inbound := by
  have hlabel : (label record).toList = record.caller.toList ++
      (" (in: ".toList ++ (Decimal.digits record.inbound.toNat ++ [')'])) := by
    simp [label, Decimal.render]
  rw [parseLabel?, hlabel]
  simp only [String.ofList_toList, expect_append, Option.bind_eq_bind, Option.bind_some,
    List.getLast?_concat, List.dropLast_concat, if_true, Decimal.readWord?_digits]

theorem parseNode?_node (record : CallRecord) :
    parseNode? (node record).toList = some (record.caller, record.inbound) := by
  have hname : "    \"" = "    " ++ "\"" := rfl
  have hlabel : " [label=\"" = " [label=" ++ "\"" := rfl
  rw [toList_node]
  simp only [parseNode?, expect_quote hname, expect_quote hlabel, unquote_flatMap_escape,
    Option.bind_eq_bind, Option.bind_some, if_true, parseLabel?_label, String.ofList_toList]

theorem parseArrow?_arrow (edge : Edge) :
    parseArrow? (arrow edge).toList = some (edge.caller, edge.callee, edge.count) := by
  have hcaller : "    \"" = "    " ++ "\"" := rfl
  have hcallee : " -> \"" = " -> " ++ "\"" := rfl
  have hlabel : " [label=\"" = " [label=" ++ "\"" := rfl
  rw [toList_arrow]
  simp only [parseArrow?, expect_quote hcaller, expect_quote hcallee, expect_quote hlabel,
    unquote_flatMap_escape, Option.bind_eq_bind, Option.bind_some, if_true, String.ofList_toList,
    Decimal.render, String.toList_ofList, Decimal.readWord?_digits]

theorem ne_nil_of_mem_node {line : List Char} {records : List CallRecord}
    (h : line ∈ records.map fun record => (node record).toList) : line ≠ [] := by
  obtain ⟨record, -, rfl⟩ := List.mem_map.mp h
  rw [toList_node]
  exact List.cons_ne_nil _ _

-- Lines up to a blank one are told apart from those after it.
theorem span_blank {first rest : List (List Char)} (h : ∀ line ∈ first, line ≠ []) :
    (first ++ [] :: rest).takeWhile (· ≠ []) = first ∧
      (first ++ [] :: rest).dropWhile (· ≠ []) = [] :: rest := by
  have hne : ∀ line ∈ first, decide (line ≠ []) = true := fun line hmem => decide_eq_true (h line hmem)
  constructor
  · rw [List.takeWhile_append_of_pos hne]
    simp
  · rw [List.dropWhile_append_of_pos hne]
    simp

theorem ended?_render (graph : CallGraph) :
    Lines.ended? (render graph).toList = some ((lines graph).map String.toList) :=
  Lines.ended?_unlines fun _ hmem => newline_notMem_of_mem_lines hmem

theorem length_lines (graph : CallGraph) :
    (lines graph).length = graph.records.length + graph.edges.length + 7 := by
  simp only [lines, heading, List.length_append, List.length_cons, List.length_nil,
    List.length_map]
  omega

-- A drawing holds all that it shows of a graph.
theorem parse?_render (graph : CallGraph) : parse? (render graph) = some (.ofGraph graph) := by
  have hnodes := Results.mapM_map_eq_some fun record (_ : record ∈ graph.records) =>
    parseNode?_node record
  have harrows := Results.mapM_map_eq_some fun edge (_ : edge ∈ graph.edges) => parseArrow?_arrow edge
  generalize hfirst : (graph.records.map fun record => (node record).toList) = first at hnodes
  generalize hsecond : (graph.edges.map fun edge => (arrow edge).toList) = second at harrows
  obtain ⟨htake, hdrop⟩ := @span_blank first (second ++ ["\x7d".toList]) fun line hmem =>
    ne_nil_of_mem_node (hfirst ▸ hmem)
  have hlines : (lines graph).map String.toList = (heading graph.archive).map String.toList ++
      (first ++ [] :: (second ++ ["\x7d".toList])) := by
    simp [lines, ← hfirst, ← hsecond, Function.comp_def]
  rw [parse?, ended?_render, hlines]
  simp only [heading, List.map_cons, List.map_nil, List.cons_append, List.nil_append,
    Option.bind_eq_bind, Option.bind_some, String.toList_empty, htake, hdrop,
    List.getLast?_concat, List.dropLast_concat, if_true, parseHeading?_title, hnodes, harrows]
  rfl

end Drawings

section Edges

-- The edges that a drawing shows. The inbound count of an edge is in the node of its caller.
def Drawing.edges (drawing : Drawing) : List Edge :=
  drawing.arrows.map fun (caller, callee, count) =>
    ⟨caller, ((drawing.nodes.find? (·.1 = caller)).map Prod.snd).getD 0, callee, count⟩

-- The nodes of one class show one inbound count.
def Drawing.OneInbound (drawing : Drawing) : Prop :=
  ∀ first ∈ drawing.nodes, ∀ second ∈ drawing.nodes, first.1 = second.1 → first.2 = second.2

-- Graphs that are built from archives are drawn so.
theorem oneInbound_withInbound (archive : String) (records : List CallRecord) :
    (Drawing.ofGraph (.ofRecords archive (CallRecord.withInbound records))).OneInbound := by
  have hcount {shown : String × UInt64} (hmem : shown ∈ (Drawing.ofGraph
      (.ofRecords archive (CallRecord.withInbound records))).nodes) :
      shown.2 = (CallRecord.totalOutbound records).count shown.1 := by
    obtain ⟨record, hrecord, rfl⟩ := List.mem_map.mp hmem
    rw [CallGraph.ofRecords, List.mem_mergeSort] at hrecord
    obtain ⟨before, -, rfl⟩ := List.mem_map.mp hrecord
    rfl
  intro first hfirst second hsecond hname
  rw [hcount hfirst, hcount hsecond, hname]

theorem Drawing.OneInbound.find?_nodes {drawing : Drawing} (h : drawing.OneInbound)
    {shown : String × UInt64} (hmem : shown ∈ drawing.nodes) : drawing.nodes.find? (·.1 = shown.1) = some shown := by
  have hsome : (drawing.nodes.find? (·.1 = shown.1)).isSome :=
    List.find?_isSome.mpr ⟨shown, hmem, decide_eq_true rfl⟩
  obtain ⟨found, hfound⟩ := Option.isSome_iff_exists.mp hsome
  have hname := List.find?_some hfound
  rw [decide_eq_true_eq] at hname
  have hinbound := h found (List.mem_of_find?_eq_some hfound) shown hmem hname
  rw [hfound, Prod.ext hname hinbound]

theorem edges_ofGraph {graph : CallGraph} (h : (Drawing.ofGraph graph).OneInbound) :
    (Drawing.ofGraph graph).edges = graph.edges := by
  have hedge (edge : Edge) (hmem : edge ∈ graph.edges) :
      (⟨edge.caller, (((Drawing.ofGraph graph).nodes.find? (·.1 = edge.caller)).map Prod.snd).getD 0,
        edge.callee, edge.count⟩ : Edge) = edge := by
    obtain ⟨record, hrecord, hmem⟩ := List.mem_flatMap.mp hmem
    obtain ⟨entry, -, rfl⟩ := List.mem_map.mp hmem
    have hnode : (record.caller, record.inbound) ∈ (Drawing.ofGraph graph).nodes :=
      List.mem_map_of_mem hrecord
    rw [h.find?_nodes hnode]
    rfl
  rw [Drawing.edges, Drawing.ofGraph, List.map_map]
  exact (List.map_congr_left hedge).trans (List.map_id _)

end Edges

-- Whatever is in its names, a drawing is as many lines as it should be, each of its quoted texts
-- ends at its own closing quote, and the graph it shows can be read off it.
theorem render_lossless (graph : CallGraph) :
    (∀ text : String, (escaped text).toList = replaced '\n' ['\\', 'n']
      (replaced '"' ['\\', '"'] (replaced '\\' ['\\', '\\'] text.toList))) ∧
    (∀ text rest, unquote ((escaped text).toList ++ '"' :: rest) = some (text.toList, rest)) ∧
    Lines.ended? (render graph).toList = some ((lines graph).map String.toList) ∧
    (lines graph).length = graph.records.length + graph.edges.length + 7 ∧
    quotedTexts? (render graph).toList = some ((quoted graph).map String.toList) ∧
    parse? (render graph) = some (.ofGraph graph) ∧
    ∀ other : CallGraph, render other = render graph →
      other.archive = graph.archive ∧
      (other.records.map fun record => (record.caller, record.inbound)) =
        (graph.records.map fun record => (record.caller, record.inbound)) ∧
      (other.edges.map fun edge => (edge.caller, edge.callee, edge.count)) =
        (graph.edges.map fun edge => (edge.caller, edge.callee, edge.count)) ∧
      ((Drawing.ofGraph graph).OneInbound → other.edges = graph.edges) := by
  refine ⟨fun text => ?_, fun text rest => ?_, ended?_render graph, length_lines graph,
    quotedTexts?_render graph, parse?_render graph, fun other h => ?_⟩
  · rw [escaped, String.toList_ofList, flatMap_escape_eq_replaced]
  · rw [escaped, String.toList_ofList, unquote_flatMap_escape]
  · have hdrawing : Drawing.ofGraph other = Drawing.ofGraph graph := by
      have hread := congrArg parse? h
      rwa [parse?_render, parse?_render, Option.some.injEq] at hread
    obtain ⟨harchive, hnodes, harrows⟩ := Drawing.mk.inj hdrawing
    refine ⟨harchive, hnodes, harrows, fun hone => ?_⟩
    rw [← edges_ofGraph hone, ← hdrawing]
    exact (edges_ofGraph (hdrawing ▸ hone)).symm

-- Of two records of one class, a drawing does not tell which of them makes a call.
example : ∃ first second : CallGraph, render first = render second ∧ first.edges ≠ second.edges :=
  ⟨⟨"a.jar", [⟨"A", ⟨[("B", 1)], by decide⟩, 1⟩, ⟨"A", .empty, 2⟩], by decide⟩,
    ⟨"a.jar", [⟨"A", .empty, 1⟩, ⟨"A", ⟨[("B", 1)], by decide⟩, 2⟩], by decide⟩, by decide +kernel⟩

end CallCensus.Dot
