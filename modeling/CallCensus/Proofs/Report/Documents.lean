import CallCensus.Proofs.Json.Spelling
import CallCensus.Proofs.Results
import CallCensus.Report.Document
import CallCensus.Text.Lines

namespace CallCensus.Document

open Json

section Values

-- The values of JSON that documents are written as.
def Call.toJson (call : Call) : Value :=
  .object [(some "callee", .string (some call.callee)),
    (some "count", .number (Decimal.digits call.count.toNat))]

def Class.toJson (entry : Class) : Value :=
  .object [(some "name", .string (some entry.name)),
    (some "inbound", .number (Decimal.digits entry.inbound.toNat)),
    (some "calls", .array (entry.calls.map Call.toJson))]

def toJson (document : Document) : Value :=
  .object [(some "archive", .string (some document.archive)),
    (some "classes", .array (document.classes.map Class.toJson))]

end Values

theorem edges_ofGraph (graph : CallGraph) : (ofGraph graph).edges = graph.edges := by
  simp only [edges, ofGraph, CallGraph.edges, List.flatMap_map, ofRecord, List.map_map]
  rfl

section Writing

theorem toList_separated (parts : List String) :
    (separated parts).toList = joined (parts.map String.toList) := by
  rw [separated, String.toList_intercalate]
  rfl

theorem toList_array (items : List String) :
    (array items).toList = '[' :: (joined (items.map String.toList) ++ [']']) := by
  simp [array, toList_separated]

theorem toList_object (members : List (String × String)) :
    (object members).toList = '{' :: (joined (members.map fun member =>
      (Quoted.render member.1).toList ++ ':' :: member.2.toList) ++ ['}']) := by
  simp [object, toList_separated, Function.comp_def]

theorem spells_count (value : UInt64) :
    Spells (number value).toList (.number (Decimal.digits value.toNat)) := by
  rw [number, Decimal.render, String.toList_ofList]
  exact spells_number value.toNat

theorem spellsMember (name : String) {text : List Char} {value : Value} (h : Spells text value) :
    SpellsMember ((Quoted.render name).toList ++ ':' :: text) (some name, value) :=
  ⟨name, text, rfl, rfl, h⟩

theorem spells_list {α : Type} {render : α → String} {value : α → Value}
    (h : ∀ item, Spells (render item).toList (value item)) (items : List α) :
    Spells (array (items.map render)).toList (.array (items.map value)) := by
  rw [toList_array, List.map_map]
  apply spells_array
  apply List.forall₂_map_left_iff.mpr
  apply List.forall₂_map_right_iff.mpr
  exact List.forall₂_same.mpr fun item _ => h item

theorem spells_call (call : Call) : Spells call.render.toList call.toJson := by
  rw [Call.render, toList_object]
  exact spells_object (spellsMember "callee" (spells_string call.callee))
    (.cons (spellsMember "count" (spells_count call.count)) .nil)

theorem spells_class (entry : Class) : Spells entry.render.toList entry.toJson := by
  rw [Class.render, toList_object]
  exact spells_object (spellsMember "name" (spells_string entry.name))
    (.cons (spellsMember "inbound" (spells_count entry.inbound))
      (.cons (spellsMember "calls" (spells_list spells_call entry.calls)) .nil))

theorem spells_render (document : Document) : Spells document.render.toList document.toJson := by
  rw [render, toList_object]
  exact spells_object (spellsMember "archive" (spells_string document.archive))
    (.cons (spellsMember "classes" (spells_list spells_class document.classes)) .nil)

theorem newline_notMem_render (document : Document) : '\n' ∉ document.render.toList :=
  (spells_render document).line

theorem newline_notMem_of_mem_render {documents : List Document} {line : String}
    (h : line ∈ documents.map render) : '\n' ∉ line.toList := by
  obtain ⟨document, -, rfl⟩ := List.mem_map.mp h
  exact newline_notMem_render document

end Writing

section Reading

theorem list?_map {α : Type} {item? : Value → Option α} {value : α → Value}
    (h : ∀ item, item? (value item) = some item) (items : List α) :
    list? item? (.array (items.map value)) = some items := by
  rw [list?, Results.mapM_map_eq_some fun item _ => h item, List.map_id']

theorem ofJson?_call (call : Call) : Call.ofJson? call.toJson = some call := by
  simp [Call.ofJson?, Call.toJson, fields?, text?, count?, Decimal.readWord?_digits]

theorem ofJson?_class (entry : Class) : Class.ofJson? entry.toJson = some entry := by
  have hcalls := list?_map ofJson?_call entry.calls
  simp [Class.ofJson?, Class.toJson, fields?, text?, count?, Decimal.readWord?_digits, hcalls]

theorem ofJson?_toJson (document : Document) : ofJson? document.toJson = some document := by
  have hclasses := list?_map ofJson?_class document.classes
  simp [ofJson?, toJson, fields?, text?, hclasses]

-- A document is read back as it was written, also with blanks after it.
theorem parse?_render_append (document : Document) {rest : String}
    (hrest : ∀ char ∈ rest.toList, isBlank char) :
    parse? (document.render ++ rest) = some document := by
  rw [parse?, String.toList_append, parse?_append_of_spells (spells_render document) hrest]
  exact ofJson?_toJson document

theorem parse?_render (document : Document) : parse? document.render = some document := by
  have h := @parse?_render_append document "" fun _ hchar => absurd hchar List.not_mem_nil
  rwa [String.append_empty] at h

-- The lines of several documents are told apart again, and each is read as its document.
theorem read_unlines (documents : List Document) :
    ∃ lines, Lines.ended? (Lines.unlines (documents.map render)).toList = some lines ∧
      List.Forall₂ (fun line document => parse? (String.ofList line) = some document)
        lines documents := by
  refine ⟨_, Lines.ended?_unlines fun _ hmem => newline_notMem_of_mem_render hmem, ?_⟩
  rw [List.map_map]
  apply List.forall₂_map_left_iff.mpr
  apply List.forall₂_same.mpr
  intro document _
  rw [Function.comp_apply, String.ofList_toList]
  exact parse?_render document

end Reading

end CallCensus.Document
