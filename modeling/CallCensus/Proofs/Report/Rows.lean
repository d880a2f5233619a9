import CallCensus.Proofs.Report.Lines
import CallCensus.Proofs.Results

namespace CallCensus.Csv

section Rows

theorem toList_row (edge : Edge) : (row edge).toList =
    edge.caller.toList ++ ',' :: (Decimal.digits edge.inbound.toNat ++ ',' ::
      (edge.callee.toList ++ ',' :: Decimal.digits edge.count.toNat)) := by
  simp [row, Decimal.render]

-- Beside the three commas, what is no digit is in a row because it is in a name.
theorem count_row {char : Char} (hdigit : ¬ char.isDigit) (edge : Edge) :
    (row edge).toList.count char = edge.caller.toList.count char + edge.callee.toList.count char +
      if char = ',' then 3 else 0 := by
  have hnumber (value : Nat) : (Decimal.digits value).count char = 0 :=
    List.count_eq_zero.mpr (Decimal.notMem_digits hdigit value)
  rw [toList_row]
  simp only [List.count_append, List.count_cons, hnumber]
  by_cases hcomma : char = ','
  · simp only [hcomma, beq_self_eq_true, if_true]
    omega
  · have hne : (',' == char) = false := beq_false_of_ne (Ne.symm hcomma)
    simp only [hcomma, hne, if_false, Bool.false_eq_true]
    omega

theorem parseRow?_row {edge : Edge} (hcaller : ',' ∉ edge.caller.toList)
    (hcallee : ',' ∉ edge.callee.toList) : parseRow? (row edge).toList = some edge := by
  have hnumber (value : Nat) : ',' ∉ Decimal.digits value := Decimal.notMem_digits (by decide) value
  rw [parseRow?, toList_row, Split.on_append_cons _ _ _ hcaller,
    Split.on_append_cons _ _ _ (hnumber _), Split.on_append_cons _ _ _ hcallee,
    Split.on_eq_singleton _ _ (hnumber _)]
  simp [Decimal.readWord?_digits]

theorem count_comma_of_parseRow? {line : List Char} {edge : Edge} (h : parseRow? line = some edge) :
    line.count ',' = 3 := by
  have hlength := Split.length_on ',' line
  unfold parseRow? at h
  split at h
  next hparts =>
    rw [hparts] at hlength
    exact (Nat.succ.inj hlength).symm
  next => cases h

end Rows

section Tables

-- A name with nothing in it that ends a field or a line.
def Plain (name : String) : Prop := ',' ∉ name.toList ∧ '\n' ∉ name.toList

def PlainNames (edges : List Edge) : Prop := ∀ edge ∈ edges, Plain edge.caller ∧ Plain edge.callee

instance (name : String) : Decidable (Plain name) := inferInstanceAs (Decidable (_ ∧ _))

instance (edges : List Edge) : Decidable (PlainNames edges) :=
  inferInstanceAs (Decidable (∀ edge ∈ edges, Plain edge.caller ∧ Plain edge.callee))

variable {edges : List Edge}

theorem newline_notMem_row {edge : Edge} (hcaller : '\n' ∉ edge.caller.toList)
    (hcallee : '\n' ∉ edge.callee.toList) : '\n' ∉ (row edge).toList := by
  have hcount : (row edge).toList.count '\n' = _ := count_row (by decide) edge
  rw [List.count_eq_zero.mpr hcaller, List.count_eq_zero.mpr hcallee] at hcount
  exact List.count_eq_zero.mp hcount

theorem ended?_rows
    (h : ∀ edge ∈ edges, '\n' ∉ edge.caller.toList ∧ '\n' ∉ edge.callee.toList) :
    Lines.ended? (Lines.unlines (edges.map row)).toList =
      some (edges.map fun edge => (row edge).toList) := by
  have hlines : ∀ line ∈ edges.map row, '\n' ∉ line.toList := by
    intro line hline
    obtain ⟨edge, hedge, rfl⟩ := List.mem_map.mp hline
    exact newline_notMem_row (h edge hedge).1 (h edge hedge).2
  rw [Lines.ended?_unlines hlines, List.map_map]
  rfl

theorem parse?_rows (h : PlainNames edges) :
    parse? (Lines.unlines (edges.map row)) = some edges := by
  have hended := ended?_rows fun edge hedge => ⟨(h edge hedge).1.2, (h edge hedge).2.2⟩
  have hread := Results.mapM_map_eq_some fun edge hedge =>
    parseRow?_row (h edge hedge).1.1 (h edge hedge).2.1
  rw [parse?, hended, Option.bind_eq_bind, Option.bind_some, hread, List.map_id']

theorem count_newline_rows (edges : List Edge) :
    (Lines.unlines (edges.map row)).toList.count '\n' = edges.length +
      (edges.map fun edge => edge.caller.toList.count '\n' + edge.callee.toList.count '\n').sum := by
  have hrow (edge : Edge) : (row edge).toList.count '\n' =
      edge.caller.toList.count '\n' + edge.callee.toList.count '\n' := count_row (by decide) edge
  rw [Lines.count_newline_unlines_eq_add, List.length_map, List.map_map]
  simp only [Function.comp_def, hrow]

theorem sum_newlines_eq_zero_iff : (edges.map fun edge =>
      edge.caller.toList.count '\n' + edge.callee.toList.count '\n').sum = 0 ↔
    ∀ edge ∈ edges, '\n' ∉ edge.caller.toList ∧ '\n' ∉ edge.callee.toList := by
  rw [List.sum_eq_zero_iff_forall_eq_nat, List.forall_mem_map]
  simp only [Nat.add_eq_zero_iff, List.count_eq_zero]

-- No other names are read back: with a newline there are more lines than edges, and with a comma
-- more fields than a row has.
theorem plainNames_of_parse? (h : parse? (Lines.unlines (edges.map row)) = some edges) :
    PlainNames edges := by
  rw [parse?, Option.bind_eq_bind, Option.bind_eq_some_iff] at h
  obtain ⟨lines, hended, hread⟩ := h
  have hrows := Results.mapM_eq_some_iff.mp hread
  have hlength := Lines.length_of_ended? hended
  rw [count_newline_rows, hrows.length_eq] at hlength
  have hnewline := sum_newlines_eq_zero_iff.mp (Nat.left_eq_add.mp hlength)
  rw [ended?_rows hnewline, Option.some.injEq] at hended
  rw [← hended, List.forall₂_map_left_iff, List.forall₂_same] at hrows
  intro edge hedge
  have hcomma := count_comma_of_parseRow? (hrows edge hedge)
  rw [count_row (by decide), if_pos rfl] at hcomma
  obtain ⟨hcaller, hcallee⟩ := hnewline edge hedge
  exact ⟨⟨List.count_eq_zero.mp (by omega), hcaller⟩, ⟨List.count_eq_zero.mp (by omega), hcallee⟩⟩

theorem parse?_rows_iff : parse? (Lines.unlines (edges.map row)) = some edges ↔ PlainNames edges :=
  ⟨plainNames_of_parse?, parse?_rows⟩

-- Tables that follow each other are one table.
theorem join_render (graphs : List CallGraph) :
    String.join (graphs.map render) = Lines.unlines ((graphs.flatMap CallGraph.edges).map row) := by
  apply String.toList_inj.mp
  rw [String.toList_join, Lines.toList_unlines]
  simp only [List.flatMap_map, List.flatMap_assoc, render, Lines.toList_unlines]

end Tables

end CallCensus.Csv
