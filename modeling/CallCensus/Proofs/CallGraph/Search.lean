import CallCensus.CallGraph.Graph

namespace CallCensus.CallGraph

-- Records that stand in the order of their callers.
def Ordered (records : Array CallRecord) : Prop :=
  ∀ (place later : Nat) (record other : CallRecord), place ≤ later →
    records[place]? = some record → records[later]? = some other → record.caller ≤ other.caller

-- What is known of the range that a search has come to: all records behind it are above the name,
-- and the one it begins with is not, unless none was left out in front.
structure Brackets (records : Array CallRecord) (name : String) (low size : Nat) : Prop where
  below : low = 0 ∨ ∃ record, records[low]? = some record ∧ record.caller ≤ name
  above : ∀ (place : Nat) (record : CallRecord), low + size ≤ place →
    records[place]? = some record → name < record.caller

section Search

variable {records : Array CallRecord} {name : String} {low half size : Nat}

-- Where the record in the middle is above the name, so are all behind it.
theorem Brackets.front (h : Brackets records name low size) (hordered : Ordered records)
    (hmiddle : low + half < records.size) (habove : name < records[low + half].caller)
    (hhalf : half ≤ size - half) : Brackets records name low (size - half) where
  below := h.below
  above place record hplace hrecord := by
    have hle := hordered (low + half) place _ record (by omega)
      (Array.getElem?_eq_getElem hmiddle) hrecord
    exact Std.lt_of_lt_of_le habove hle

-- Where it is not above the name, the search goes on with it in front.
theorem Brackets.back (h : Brackets records name low size) (hmiddle : low + half < records.size)
    (hnot : ¬ name < records[low + half].caller) (hhalf : half ≤ size) :
    Brackets records name (low + half) (size - half) where
  below := .inr ⟨_, Array.getElem?_eq_getElem hmiddle, String.not_lt.mp hnot⟩
  above place record hplace hrecord := h.above place record (by omega) hrecord

theorem brackets_lastNotAbove (hordered : Ordered records) (hrange : low + size ≤ records.size)
    (h : Brackets records name low size) :
    Brackets records name (lastNotAbove records name low size hrange) 1 := by
  fun_induction lastNotAbove records name low size hrange with
  | case1 low size hrange hsize half hmiddle habove ih =>
      exact ih (h.front hordered hmiddle habove (by omega))
  | case2 low size hrange hsize half hmiddle hnot ih =>
      exact ih (h.back hmiddle hnot (by omega))
  | case3 low size hrange hsize =>
      exact ⟨h.below, fun place record hplace => h.above place record (by omega)⟩

-- A record of this name can only stand where the search ends, or else another of the name does.
theorem Brackets.exists_caller_eq (h : Brackets records name low 1) (hordered : Ordered records)
    {record : CallRecord} (hmem : record ∈ records) (hcaller : record.caller = name) :
    ∃ found, records[low]? = some found ∧ found.caller = name := by
  obtain ⟨place, hplace⟩ := Array.mem_iff_getElem?.mp hmem
  have hle : place ≤ low := by
    apply Nat.le_of_not_lt
    intro hlt
    have habove := h.above place record hlt hplace
    exact String.lt_irrefl name (hcaller ▸ habove)
  rcases h.below with rfl | ⟨found, hfound, hbelow⟩
  · obtain rfl : place = 0 := Nat.le_zero.mp hle
    exact ⟨record, hplace, hcaller⟩
  · have hfirst := hordered place low record found hle hplace hfound
    exact ⟨found, hfound, String.le_antisymm hbelow (hcaller ▸ hfirst)⟩

end Search

variable {graph : CallGraph} {name : String} {record : CallRecord}

theorem ordered_toArray (graph : CallGraph) : Ordered graph.records.toArray := by
  intro place later record other hle hrecord hother
  rw [List.getElem?_toArray] at hrecord hother
  rcases Nat.lt_or_eq_of_le hle with hlt | rfl
  · obtain ⟨hplace, rfl⟩ := List.getElem?_eq_some_iff.mp hrecord
    obtain ⟨hlater, rfl⟩ := List.getElem?_eq_some_iff.mp hother
    exact List.pairwise_iff_getElem.mp graph.ordered place later hplace hlater hlt
  · obtain rfl := Option.some.inj (hrecord.symm.trans hother)
    exact String.le_refl record.caller

theorem find?_sound (h : graph.find? name = some record) :
    record ∈ graph.records ∧ record.caller = name := by
  obtain ⟨hfound, hcaller⟩ := Option.filter_eq_some_iff.mp h
  exact ⟨by simpa using Array.mem_of_getElem? hfound, by simpa using hcaller⟩

theorem find?_complete (hmem : record ∈ graph.records) :
    ∃ found, graph.find? record.caller = some found := by
  have hordered := ordered_toArray graph
  have hall : Brackets graph.records.toArray record.caller 0 graph.records.toArray.size := by
    refine ⟨.inl rfl, fun place other hplace hother => ?_⟩
    rw [Array.getElem?_eq_none (by omega)] at hother
    cases hother
  obtain ⟨found, hfound, hcaller⟩ := (brackets_lastNotAbove hordered (by omega) hall).exists_caller_eq
    hordered (List.mem_toArray.mpr hmem) rfl
  exact ⟨found, Option.filter_eq_some_iff.mpr ⟨hfound, decide_eq_true hcaller⟩⟩

theorem isSome_find?_iff :
    (graph.find? name).isSome ↔ ∃ record ∈ graph.records, record.caller = name := by
  rw [Option.isSome_iff_exists]
  constructor
  · rintro ⟨record, h⟩
    exact ⟨record, find?_sound h⟩
  · rintro ⟨record, hmem, rfl⟩
    exact find?_complete hmem

end CallCensus.CallGraph
