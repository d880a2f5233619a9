import CallCensus.CallGraph.Inbound
import CallCensus.Proofs.CallGraph.Tally
import Mathlib.Algebra.BigOperators.Group.List.Basic

namespace CallCensus

open ClassName

-- How many calls go into a top-level class.
def callsInto (seen : List (String × List String)) (callee : String) : Nat :=
  (callPairs seen).countP fun pair => topLevel pair.2 = callee

theorem callsInto_eq_sum (seen : List (String × List String)) (callee : String) :
    callsInto seen callee = (seen.map fun entry => CallRecord.callsAmong entry.2 callee).sum := by
  rw [callsInto, callPairs, List.countP_flatMap]
  congr 1
  apply List.map_congr_left
  intro entry _
  rw [Function.comp_apply, List.countP_map]
  rfl

theorem callsInto_le (seen : List (String × List String)) (callee : String) :
    callsInto seen callee ≤ (seen.map fun entry => entry.2.length).sum := by
  rw [← length_callPairs]
  exact List.countP_le_length

section Shares

variable {α : Type} [BEq α] [LawfulBEq α]

theorem sum_indicators (keys : List α) (item : α) :
    (keys.map fun key => if item == key then 1 else 0).sum = keys.count item := by
  induction keys with
  | nil => rfl
  | cons key rest ih =>
      rw [List.map_cons, List.sum_cons, ih, List.count_cons, Nat.add_comm, BEq.comm]

variable {keys : List α} (hdistinct : keys.Nodup)

include hdistinct

-- Distinct keys share out those items of a list that are among them.
theorem sum_count_eq_countP (items : List α) :
    (keys.map fun key => items.count key).sum = items.countP (· ∈ keys) := by
  induction items with
  | nil => simp
  | cons item items ih =>
      simp only [List.count_cons, List.countP_cons, List.sum_map_add, ih, sum_indicators]
      by_cases hitem : item ∈ keys
      · simp [hitem, List.count_eq_one_of_mem hdistinct hitem]
      · simp [hitem, List.count_eq_zero_of_not_mem hitem]

theorem sum_count_eq_length {items : List α} (hcovered : ∀ item ∈ items, item ∈ keys) :
    (keys.map fun key => items.count key).sum = items.length := by
  rw [sum_count_eq_countP hdistinct, List.countP_eq_length]
  simpa using hcovered

end Shares

-- Pairs whose first halves are among distinct names are counted name by name.
theorem sum_countP_eq {pairs : List (String × String)} {names : List String}
    (hdistinct : names.Nodup) (hnames : ∀ pair ∈ pairs, topLevel pair.1 ∈ names) (callee : String) :
    (names.map fun name => pairs.countP fun pair =>
      topLevel pair.1 = name ∧ topLevel pair.2 = callee).sum =
      pairs.countP fun pair => topLevel pair.2 = callee := by
  let callers := (pairs.filter (topLevel ·.2 = callee)).map (topLevel ·.1)
  have hcounts (name : String) : (pairs.countP fun pair =>
      topLevel pair.1 = name ∧ topLevel pair.2 = callee) = callers.count name := by
    rw [List.count_eq_countP, List.countP_map, List.countP_filter]
    apply List.countP_congr
    intro pair _
    simp
  have hcovered : ∀ caller ∈ callers, caller ∈ names := by
    intro caller hcaller
    obtain ⟨pair, hpair, rfl⟩ := List.mem_map.mp hcaller
    exact hnames pair (List.mem_of_mem_filter hpair)
  simp only [hcounts]
  rw [sum_count_eq_length hdistinct hcovered, List.length_map, List.countP_eq_length_filter]

theorem sum_callsBetween {seen : List (String × List String)} {callers : List String}
    (hdistinct : callers.Nodup) (hcallers : ∀ entry ∈ seen, topLevel entry.1 ∈ callers)
    (callee : String) : (callers.map (callsBetween seen · callee)).sum = callsInto seen callee := by
  apply sum_countP_eq hdistinct
  intro pair hpair
  obtain ⟨entry, hentry, hmem⟩ := List.mem_flatMap.mp hpair
  obtain ⟨name, -, rfl⟩ := List.mem_map.mp hmem
  exact hcallers entry hentry

namespace CallCounts

theorem count_foldl_add {entries : List (String × UInt64)}
    (hsorted : entries.Pairwise fun a b => a.1 < b.1) (totals : CallCounts) (key : String) :
    (entries.foldl (fun totals entry => totals.add entry.1 entry.2) totals).count key =
      totals.count key + (entries.lookup key).getD 0 := by
  induction entries generalizing totals with
  | nil => simp
  | cons entry rest ih =>
      obtain ⟨hfirst, hrest⟩ := List.pairwise_cons.mp hsorted
      obtain ⟨name, count⟩ := entry
      rw [List.foldl_cons, ih hrest, count_add, lookup_cons_eq_ite]
      by_cases hkey : key = name
      · have hnone : rest.lookup key = none := lookup_eq_none_of_lt (hkey ▸ hfirst)
        simp [hkey, hkey ▸ hnone]
      · rw [if_neg hkey, if_neg hkey]

theorem count_merge (totals counts : CallCounts) (key : String) :
    (totals.merge counts).count key = totals.count key + counts.count key :=
  count_foldl_add counts.sorted totals key

end CallCounts

namespace CallRecord

theorem count_foldl_merge (records : List CallRecord) (totals : CallCounts) (key : String) :
    (records.foldl (fun totals record => totals.merge record.outbound) totals).count key =
      totals.count key + UInt64.ofNat (records.map fun record => (record.callsTo key).toNat).sum := by
  induction records generalizing totals with
  | nil => simp
  | cons record records ih =>
      rw [List.foldl_cons, ih, CallCounts.count_merge, List.map_cons, List.sum_cons,
        UInt64.ofNat_add, UInt64.ofNat_toNat, UInt64.add_assoc, callsTo]

-- The total of a class is the sum of the counts that all records have of it.
theorem count_totalOutbound (records : List CallRecord) (key : String) :
    (totalOutbound records).count key =
      UInt64.ofNat (records.map fun record => (record.callsTo key).toNat).sum := by
  rw [totalOutbound, count_foldl_merge, CallCounts.count_empty, UInt64.zero_add]

end CallRecord

namespace Roster

variable {seen : List (String × List String)} {roster : Roster}

-- All calls into a class are found again in the records of the roster.
theorem sum_callsTo (h : Exact seen roster) (callee : String) :
    (roster.records.map fun record => (record.callsTo callee).toNat).sum = callsInto seen callee := by
  have hcallers : ∀ entry ∈ seen, topLevel entry.1 ∈ roster.callers := by
    intro entry hentry
    rw [h.callers, List.mem_eraseDups]
    exact List.mem_map_of_mem hentry
  rw [List.map_congr_left fun record hrecord => h.counts record hrecord callee,
    ← sum_callsBetween h.distinct hcallers callee, Roster.callers, List.map_map]
  rfl

theorem toNat_count_totalOutbound (h : Exact seen roster)
    (hseen : (seen.map fun entry => entry.2.length).sum < UInt64.size) (callee : String) :
    ((CallRecord.totalOutbound roster.records).count callee).toNat = callsInto seen callee := by
  rw [CallRecord.count_totalOutbound, sum_callsTo h]
  exact UInt64.toNat_ofNat_of_lt' (Nat.lt_of_le_of_lt (callsInto_le ..) hseen)

end Roster

end CallCensus
