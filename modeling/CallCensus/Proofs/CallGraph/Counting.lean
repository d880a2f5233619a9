import CallCensus.CallGraph.CallRecord
import Mathlib.Data.List.Basic

namespace CallCensus

theorem lookup_cons_eq_ite {α : Type} (key name : String) (value : α) (rest : List (String × α)) :
    ((name, value) :: rest).lookup key = if key = name then some value else rest.lookup key := by
  by_cases h : key = name
  · simp [h]
  · have hbeq : (key == name) = false := beq_false_of_ne h
    rw [List.lookup_cons, hbeq, if_neg h]

namespace CallCounts

def keys (counts : CallCounts) : List String := counts.entries.map (·.1)

theorem lookup_eq_none_of_lt {key : String} {entries : List (String × UInt64)}
    (h : ∀ entry ∈ entries, key < entry.1) : entries.lookup key = none := by
  apply List.lookup_eq_none_iff.mpr
  intro entry hmem
  apply bne_iff_ne.mpr
  rintro rfl
  exact String.lt_irrefl _ (h entry hmem)

theorem lookup_eq_some_of_mem {entries : List (String × UInt64)} {entry : String × UInt64}
    (hsorted : entries.Pairwise fun a b => a.1 < b.1) (hmem : entry ∈ entries) :
    entries.lookup entry.1 = some entry.2 := by
  induction entries with
  | nil => cases hmem
  | cons first rest ih =>
      obtain ⟨hfirst, hrest⟩ := List.pairwise_cons.mp hsorted
      obtain ⟨name, count⟩ := first
      rw [lookup_cons_eq_ite]
      cases List.mem_cons.mp hmem with
      | inl heq =>
          subst heq
          exact if_pos rfl
      | inr hmem =>
          have hne : entry.1 ≠ name := fun h => String.lt_irrefl _ (h ▸ hfirst entry hmem)
          rw [if_neg hne]
          exact ih hrest hmem

theorem count_addEntry {entries : List (String × UInt64)}
    (hsorted : entries.Pairwise fun a b => a.1 < b.1) (callee : String) (amount : UInt64)
    (key : String) :
    ((addEntry callee amount entries).lookup key).getD 0 =
      if key = callee then (entries.lookup key).getD 0 + amount else (entries.lookup key).getD 0 := by
  induction entries with
  | nil =>
      rw [addEntry, lookup_cons_eq_ite]
      by_cases h : key = callee <;> simp [h]
  | cons entry rest ih =>
      obtain ⟨hfirst, hrest⟩ := List.pairwise_cons.mp hsorted
      obtain ⟨name, count⟩ := entry
      simp only [addEntry]
      split
      · rename_i hlt
        have hnone : ((name, count) :: rest).lookup callee = none := by
          apply lookup_eq_none_of_lt
          intro entry hmem
          cases List.mem_cons.mp hmem with
          | inl heq => exact heq ▸ hlt
          | inr hmem => exact String.lt_trans hlt (hfirst entry hmem)
        rw [lookup_cons_eq_ite key callee]
        by_cases hkey : key = callee
        · rw [if_pos hkey, if_pos hkey, hkey, hnone]
          simp
        · rw [if_neg hkey, if_neg hkey]
      · simp only [lookup_cons_eq_ite]
        split
        · rename_i heq
          rw [lookup_cons_eq_ite, heq]
          by_cases hkey : key = name <;> simp [hkey]
        · rename_i hne
          rw [lookup_cons_eq_ite]
          by_cases hname : key = name
          · have hkey : key ≠ callee := fun h => hne (h.symm.trans hname)
            simp [hname, hname ▸ hkey]
          · rw [if_neg hname, if_neg hname]
            exact ih hrest

theorem count_add (counts : CallCounts) (callee : String) (amount : UInt64) (key : String) :
    (counts.add callee amount).count key =
      if key = callee then counts.count key + amount else counts.count key :=
  count_addEntry counts.sorted callee amount key

theorem mem_keys_add {counts : CallCounts} {callee key : String} {amount : UInt64} :
    key ∈ (counts.add callee amount).keys ↔ key = callee ∨ key ∈ counts.keys :=
  mem_keys_addEntry

theorem count_empty (key : String) : empty.count key = 0 := rfl

theorem keys_empty : empty.keys = [] := rfl

theorem count_of_mem {counts : CallCounts} {entry : String × UInt64} (h : entry ∈ counts.entries) :
    counts.count entry.1 = entry.2 := by
  rw [count, lookup_eq_some_of_mem counts.sorted h, Option.getD_some]

end CallCounts

namespace CallRecord

-- How many of these calls go to a class.
def callsAmong (callees : List String) (key : String) : Nat :=
  callees.countP fun callee => ClassName.topLevel callee = key

theorem caller_observeAll (record : CallRecord) (callees : List String) :
    (record.observeAll callees).caller = record.caller := by
  induction callees generalizing record with
  | nil => rfl
  | cons callee callees ih => exact ih (record.observe callee)

theorem inbound_observeAll (record : CallRecord) (callees : List String) :
    (record.observeAll callees).inbound = record.inbound := by
  induction callees generalizing record with
  | nil => rfl
  | cons callee callees ih => exact ih (record.observe callee)

theorem callsTo_observe (record : CallRecord) (callee key : String) :
    (record.observe callee).callsTo key =
      if ClassName.topLevel callee = key then record.callsTo key + 1 else record.callsTo key := by
  simp only [observe, callsTo, CallCounts.count_add, eq_comm]

theorem callsTo_observeAll (record : CallRecord) (callees : List String) (key : String) :
    (record.observeAll callees).callsTo key =
      record.callsTo key + UInt64.ofNat (callsAmong callees key) := by
  induction callees generalizing record with
  | nil => simp [observeAll, callsAmong]
  | cons callee callees ih =>
      rw [observeAll, List.foldl_cons, ← observeAll, ih, callsTo_observe, callsAmong, callsAmong,
        List.countP_cons]
      by_cases h : ClassName.topLevel callee = key
      · simp only [h, if_true, decide_true, UInt64.ofNat_add, UInt64.add_assoc]
        rw [UInt64.add_comm 1]
        rfl
      · simp [h]

theorem mem_keys_observeAll {record : CallRecord} {callees : List String} {key : String} :
    key ∈ (record.observeAll callees).outbound.keys ↔
      key ∈ record.outbound.keys ∨ 0 < callsAmong callees key := by
  induction callees generalizing record with
  | nil => simp [observeAll, callsAmong]
  | cons callee callees ih =>
      rw [observeAll, List.foldl_cons, ← observeAll, ih, observe, CallCounts.mem_keys_add,
        callsAmong, callsAmong, List.countP_cons]
      by_cases h : ClassName.topLevel callee = key
      · simp [h]
      · simp [h, Ne.symm h]

end CallRecord

end CallCensus
