import CallCensus.CallGraph.Roster
import CallCensus.Proofs.CallGraph.Counting
import Mathlib.Algebra.Ring.Nat
import Mathlib.Data.List.Induction
import Mathlib.Data.List.Nodup
import Mathlib.Data.List.TakeWhile

namespace CallCensus

open ClassName CallRecord

-- The calls of classes, each with the class it is made by.
def callPairs (seen : List (String × List String)) : List (String × String) :=
  seen.flatMap fun entry => entry.2.map (entry.1, ·)

-- How many calls go from one top-level class to another.
def callsBetween (seen : List (String × List String)) (caller callee : String) : Nat :=
  (callPairs seen).countP fun pair => topLevel pair.1 = caller ∧ topLevel pair.2 = callee

-- The calls from one class to another, entry by entry.
theorem callsBetween_eq_sum (seen : List (String × List String)) (caller callee : String) :
    callsBetween seen caller callee = (seen.map fun entry =>
      if topLevel entry.1 = caller then callsAmong entry.2 callee else 0).sum := by
  rw [callsBetween, callPairs, List.countP_flatMap]
  congr 1
  apply List.map_congr_left
  intro entry _
  simp only [Function.comp_apply, List.countP_map, callsAmong]
  by_cases h : topLevel entry.1 = caller <;> simp [h, Function.comp_def]

theorem callsBetween_append_singleton (seen : List (String × List String)) (raw : String)
    (callees : List String) (caller callee : String) :
    callsBetween (seen ++ [(raw, callees)]) caller callee =
      callsBetween seen caller callee +
        if topLevel raw = caller then callsAmong callees callee else 0 := by
  simp only [callsBetween_eq_sum, List.map_append, List.sum_append, List.map_cons, List.map_nil,
    List.sum_singleton]

theorem callsBetween_eq_zero {seen : List (String × List String)} {caller : String}
    (h : caller ∉ seen.map fun entry => topLevel entry.1) (callee : String) :
    callsBetween seen caller callee = 0 := by
  apply List.countP_eq_zero.mpr
  intro pair hmem
  obtain ⟨entry, hentry, hpair⟩ := List.mem_flatMap.mp hmem
  obtain ⟨name, -, rfl⟩ := List.mem_map.mp hpair
  simp only [decide_eq_true_eq, not_and]
  rintro rfl
  exact absurd (List.mem_map_of_mem hentry) h

theorem length_callPairs (seen : List (String × List String)) :
    (callPairs seen).length = (seen.map fun entry => entry.2.length).sum := by
  simp [callPairs, List.length_flatMap]

theorem callsBetween_le (seen : List (String × List String)) (caller callee : String) :
    callsBetween seen caller callee ≤ (seen.map fun entry => entry.2.length).sum := by
  rw [← length_callPairs]
  exact List.countP_le_length

theorem eraseDups_append_singleton (names : List String) (name : String) :
    (names ++ [name]).eraseDups =
      if name ∈ names then names.eraseDups else names.eraseDups ++ [name] := by
  rw [List.eraseDups_append]
  by_cases h : name ∈ names <;> simp [List.removeAll, h, List.eraseDups_cons]

namespace Roster

def callers (roster : Roster) : List String := roster.records.map (·.caller)

-- The index of a roster leads to the record of each caller and to nothing else.
def Indexed (roster : Roster) : Prop :=
  ∀ name position, roster.position? name = some position ↔ roster.callers[position]? = some name

-- A record holds exactly the calls that were seen from its caller.
structure RecordTallies (seen : List (String × List String)) (record : CallRecord) : Prop where
  counts : ∀ callee, record.callsTo callee = UInt64.ofNat (callsBetween seen record.caller callee)
  listed : ∀ callee, callee ∈ record.outbound.keys ↔ 0 < callsBetween seen record.caller callee
  inbound : record.inbound = 0

-- What holds of the roster after the calls of some classes were counted.
structure Tallies (seen : List (String × List String)) (roster : Roster) : Prop where
  indexed : roster.Indexed
  callers : roster.callers = (seen.map fun entry => topLevel entry.1).eraseDups
  records : ∀ record ∈ roster.records, RecordTallies seen record

theorem topLevel_idem (name : String) : topLevel (topLevel name) = topLevel name := by
  rw [topLevel, toList_topLevel, topLevelChars_idem, ← topLevel]

theorem callers_nodup {roster : Roster} (h : roster.Indexed) : roster.callers.Nodup := by
  apply List.nodup_iff_getElem?_ne_getElem?.mpr
  intro i j hij hj heq
  have hsome := List.getElem?_eq_getElem hj
  have hlater := (h _ _).mpr hsome
  rw [(h _ _).mpr (heq.trans hsome), Option.some.injEq] at hlater
  exact Nat.ne_of_lt hij hlater

-- A caller either has a record already or gets one at the end.
theorem enter_cases {roster : Roster} (h : roster.Indexed) (name : String) :
    (∃ position, roster.callers[position]? = some name ∧ roster.enter name = (roster, position)) ∨
    (name ∉ roster.callers ∧ roster.enter name =
      (⟨roster.records ++ [ofCaller name], (name, roster.records.length) :: roster.positions⟩,
        roster.records.length)) := by
  unfold enter
  cases hposition : roster.position? name with
  | some position => exact .inl ⟨position, (h name position).mp hposition, rfl⟩
  | none =>
      refine .inr ⟨fun hmem => ?_, rfl⟩
      obtain ⟨position, hcaller⟩ := List.getElem?_of_mem hmem
      rw [(h name position).mpr hcaller] at hposition
      cases hposition

theorem indexed_append {roster : Roster} (h : roster.Indexed) {name : String} {record : CallRecord}
    (hcaller : record.caller = name) (hnew : name ∉ roster.callers) :
    Indexed ⟨roster.records ++ [record], (name, roster.records.length) :: roster.positions⟩ := by
  intro other position
  have hlength : roster.callers.length = roster.records.length := List.length_map _
  have hcallers : Roster.callers ⟨roster.records ++ [record],
      (name, roster.records.length) :: roster.positions⟩ = roster.callers ++ [name] := by
    simp only [callers, List.map_append, List.map_cons, List.map_nil, hcaller]
  rw [hcallers, position?, lookup_cons_eq_ite, ← position?]
  by_cases hbefore : position < roster.records.length
  · rw [List.getElem?_append_left (hlength ▸ hbefore), ← h other position]
    by_cases hother : other = name
    · subst hother
      rw [if_pos rfl, h other position]
      have habsent : roster.callers[position]? ≠ some other :=
        fun hsome => hnew (List.mem_of_getElem? hsome)
      simp only [habsent, iff_false, Option.some.injEq]
      omega
    · rw [if_neg hother]
  · rw [List.getElem?_append_right (by omega), hlength, List.getElem?_singleton]
    by_cases hother : other = name
    · subst hother
      simp only [if_true, Option.some.injEq, ite_eq_left_iff, reduceCtorEq, imp_false, not_not]
      omega
    · have hnone : roster.position? other ≠ some position := by
        rw [ne_eq, h other position, List.getElem?_eq_none (by omega)]
        simp
      simp [hother, hnone, Ne.symm hother]

theorem recordTallies_ofCaller {seen : List (String × List String)} {name : String}
    (hname : topLevel name = name) (hnew : name ∉ seen.map fun entry => topLevel entry.1) :
    RecordTallies seen (ofCaller name) := by
  have hzero (callee : String) : callsBetween seen (ofCaller name).caller callee = 0 :=
    callsBetween_eq_zero (by rwa [ofCaller, hname]) callee
  refine ⟨fun callee => ?_, fun callee => ?_, rfl⟩
  · rw [hzero]
    rfl
  · rw [hzero]
    simp [ofCaller, CallCounts.keys_empty]

theorem tallies_enter {seen : List (String × List String)} {roster : Roster}
    (h : Tallies seen roster) {name : String} (hname : topLevel name = name) :
    let entered := roster.enter name
    entered.1.Indexed ∧ entered.1.callers[entered.2]? = some name ∧
      entered.1.callers =
        (if name ∈ roster.callers then roster.callers else roster.callers ++ [name]) ∧
      ∀ record ∈ entered.1.records, RecordTallies seen record := by
  obtain ⟨position, hposition, heq⟩ | ⟨hnew, heq⟩ := enter_cases h.indexed name
  · simp only [heq]
    exact ⟨h.indexed, hposition, (if_pos (List.mem_of_getElem? hposition)).symm, h.records⟩
  · simp only [heq, if_neg hnew]
    have hcaller : (ofCaller name).caller = name := hname
    refine ⟨indexed_append h.indexed hcaller hnew, ?_, ?_, ?_⟩
    · simp [callers, hcaller]
    · simp [callers, hcaller]
    · intro record hmem
      cases List.mem_append.mp hmem with
      | inl hmem => exact h.records record hmem
      | inr hmem =>
          obtain rfl := List.mem_singleton.mp hmem
          apply recordTallies_ofCaller hname
          rwa [h.callers, List.mem_eraseDups] at hnew

theorem recordTallies_observeAll {seen : List (String × List String)} {record : CallRecord}
    (h : RecordTallies seen record) {raw : String} (hraw : topLevel raw = record.caller)
    (callees : List String) : RecordTallies (seen ++ [(raw, callees)]) (record.observeAll callees) := by
  have hcaller := caller_observeAll record callees
  refine ⟨fun callee => ?_, fun callee => ?_, ?_⟩
  · rw [callsTo_observeAll, h.counts, hcaller, callsBetween_append_singleton, if_pos hraw,
      UInt64.ofNat_add]
  · rw [mem_keys_observeAll, h.listed, hcaller, callsBetween_append_singleton, if_pos hraw]
    omega
  · rw [inbound_observeAll, h.inbound]

theorem recordTallies_other {seen : List (String × List String)} {record : CallRecord}
    (h : RecordTallies seen record) {raw : String} (hraw : topLevel raw ≠ record.caller)
    (callees : List String) : RecordTallies (seen ++ [(raw, callees)]) record := by
  refine ⟨fun callee => ?_, fun callee => ?_, h.inbound⟩
  · rw [h.counts, callsBetween_append_singleton, if_neg hraw, Nat.add_zero]
  · rw [h.listed, callsBetween_append_singleton, if_neg hraw, Nat.add_zero]

theorem callers_modify (roster : Roster) (position : Nat) (callees : List String) :
    Roster.callers { roster with
      records := roster.records.modify position (·.observeAll callees) } = roster.callers := by
  apply List.ext_getElem?
  intro place
  simp only [callers, List.getElem?_map, List.getElem?_modify, Option.map_eq_map, Option.map_map]
  congr 1
  funext record
  by_cases hplace : position = place <;> simp [hplace, caller_observeAll]

-- Counting the calls of one more class touches its own record and no other.
theorem tallies_record {seen : List (String × List String)} {roster : Roster}
    (h : Tallies seen roster) (raw : String) (callees : List String) :
    Tallies (seen ++ [(raw, callees)]) (roster.record raw callees) := by
  obtain ⟨hindexed, hposition, hcallers, hrecords⟩ := tallies_enter h (topLevel_idem raw)
  unfold record
  generalize roster.enter (topLevel raw) = entered at *
  obtain ⟨entered, position⟩ := entered
  simp only at *
  have hmodify := callers_modify entered position callees
  refine ⟨?_, ?_, ?_⟩
  · intro name place
    rw [hmodify]
    exact hindexed name place
  · rw [hmodify, hcallers, h.callers, List.map_append, List.map_cons, List.map_nil,
      eraseDups_append_singleton]
    simp only [List.mem_eraseDups]
  · intro record hmem
    obtain ⟨place, hplace⟩ := List.getElem?_of_mem hmem
    rw [List.getElem?_modify] at hplace
    obtain ⟨before, hbefore, rfl⟩ := Option.map_eq_some_iff.mp hplace
    have htallies := hrecords before (List.mem_of_getElem? hbefore)
    have hcaller : entered.callers[place]? = some before.caller := by
      rw [callers, List.getElem?_map, hbefore, Option.map_some]
    by_cases hown : position = place
    · rw [if_pos hown]
      rw [hown, hcaller, Option.some.injEq] at hposition
      exact recordTallies_observeAll htallies hposition.symm callees
    · rw [if_neg hown]
      refine recordTallies_other htallies (fun heq => hown ?_) callees
      have hsame := (hindexed _ _).mpr hposition
      rw [heq, (hindexed _ _).mpr hcaller] at hsame
      exact (Option.some.inj hsame).symm

-- After every run of calls the roster holds exactly what was seen.
theorem tallies_recordAll (seen : List (String × List String)) :
    Tallies seen (empty.recordAll seen) := by
  induction seen using List.reverseRecOn with
  | nil =>
      refine ⟨fun name position => ?_, rfl, by simp [recordAll, empty]⟩
      simp [recordAll, empty, position?, callers]
  | append_singleton seen entry ih =>
      rw [recordAll, List.foldl_append, ← recordAll]
      exact tallies_record ih entry.1 entry.2

-- The roster as users see it: nothing is lost, nothing is counted twice, and all names are folded.
structure Exact (seen : List (String × List String)) (roster : Roster) : Prop where
  distinct : roster.callers.Nodup
  callers : roster.callers = (seen.map fun entry => topLevel entry.1).eraseDups
  index : ∀ name position, roster.position? name = some position ↔
    (roster.records[position]?).map (·.caller) = some name
  counts : ∀ record ∈ roster.records, ∀ callee,
    (record.callsTo callee).toNat = callsBetween seen record.caller callee
  positive : ∀ record ∈ roster.records, ∀ entry ∈ record.outbound.entries, 1 ≤ entry.2
  sorted : ∀ record ∈ roster.records, record.outbound.entries.Pairwise fun a b => a.1 < b.1
  folded : ∀ record ∈ roster.records, separator ∉ record.caller.toList.tail ∧
    ∀ entry ∈ record.outbound.entries, separator ∉ entry.1.toList.tail
  inbound : ∀ record ∈ roster.records, record.inbound = 0

theorem separator_notMem_topLevel (name : String) : separator ∉ (topLevel name).toList.tail := by
  rw [toList_topLevel]
  cases name.toList with
  | nil => simp [topLevelChars]
  | cons first rest =>
      rw [topLevelChars, List.tail_cons]
      intro hmem
      simpa using List.mem_takeWhile_imp hmem

theorem exists_topLevel_of_callsBetween_pos {seen : List (String × List String)}
    {caller callee : String} (h : 0 < callsBetween seen caller callee) :
    ∃ raw, topLevel raw = callee := by
  obtain ⟨pair, -, hpair⟩ := List.countP_pos_iff.mp h
  exact ⟨pair.2, (of_decide_eq_true hpair).2⟩

theorem exact_of_tallies {seen : List (String × List String)} {roster : Roster}
    (h : Tallies seen roster) (hseen : (seen.map fun entry => entry.2.length).sum < UInt64.size) :
    Exact seen roster := by
  have hcounts (record : CallRecord) (hmem : record ∈ roster.records) (callee : String) :
      (record.callsTo callee).toNat = callsBetween seen record.caller callee := by
    rw [(h.records record hmem).counts]
    exact UInt64.toNat_ofNat_of_lt' (Nat.lt_of_le_of_lt (callsBetween_le ..) hseen)
  have hlisted (record : CallRecord) (hmem : record ∈ roster.records) (entry : String × UInt64)
      (hentry : entry ∈ record.outbound.entries) : 0 < callsBetween seen record.caller entry.1 :=
    ((h.records record hmem).listed entry.1).mp (List.mem_map_of_mem hentry)
  refine ⟨callers_nodup h.indexed, h.callers, fun name position => ?_, hcounts, ?_,
    fun record _ => record.outbound.sorted, ?_, fun record hmem => (h.records record hmem).inbound⟩
  · rw [h.indexed name position, callers, List.getElem?_map]
  · intro record hmem entry hentry
    have hpos := hlisted record hmem entry hentry
    rw [← hcounts record hmem, callsTo, CallCounts.count_of_mem hentry] at hpos
    exact UInt64.le_iff_toNat_le.mpr hpos
  · intro record hmem
    constructor
    · have hcaller : record.caller ∈ roster.callers := List.mem_map_of_mem hmem
      rw [h.callers, List.mem_eraseDups] at hcaller
      obtain ⟨entry, -, heq⟩ := List.mem_map.mp hcaller
      exact heq ▸ separator_notMem_topLevel entry.1
    · intro entry hentry
      obtain ⟨raw, hraw⟩ := exists_topLevel_of_callsBetween_pos (hlisted record hmem entry hentry)
      exact hraw ▸ separator_notMem_topLevel raw

-- At every point of a run of calls the roster is exactly what was seen up to there.
theorem exact_recordAll {classes seen : List (String × List String)}
    (hclasses : (classes.map fun entry => entry.2.length).sum < UInt64.size)
    (hseen : seen <+: classes) : Exact seen (empty.recordAll seen) := by
  apply exact_of_tallies (tallies_recordAll seen)
  obtain ⟨later, rfl⟩ := hseen
  rw [List.map_append, List.sum_append] at hclasses
  omega

theorem exact_recordAll_nested :
    let seen := [("A$1", ["B", "B$2"]), ("Z", ["A"])]
    let classes := seen ++ [("A", ["[LB;", "B"])]
    (classes.map fun entry => entry.2.length).sum < UInt64.size ∧ seen <+: classes ∧
      Exact seen (empty.recordAll seen) := by
  intro seen classes
  have hclasses : (classes.map fun entry => entry.2.length).sum < UInt64.size := by decide
  have hseen : seen <+: classes := List.prefix_append ..
  exact ⟨hclasses, hseen, exact_recordAll hclasses hseen⟩

end Roster

end CallCensus
