import CallCensus.Proofs.Census.Aggregation
import CallCensus.Report.OutputFormat
import CallCensus.Text.Utf8
import Mathlib.Logic.Relation

namespace CallCensus

open ClassName

-- Two lists in strict order by a key are equal once they have the same members.
theorem eq_of_mem_iff_of_sorted {α : Type} {key : α → String} {first second : List α}
    (hfirst : first.Pairwise fun a b => key a < key b)
    (hsecond : second.Pairwise fun a b => key a < key b)
    (h : ∀ item, item ∈ first ↔ item ∈ second) : first = second := by
  have hnodup (items : List α) (hitems : items.Pairwise fun a b => key a < key b) : items.Nodup := by
    apply hitems.imp
    rintro item _ hlt rfl
    exact String.lt_irrefl _ hlt
  have hperm : first.Perm second :=
    (List.perm_ext_iff_of_nodup (hnodup first hfirst) (hnodup second hsecond)).mpr h
  have hantisymm (item other : α) (_ : item ∈ first) (_ : other ∈ second)
      (hlt : key item < key other) (hgt : key other < key item) : item = other :=
    absurd (String.lt_trans hlt hgt) (String.lt_irrefl _)
  exact hperm.eq_of_pairwise hantisymm hfirst hsecond

theorem CallCounts.mem_entries_of_count_pos {counts : CallCounts} {key : String}
    (h : 0 < (counts.count key).toNat) : (key, counts.count key) ∈ counts.entries := by
  unfold count at h ⊢
  cases hlookup : counts.entries.lookup key with
  | none => simp [hlookup] at h
  | some amount =>
      obtain ⟨before, after, hentries, -⟩ := List.lookup_eq_some_iff.mp hlookup
      rw [hentries, Option.getD_some]
      exact List.mem_append_right before List.mem_cons_self

namespace CallGraph

variable {graph first second : CallGraph} {names others : List String}
  {between : String → String → Nat} {into : String → Nat}

theorem Shows.mem_entries_iff (h : graph.Shows names between into) {record : CallRecord}
    (hrecord : record ∈ graph.records) (entry : String × UInt64) :
    entry ∈ record.outbound.entries ↔
      entry.2.toNat = between record.caller entry.1 ∧ 0 < between record.caller entry.1 := by
  constructor
  · intro hentry
    have hmem := mem_edges.mpr ⟨record, hrecord, entry, hentry, rfl⟩
    have hedge := (h.edges _).mp hmem
    exact ⟨hedge.2.2.1, hedge.2.2.2⟩
  · rintro ⟨hcount, hpos⟩
    rw [← h.counts record hrecord] at hcount hpos
    have hentry := CallCounts.mem_entries_of_count_pos hpos
    have hamount : entry.2 = record.outbound.count entry.1 := UInt64.toNat_inj.mp hcount
    rwa [← hamount] at hentry

-- What a graph shows of a class leaves no choice for the record of that class.
theorem Shows.record_eq (hfirst : first.Shows names between into)
    (hsecond : second.Shows others between into) {record other : CallRecord}
    (hrecord : record ∈ first.records) (hother : other ∈ second.records)
    (hcaller : record.caller = other.caller) : record = other := by
  have hentries : record.outbound.entries = other.outbound.entries := by
    apply eq_of_mem_iff_of_sorted record.outbound.sorted other.outbound.sorted
    intro entry
    rw [hfirst.mem_entries_iff hrecord, hsecond.mem_entries_iff hother, hcaller]
  have hinbound : record.inbound = other.inbound := by
    apply UInt64.toNat_inj.mp
    rw [hfirst.inbound record hrecord, hsecond.inbound other hother, hcaller]
  obtain ⟨caller, ⟨entries, hsorted⟩, inbound⟩ := record
  obtain ⟨caller', ⟨entries', hsorted'⟩, inbound'⟩ := other
  subst hcaller hentries hinbound
  rfl

theorem Shows.mem_of_mem (hfirst : first.Shows names between into)
    (hsecond : second.Shows others between into) (hnames : ∀ name, name ∈ names → name ∈ others)
    {record : CallRecord} (hrecord : record ∈ first.records) : record ∈ second.records := by
  have hname := (hfirst.callers record.caller).mp (List.mem_map_of_mem hrecord)
  have hcaller := (hsecond.callers record.caller).mpr (hnames _ hname)
  obtain ⟨other, hother, heq⟩ := List.mem_map.mp hcaller
  rwa [hfirst.record_eq hsecond hrecord hother heq.symm]

theorem Shows.strictly_ordered (h : graph.Shows names between into) :
    graph.records.Pairwise fun a b => a.caller < b.caller := by
  have hdistinct : graph.records.Pairwise fun a b => a.caller ≠ b.caller :=
    List.pairwise_map.mp h.distinct
  apply (graph.ordered.and hdistinct).imp
  intro record other hboth
  exact Std.lt_of_le_of_ne hboth.1 hboth.2

-- Graphs that show the same are the same, since the order of their records is fixed.
theorem Shows.eq_of_shows (hfirst : first.Shows names between into)
    (hsecond : second.Shows others between into) (hnames : ∀ name, name ∈ names ↔ name ∈ others)
    (harchive : first.archive = second.archive) : first = second := by
  have hrecords : first.records = second.records := by
    apply eq_of_mem_iff_of_sorted hfirst.strictly_ordered hsecond.strictly_ordered
    intro record
    constructor
    · exact hfirst.mem_of_mem hsecond fun name => (hnames name).mp
    · exact hsecond.mem_of_mem hfirst fun name => (hnames name).mpr
  obtain ⟨archive, records, hordered⟩ := first
  obtain ⟨archive', records', hordered'⟩ := second
  subst harchive hrecords
  rfl

end CallGraph

namespace Survey

def callerNames (classes : List DecodedClass) : List String :=
  classes.map fun entry => topLevel entry.name

-- Each call as the top-level classes that it goes from and to.
def foldedPairs (classes : List DecodedClass) : List (String × String) :=
  classes.flatMap fun entry =>
    entry.references.map fun callee => (topLevel entry.name, topLevel callee)

-- The same top-level classes, with the same calls between them as often.
structure SameCalls (classes others : List DecodedClass) : Prop where
  callers : ∀ name, name ∈ callerNames classes ↔ name ∈ callerNames others
  calls : (foldedPairs classes).Perm (foldedPairs others)

-- One way in which the same calls are told differently.
inductive Regroups : List DecodedClass → List DecodedClass → Prop where
  | classes {classes others : List DecodedClass} (h : classes.Perm others) : Regroups classes others
  | references (name : String) {references others : List String} (h : references.Perm others)
      (rest : List DecodedClass) : Regroups (⟨name, references⟩ :: rest) (⟨name, others⟩ :: rest)
  -- The calls of a class are told by two classes that belong to the same top-level class.
  | split {name part other : String} (hpart : topLevel part = topLevel name)
      (hother : topLevel other = topLevel name) (front back : List String)
      (rest : List DecodedClass) :
      Regroups (⟨name, front ++ back⟩ :: rest) (⟨part, front⟩ :: ⟨other, back⟩ :: rest)

-- Any number of these, in either direction.
def Regrouped : List DecodedClass → List DecodedClass → Prop := Relation.EqvGen Regroups

theorem callerNames_eq (classes : List DecodedClass) :
    (calls classes).map (fun entry => topLevel entry.1) = callerNames classes := by
  rw [calls, List.map_map]
  rfl

theorem foldedPairs_eq (classes : List DecodedClass) : foldedPairs classes =
    (callPairs (calls classes)).map fun pair => (topLevel pair.1, topLevel pair.2) := by
  simp only [foldedPairs, callPairs, calls, List.map_flatMap, List.flatMap_map, List.map_map,
    Function.comp_def]

theorem callsBetween_eq_count (classes : List DecodedClass) (caller callee : String) :
    callsBetween (calls classes) caller callee = (foldedPairs classes).count (caller, callee) := by
  rw [foldedPairs_eq, List.count_eq_countP, List.countP_map, callsBetween]
  apply List.countP_congr
  intro pair _
  simp

theorem callsInto_eq_countP (classes : List DecodedClass) (callee : String) :
    callsInto (calls classes) callee =
      (foldedPairs classes).countP fun pair => pair.2 = callee := by
  rw [foldedPairs_eq, List.countP_map, callsInto]
  rfl

theorem callsBetween_eq_zero_of_notMem {classes : List DecodedClass} {caller : String}
    (h : caller ∉ callerNames classes) (callee : String) :
    callsBetween (calls classes) caller callee = 0 := by
  rw [← callerNames_eq] at h
  exact callsBetween_eq_zero h callee

theorem sameCalls_of_regroups {classes others : List DecodedClass} (h : Regroups classes others) :
    SameCalls classes others := by
  cases h with
  | classes h => exact ⟨fun name => (h.map _).mem_iff, h.flatMap_right _⟩
  | references name h rest => exact ⟨fun _ => Iff.rfl, (h.map _).append_right _⟩
  | @split name part other hpart hother front back rest =>
      constructor
      · intro caller
        simp [callerNames, hpart, hother]
      · simp [foldedPairs, hpart, hother]

theorem sameCalls_of_regrouped {classes others : List DecodedClass} (h : Regrouped classes others) :
    SameCalls classes others := by
  induction h with
  | rel classes others h => exact sameCalls_of_regroups h
  | refl classes => exact ⟨fun _ => Iff.rfl, List.Perm.refl _⟩
  | symm classes others _ ih => exact ⟨fun name => (ih.callers name).symm, ih.calls.symm⟩
  | trans classes middle others _ _ ih ih' =>
      exact ⟨fun name => (ih.callers name).trans (ih'.callers name), ih.calls.trans ih'.calls⟩

theorem graphOf_eq_of_sameCalls (archive : String) {classes others : List DecodedClass}
    (hclasses : (classes.map fun entry => entry.references.length).sum < UInt64.size)
    (hothers : (others.map fun entry => entry.references.length).sum < UInt64.size)
    (h : SameCalls classes others) : graphOf archive classes = graphOf archive others := by
  have hfirst := shows_graphOf archive hclasses
  have hsecond := shows_graphOf archive hothers
  have hbetween : callsBetween (calls classes) = callsBetween (calls others) := by
    funext caller callee
    rw [callsBetween_eq_count, callsBetween_eq_count, h.calls.count_eq]
  have hinto : callsInto (calls classes) = callsInto (calls others) := by
    funext callee
    rw [callsInto_eq_countP, callsInto_eq_countP, h.calls.countP_eq]
  rw [callerNames_eq, hbetween, hinto] at hfirst
  rw [callerNames_eq] at hsecond
  exact hfirst.eq_of_shows hsecond h.callers rfl

theorem sameCalls_of_graphOf_eq {archive : String} {classes others : List DecodedClass}
    (hclasses : (classes.map fun entry => entry.references.length).sum < UInt64.size)
    (hothers : (others.map fun entry => entry.references.length).sum < UInt64.size)
    (h : graphOf archive classes = graphOf archive others) : SameCalls classes others := by
  have hfirst := shows_graphOf archive hclasses
  have hsecond := shows_graphOf archive hothers
  rw [callerNames_eq] at hfirst hsecond
  rw [← h] at hsecond
  have hcallers (name : String) : name ∈ callerNames classes ↔ name ∈ callerNames others :=
    (hfirst.callers name).symm.trans (hsecond.callers name)
  refine ⟨hcallers, List.perm_iff_count.mpr ?_⟩
  rintro ⟨caller, callee⟩
  rw [← callsBetween_eq_count, ← callsBetween_eq_count]
  by_cases hcaller : caller ∈ callerNames classes
  · obtain ⟨record, hrecord, rfl⟩ := List.mem_map.mp ((hfirst.callers caller).mpr hcaller)
    rw [← hfirst.counts record hrecord, ← hsecond.counts record hrecord]
  · have hcaller' : caller ∉ callerNames others := mt (hcallers caller).mpr hcaller
    rw [callsBetween_eq_zero_of_notMem hcaller, callsBetween_eq_zero_of_notMem hcaller']

-- The graph of some classes tells which calls there are between which top-level classes, no more
-- and no less. So neither the order of the classes and of their calls shows in what is written of
-- the graph, nor how the calls of a top-level class are spread over the classes nested in it.
theorem graphOf_eq_iff_sameCalls (archive : String) {classes others : List DecodedClass}
    (hclasses : (classes.map fun entry => entry.references.length).sum < UInt64.size)
    (hothers : (others.map fun entry => entry.references.length).sum < UInt64.size) :
    (graphOf archive classes = graphOf archive others ↔ SameCalls classes others) ∧
    (SameCalls classes others → ∀ format : OutputFormat,
      Utf8.encode (format.render (graphOf archive classes)) =
        Utf8.encode (format.render (graphOf archive others))) ∧
    (Regrouped classes others → SameCalls classes others) := by
  have hsame := graphOf_eq_of_sameCalls archive hclasses hothers
  refine ⟨⟨sameCalls_of_graphOf_eq hclasses hothers, hsame⟩, ?_, sameCalls_of_regrouped⟩
  intro h format
  rw [hsame h]

theorem graphOf_eq_iff_sameCalls_nested :
    let classes : List DecodedClass := [⟨"B", []⟩, ⟨"A", ["B", "C$1", "B$2"]⟩]
    let others : List DecodedClass := [⟨"A$1", ["B", "B$2"]⟩, ⟨"B$3", []⟩, ⟨"A", ["C"]⟩]
    (classes.map fun entry => entry.references.length).sum < UInt64.size ∧
      (others.map fun entry => entry.references.length).sum < UInt64.size ∧
      SameCalls classes others ∧
      (graphOf "a.jar" classes = graphOf "a.jar" others ↔ SameCalls classes others) ∧
      (SameCalls classes others → ∀ format : OutputFormat,
        Utf8.encode (format.render (graphOf "a.jar" classes)) =
          Utf8.encode (format.render (graphOf "a.jar" others))) ∧
      (Regrouped classes others → SameCalls classes others) := by
  intro classes others
  have hclasses : (classes.map fun entry => entry.references.length).sum < UInt64.size := by decide
  have hothers : (others.map fun entry => entry.references.length).sum < UInt64.size := by decide
  have hsame : SameCalls classes others := by
    have hnames : callerNames classes = ["B", "A"] := by decide
    have hothers : callerNames others = ["A", "B", "A"] := by decide
    refine ⟨fun name => ?_, by decide⟩
    rw [hnames, hothers]
    simp [or_comm]
  exact ⟨hclasses, hothers, hsame, graphOf_eq_iff_sameCalls "a.jar" hclasses hothers⟩

end Survey

end CallCensus
