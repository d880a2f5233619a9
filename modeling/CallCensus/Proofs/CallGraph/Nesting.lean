import CallCensus.Proofs.CallGraph.Arrays

namespace CallCensus

namespace ClassName

-- A class itself, and what is nested in it at any depth. Nothing is nested in a class without a name.
inductive Within (outer : String) : String → Prop where
  | self : Within outer outer
  | nested {middle : String} (hne : middle ≠ "") (h : Within outer middle) (simple : String) :
      Within outer (middle ++ "$" ++ simple)

section Characters

variable {name front : List Char}

theorem topLevelChars_prefix (name : List Char) : topLevelChars name <+: name := by
  cases name with
  | nil => exact List.prefix_refl []
  | cons first rest => exact List.cons_prefix_cons.mpr ⟨rfl, List.takeWhile_prefix _⟩

theorem prefix_takeWhile {p : Char → Bool} (hbegins : front <+: name)
    (hkept : ∀ char ∈ front, p char = true) : front <+: name.takeWhile p := by
  obtain ⟨rest, rfl⟩ := hbegins
  rw [List.takeWhile_append_of_pos hkept]
  exact List.prefix_append ..

-- What begins a name and has no separator behind its first character is not cut.
theorem prefix_topLevelChars (hbegins : front <+: name) (hplain : separator ∉ front.tail) :
    front <+: topLevelChars name := by
  cases name with
  | nil => exact hbegins
  | cons first rest =>
      rcases List.prefix_cons_iff.mp hbegins with rfl | ⟨front, rfl, hrest⟩
      · exact List.nil_prefix
      · have hkept : ∀ char ∈ front, decide (char ≠ separator) = true :=
          fun char hchar => decide_eq_true fun heq => hplain (heq ▸ hchar)
        exact List.cons_prefix_cons.mpr ⟨rfl, prefix_takeWhile hrest hkept⟩

-- The cut is in the name or at the separator behind it.
theorem topLevelChars_append_separator (hne : name ≠ []) (rest : List Char) :
    topLevelChars (name ++ separator :: rest) = topLevelChars name := by
  by_cases hmem : separator ∈ name.tail
  · exact topLevelChars_append_of_mem hmem _
  · have hstop : (separator :: rest).takeWhile (· ≠ separator) = [] :=
      List.takeWhile_cons_of_neg (by simp)
    have hname := topLevelChars_append hne hmem []
    rw [List.append_nil, List.takeWhile_nil, List.append_nil] at hname
    rw [topLevelChars_append hne hmem, hstop, List.append_nil, hname]

end Characters

variable {outer nested : String}

theorem topLevel_ne (h : outer ≠ "") : topLevel outer ≠ "" := by
  intro hempty
  have hhead := head?_topLevelChars outer.toList
  rw [← toList_topLevel, hempty, String.toList_empty, List.head?_nil, eq_comm,
    List.head?_eq_none_iff] at hhead
  exact h (String.toList_eq_nil_iff.mp hhead)

theorem topLevel_append_separator (h : outer ≠ "") (simple : String) :
    topLevel (outer ++ "$" ++ simple) = topLevel outer := by
  apply String.toList_inj.mp
  have happend : (outer ++ "$" ++ simple).toList = outer.toList ++ separator :: simple.toList := by
    rw [String.toList_append, String.toList_append, List.append_assoc]
    rfl
  rw [toList_topLevel, happend, topLevelChars_append_separator (mt String.toList_eq_nil_iff.mp h),
    toList_topLevel]

-- Each nesting adds a separator and a name behind what is there, and both are dropped.
theorem Within.topLevel_eq (h : Within outer nested) : topLevel nested = topLevel outer := by
  induction h with
  | self => rfl
  | nested hne _ simple ih => rw [topLevel_append_separator hne, ih]

end ClassName

open ClassName

-- Calls are counted by what names are folded to, and by nothing else of them.
section Folded

theorem CallRecord.observe_eq_of_topLevel_eq {callee other : String}
    (h : topLevel callee = topLevel other) (record : CallRecord) :
    record.observe callee = record.observe other := by
  rw [observe, observe, h]

theorem CallRecord.observeAll_eq {callees others : List String}
    (h : List.Forall₂ Within callees others) (record : CallRecord) :
    record.observeAll others = record.observeAll callees := by
  induction h generalizing record with
  | nil => rfl
  | @cons callee other callees others hfirst hrest ih =>
      rw [observeAll, observeAll, List.foldl_cons, List.foldl_cons,
        observe_eq_of_topLevel_eq hfirst.topLevel_eq]
      exact ih (record.observe callee)

-- The calls of a class nested in another one, to classes that are nested in others.
def Roster.EntryWithin (entry other : String × List String) : Prop :=
  Within entry.1 other.1 ∧ List.Forall₂ Within entry.2 other.2

theorem Roster.record_eq {entry other : String × List String} (h : EntryWithin entry other)
    (roster : Roster) : roster.record other.1 other.2 = roster.record entry.1 entry.2 := by
  obtain ⟨hcaller, hcallees⟩ := h
  have hcounted : (·.observeAll other.2) = (·.observeAll entry.2 : CallRecord → CallRecord) :=
    funext (CallRecord.observeAll_eq hcallees)
  rw [record, record, hcaller.topLevel_eq, hcounted]

theorem Roster.recordAll_eq {seen others : List (String × List String)}
    (h : List.Forall₂ EntryWithin seen others) (roster : Roster) :
    roster.recordAll others = roster.recordAll seen := by
  induction h generalizing roster with
  | nil => rfl
  | @cons entry other seen others hfirst hrest ih =>
      rw [recordAll, recordAll, List.foldl_cons, List.foldl_cons, record_eq hfirst]
      exact ih (roster.record entry.1 entry.2)

end Folded

-- A name is folded to the longest of its beginnings without a separator behind the first character,
-- which is empty for the empty name only and is itself folded to nothing shorter. What is nested in a
-- class is folded as the class is, so its calls and those made to it go into the record and under the
-- name of that class, one by one and in whole runs.
theorem ClassName.topLevel_closes_nesting :
    (∀ name : String,
      ((topLevel name).toList <+: name.toList ∧ separator ∉ (topLevel name).toList.tail ∧
        ∀ front : List Char, front <+: name.toList → separator ∉ front.tail →
          front <+: (topLevel name).toList) ∧
      (name ≠ "" → topLevel name ≠ "") ∧
      topLevel (topLevel name) = topLevel name ∧
      (name ≠ "" → ∀ simple, topLevel (name ++ "$" ++ simple) = topLevel name) ∧
      ∀ nested, Within name nested →
        topLevel nested = topLevel name ∧
        CallRecord.ofCaller nested = CallRecord.ofCaller name ∧
        (∀ record : CallRecord, record.observe nested = record.observe name ∧
          (record.observe nested).callsTo (topLevel name) = record.callsTo (topLevel name) + 1) ∧
        (∀ (roster : Roster) callees, roster.record nested callees = roster.record name callees) ∧
        ∀ seen : List (String × List String), nested ∈ seen.map (·.1) →
          (Roster.empty.recordAll seen).Shares nested name) ∧
    ∀ (roster : Roster) (seen others : List (String × List String)),
      List.Forall₂ Roster.EntryWithin seen others → roster.recordAll others = roster.recordAll seen := by
  refine ⟨fun name => ⟨⟨?_, ?_, fun front hbegins hplain => ?_⟩, topLevel_ne, Roster.topLevel_idem name,
    topLevel_append_separator, fun nested hwithin => ?_⟩, fun roster _ _ h => Roster.recordAll_eq h roster⟩
  · rw [toList_topLevel]
    exact topLevelChars_prefix name.toList
  · exact Roster.separator_notMem_topLevel name
  · rw [toList_topLevel]
    exact prefix_topLevelChars hbegins hplain
  · have hfolded := hwithin.topLevel_eq
    refine ⟨hfolded, ?_, fun record => ⟨?_, ?_⟩, fun roster callees => ?_, fun seen hseen => ?_⟩
    · rw [CallRecord.ofCaller, CallRecord.ofCaller, hfolded]
    · exact CallRecord.observe_eq_of_topLevel_eq hfolded record
    · rw [CallRecord.callsTo_observe, if_pos hfolded]
    · have hentry : Roster.EntryWithin (name, callees) (nested, callees) :=
        ⟨hwithin, List.forall₂_same.mpr fun callee _ => .self⟩
      exact Roster.record_eq hentry roster
    · exact (Roster.shares_iff hseen).mpr hfolded

-- A name with a separator in front and a letter of two bytes behind it, and a class two levels below,
-- whose own name is generated.
theorem ClassName.topLevel_closes_nesting_generated :
    let name := "$Über"
    let nested := name ++ "$" ++ "Inner" ++ "$" ++ "$Lambda$7"
    nested = "$Über$Inner$$Lambda$7" ∧ name ≠ "" ∧ topLevel name ≠ "" ∧ Within name nested ∧
      topLevel nested = "$Über" ∧
      (Roster.empty.record nested [nested]).records = (Roster.empty.record name [name]).records := by
  intro name nested
  have hne : name ≠ "" := by decide
  have hmiddle : name ++ "$" ++ "Inner" ≠ "" := by decide
  have hwithin : Within name nested := .nested hmiddle (.nested hne .self "Inner") "$Lambda$7"
  have hfolded := ((topLevel_closes_nesting.1 name).2.2.2.2 nested hwithin).1
  have hrun := topLevel_closes_nesting.2 Roster.empty [(name, [name])] [(nested, [nested])]
    (.cons ⟨hwithin, .cons hwithin .nil⟩ .nil)
  have hname : topLevel name = "$Über" := by decide
  exact ⟨by decide, hne, (topLevel_closes_nesting.1 name).2.1 hne, hwithin, hfolded.trans hname,
    congrArg Roster.records hrun⟩

end CallCensus
