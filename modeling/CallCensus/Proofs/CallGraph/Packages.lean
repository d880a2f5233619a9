import CallCensus.Proofs.CallGraph.Tally

namespace CallCensus

open ClassName

namespace Roster

-- The calls of two classes are counted in one record.
def Shares (roster : Roster) (raw other : String) : Prop :=
  ∃ position, roster.position? (topLevel raw) = some position ∧
    roster.position? (topLevel other) = some position

theorem shares_iff {seen : List (String × List String)} {raw other : String}
    (hraw : raw ∈ seen.map (·.1)) :
    (empty.recordAll seen).Shares raw other ↔ topLevel raw = topLevel other := by
  have htallies := tallies_recordAll seen
  constructor
  · rintro ⟨position, hposition, hother⟩
    rw [htallies.indexed] at hposition hother
    exact Option.some.inj (hposition.symm.trans hother)
  · intro heq
    have hcaller : topLevel raw ∈ (empty.recordAll seen).callers := by
      rw [htallies.callers, List.mem_eraseDups]
      obtain ⟨entry, hentry, rfl⟩ := List.mem_map.mp hraw
      exact List.mem_map_of_mem hentry
    obtain ⟨position, hposition⟩ := List.getElem?_of_mem hcaller
    rw [← htallies.indexed] at hposition
    exact ⟨position, hposition, heq ▸ hposition⟩

end Roster

namespace ClassName

-- A separator is not looked for before the second character, so all of a text that has none from
-- there on is kept.
theorem topLevelChars_append {front : List Char} (hne : front ≠ []) (hplain : separator ∉ front.tail)
    (rest : List Char) :
    topLevelChars (front ++ rest) = front ++ rest.takeWhile (· ≠ separator) := by
  cases front with
  | nil => exact absurd rfl hne
  | cons first front =>
      have hkept (char : Char) (hchar : char ∈ front) : decide (char ≠ separator) = true :=
        decide_eq_true fun heq => hplain (heq ▸ hchar)
      rw [List.cons_append, topLevelChars, List.takeWhile_append_of_pos hkept, List.cons_append]

theorem takeWhile_eq_topLevelChars {name : List Char} (h : name.head? ≠ some separator) :
    name.takeWhile (· ≠ separator) = topLevelChars name := by
  cases name with
  | nil => rfl
  | cons first rest =>
      rw [List.head?_cons, ne_eq, Option.some.injEq] at h
      simp [topLevelChars, h]

theorem head?_topLevelChars (name : List Char) : (topLevelChars name).head? = name.head? := by
  cases name <;> rfl

-- A text is cut at its last dot in one way only.
theorem append_dot_inj {front back front' back' : List Char} (hback : '.' ∉ back)
    (hback' : '.' ∉ back') :
    front ++ '.' :: back = front' ++ '.' :: back' ↔ front = front' ∧ back = back' := by
  constructor
  · intro h
    rcases List.append_eq_append_iff.mp h with ⟨middle, rfl, hrest⟩ | ⟨middle, rfl, hrest⟩
    · cases middle with
      | nil => simpa using hrest
      | cons dot middle =>
          rw [List.cons_append, List.cons.injEq] at hrest
          exact absurd (hrest.2 ▸ by simp) hback
    · cases middle with
      | nil => simpa [eq_comm] using hrest
      | cons dot middle =>
          rw [List.cons_append, List.cons.injEq] at hrest
          exact absurd (hrest.2 ▸ by simp) hback'
  · rintro ⟨rfl, rfl⟩
    rfl

end ClassName

-- A class of a package. Separators may stand anywhere in the name of the class, dots nowhere.
structure PackagedClass where
  package : String
  simple : String
  package_ne : package ≠ ""
  package_plain : separator ∉ package.toList
  simple_ne : simple ≠ ""
  simple_undotted : '.' ∉ simple.toList

namespace PackagedClass

def name (entry : PackagedClass) : String := entry.package ++ "." ++ entry.simple

-- Names that are made up for classes, as those of proxies are, may begin with a separator.
def Generated (entry : PackagedClass) : Prop := entry.simple.toList.head? = some separator

-- What is left of the name within the package once the class is folded.
def stem (entry : PackagedClass) : List Char := entry.simple.toList.takeWhile (· ≠ separator)

theorem toList_topLevel_name (entry : PackagedClass) :
    (topLevel entry.name).toList = entry.package.toList ++ '.' :: entry.stem := by
  have hne : entry.package.toList ++ ['.'] ≠ [] := by simp
  have hplain : separator ∉ entry.package.toList ++ ['.'] :=
    List.not_mem_append entry.package_plain (by decide)
  have happend : entry.name.toList = entry.package.toList ++ ['.'] ++ entry.simple.toList := by
    simp [name]
  rw [toList_topLevel, happend, topLevelChars_append hne (mt List.mem_of_mem_tail hplain),
    List.append_assoc,
    List.singleton_append, stem]

theorem stem_undotted (entry : PackagedClass) : '.' ∉ entry.stem :=
  fun hmem => entry.simple_undotted ((List.takeWhile_prefix _).mem hmem)

theorem stem_of_generated {entry : PackagedClass} (h : entry.Generated) : entry.stem = [] := by
  obtain ⟨rest, hrest⟩ := List.head?_eq_some_iff.mp h
  rw [stem, hrest]
  simp

theorem stem_of_not_generated {entry : PackagedClass} (h : ¬ entry.Generated) :
    entry.stem = (topLevel entry.simple).toList := by
  rw [stem, takeWhile_eq_topLevelChars h, toList_topLevel]

theorem head?_topLevel_simple (entry : PackagedClass) :
    (topLevel entry.simple).toList.head? = entry.simple.toList.head? := by
  rw [toList_topLevel, head?_topLevelChars]

theorem topLevel_simple_ne (entry : PackagedClass) : (topLevel entry.simple).toList ≠ [] := by
  intro hnil
  have hhead := entry.head?_topLevel_simple
  rw [hnil, List.head?_nil, eq_comm, List.head?_eq_none_iff] at hhead
  exact entry.simple_ne (String.toList_eq_nil_iff.mp hhead)

theorem stem_eq_nil_iff {entry : PackagedClass} : entry.stem = [] ↔ entry.Generated := by
  constructor
  · intro hnil
    by_contra hgenerated
    rw [stem_of_not_generated hgenerated] at hnil
    exact entry.topLevel_simple_ne hnil
  · exact stem_of_generated

theorem stem_eq_topLevel_iff {entry : PackagedClass} :
    entry.stem = (topLevel entry.simple).toList ↔ ¬ entry.Generated := by
  constructor
  · intro h hgenerated
    rw [stem_of_generated hgenerated] at h
    exact entry.topLevel_simple_ne h.symm
  · exact stem_of_not_generated

theorem stem_eq_stem_iff {entry other : PackagedClass} :
    entry.stem = other.stem ↔
      topLevel entry.simple = topLevel other.simple ∨ entry.Generated ∧ other.Generated := by
  have hsame (h : topLevel entry.simple = topLevel other.simple) :
      entry.Generated ↔ other.Generated := by
    rw [Generated, Generated, ← head?_topLevel_simple, ← head?_topLevel_simple, h]
  by_cases hgenerated : entry.Generated
  · rw [stem_of_generated hgenerated, eq_comm, stem_eq_nil_iff]
    constructor
    · exact fun hother => .inr ⟨hgenerated, hother⟩
    · rintro (heq | hboth)
      · exact (hsame heq).mp hgenerated
      · exact hboth.2
  · rw [stem_of_not_generated hgenerated]
    constructor
    · intro heq
      have hother : ¬ other.Generated := by
        intro hother
        rw [stem_of_generated hother] at heq
        exact entry.topLevel_simple_ne heq
      rw [stem_of_not_generated hother] at heq
      exact .inl (String.toList_inj.mp heq)
    · rintro (heq | hboth)
      · rw [heq, stem_of_not_generated (mt (hsame heq).mpr hgenerated)]
      · exact absurd hboth.1 hgenerated

theorem topLevel_name_eq_iff {entry : PackagedClass} {text : String} :
    topLevel entry.name = entry.package ++ "." ++ text ↔ entry.stem = text.toList := by
  rw [← String.toList_inj, toList_topLevel_name]
  simp

theorem topLevel_name_inj {entry other : PackagedClass} :
    topLevel entry.name = topLevel other.name ↔
      entry.package = other.package ∧ entry.stem = other.stem := by
  rw [← String.toList_inj, toList_topLevel_name, toList_topLevel_name,
    append_dot_inj entry.stem_undotted other.stem_undotted, String.toList_inj]

-- A class of a package is folded within the package unless its name begins with a separator. Of
-- such a name nothing is left, so all classes of a package that have one share a record, and other
-- classes share one exactly if they belong to the same top-level class.
theorem shares_record_iff (entry other : PackagedClass) (seen : List (String × List String)) :
    (topLevel entry.name = entry.package ++ "." ++ topLevel entry.simple ↔ ¬ entry.Generated) ∧
    (topLevel entry.name = entry.package ++ "." ↔ entry.Generated) ∧
    (entry.name ∈ seen.map (·.1) → ((Roster.empty.recordAll seen).Shares entry.name other.name ↔
      entry.package = other.package ∧
        (topLevel entry.simple = topLevel other.simple ∨ entry.Generated ∧ other.Generated))) := by
  refine ⟨?_, ?_, fun hentry => ?_⟩
  · rw [topLevel_name_eq_iff, stem_eq_topLevel_iff]
  · rw [← stem_eq_nil_iff, ← String.toList_empty, ← topLevel_name_eq_iff, String.append_empty]
  · rw [Roster.shares_iff hentry, topLevel_name_inj, stem_eq_stem_iff]

-- A class that is nested in another shares its record, and not that of a proxy.
theorem shares_record_nested :
    let outer : PackagedClass := ⟨"com.acme", "Outer", by decide, by decide, by decide, by decide⟩
    let inner : PackagedClass :=
      ⟨"com.acme", "Outer$Inner", by decide, by decide, by decide, by decide⟩
    let proxy : PackagedClass := ⟨"com.acme", "$Proxy12", by decide, by decide, by decide, by decide⟩
    let seen := [(proxy.name, ["A"]), (inner.name, ["B"])]
    topLevel inner.name = "com.acme.Outer" ∧
      (Roster.empty.recordAll seen).Shares inner.name outer.name ∧
      ¬ (Roster.empty.recordAll seen).Shares inner.name proxy.name := by
  intro outer inner proxy seen
  have hseen : inner.name ∈ seen.map (·.1) := by decide
  have hnested : topLevel inner.simple = topLevel outer.simple := by decide
  have hplain : ¬ inner.Generated := by
    unfold Generated
    decide
  have hapart : topLevel inner.simple ≠ topLevel proxy.simple := by decide
  have hname := (shares_record_iff inner outer seen).1.mpr hplain
  refine ⟨hname.trans (by decide), ?_, ?_⟩
  · exact ((shares_record_iff inner outer seen).2.2 hseen).mpr ⟨rfl, .inl hnested⟩
  · intro hshares
    obtain ⟨-, hsame | hboth⟩ := ((shares_record_iff inner proxy seen).2.2 hseen).mp hshares
    · exact hapart hsame
    · exact hplain hboth.1

-- Two proxies of one package, which have nothing to do with each other, are one nameless class.
theorem shares_record_proxies :
    let first : PackagedClass :=
      ⟨"com.acme", "$Proxy12", by decide, by decide, by decide, by decide⟩
    let second : PackagedClass :=
      ⟨"com.acme", "$Proxy13$1", by decide, by decide, by decide, by decide⟩
    let roster := Roster.empty.recordAll [(first.name, ["A"]), (second.name, ["B"])]
    topLevel first.simple ≠ topLevel second.simple ∧
      topLevel first.name ≠ first.package ++ "." ++ topLevel first.simple ∧
      roster.Shares first.name second.name ∧ roster.callers = ["com.acme."] := by
  intro first second roster
  exact ⟨by decide, by decide, ⟨0, by decide, by decide⟩, by decide⟩

end PackagedClass

end CallCensus
