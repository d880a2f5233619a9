import CallCensus.Proofs.CallGraph.Packages
import Mathlib.Data.List.TakeWhile

namespace CallCensus

open ClassName

-- The name of a class that is no array, as class files write it.
structure InternalName where
  text : String
  text_ne : text ≠ ""
  undotted : '.' ∉ text.toList
  unterminated : ';' ∉ text.toList
  scalar : '[' ∉ text.toList

namespace InternalName

-- The class is nested in another one. A separator in front is part of the name.
def Nested (name : InternalName) : Prop := separator ∈ name.text.toList.tail

instance (name : InternalName) : Decidable name.Nested :=
  inferInstanceAs (Decidable (separator ∈ name.text.toList.tail))

-- How class files write an array of such classes.
def array (name : InternalName) (dimensions : Nat) : String :=
  String.ofList (List.replicate dimensions '[' ++ 'L' :: (name.text.toList ++ [';']))

end InternalName

namespace ClassName

-- What stands behind the name of an element in the name of an array.
def brackets (dimensions : Nat) : String :=
  String.ofList (List.replicate dimensions ['[', ']']).flatten

theorem toList_brackets (dimensions : Nat) :
    (brackets dimensions).toList = (List.replicate dimensions ['[', ']']).flatten := by
  rw [brackets, String.toList_ofList]

theorem takeWhile_brackets (dimensions : Nat) :
    (brackets dimensions).toList.takeWhile (· ≠ separator) = (brackets dimensions).toList := by
  apply List.takeWhile_eq_self_iff.mpr
  intro char hmem
  rw [toList_brackets, List.mem_flatten] at hmem
  obtain ⟨pair, hpair, hchar⟩ := hmem
  rw [List.eq_of_mem_replicate hpair] at hchar
  rcases List.mem_pair.mp hchar with rfl | rfl
  · decide
  · decide

theorem brackets_ne {dimensions : Nat} (h : 0 < dimensions) : brackets dimensions ≠ "" := by
  obtain ⟨fewer, rfl⟩ := Nat.exists_eq_succ_of_ne_zero (Nat.ne_of_gt h)
  intro hempty
  have hchars := toList_brackets (fewer + 1)
  rw [hempty, List.replicate_succ, List.flatten_cons] at hchars
  cases hchars

theorem takeWhile_replicate_cons {char other : Char} (h : other ≠ char) (count : Nat)
    (rest : List Char) :
    (List.replicate count char ++ other :: rest).takeWhile (· = char) =
      List.replicate count char := by
  have hkept : ∀ item ∈ List.replicate count char, decide (item = char) = true :=
    fun item hmem => decide_eq_true (List.eq_of_mem_replicate hmem)
  rw [List.takeWhile_append_of_pos hkept, List.takeWhile_cons_of_neg (by simp [h]), List.append_nil]

-- All that is behind a separator is dropped, and with it what comes behind the name.
theorem topLevelChars_append_of_mem {name : List Char} (h : separator ∈ name.tail) (back : List Char) :
    topLevelChars (name ++ back) = topLevelChars name := by
  cases name with
  | nil => cases h
  | cons first rest =>
      have hcut : (rest.takeWhile (· ≠ separator)).length ≠ rest.length := by
        intro hlength
        have hall := (List.takeWhile_prefix (· ≠ separator)).eq_of_length hlength
        rw [List.tail_cons, ← hall] at h
        simpa using List.mem_takeWhile_imp h
      rw [List.cons_append, topLevelChars, topLevelChars, List.takeWhile_append, if_neg hcut]

theorem tail_dotted (name : List Char) : (dotted name).tail = dotted name.tail := List.map_tail.symm

-- Only the marks between packages are replaced.
theorem mem_dotted_iff {char : Char} (hdot : char ≠ '.') (hslash : char ≠ '/') {name : List Char} :
    char ∈ dotted name ↔ char ∈ name := by
  unfold dotted
  rw [List.mem_map]
  constructor
  · rintro ⟨other, hmem, hother⟩
    split at hother
    · exact absurd hother.symm hdot
    · exact hother ▸ hmem
  · intro hmem
    exact ⟨char, hmem, if_neg hslash⟩

-- The brackets in front of the name of an array stand behind its source form.
theorem sourceChars_array {first : Char} (hfirst : first ≠ '[') (rest : List Char) {dimensions : Nat}
    (h : 0 < dimensions) :
    sourceChars (List.replicate dimensions '[' ++ first :: rest) =
      elementForm (first :: rest) ++ (brackets dimensions).toList := by
  have hdimensions :
      ((List.replicate dimensions '[' ++ first :: rest).takeWhile (· = '[')).length = dimensions := by
    rw [takeWhile_replicate_cons hfirst, List.length_replicate]
  have helement : (List.replicate dimensions '[' ++ first :: rest).drop dimensions = first :: rest := by
    rw [List.drop_append_of_le_length (by simp)]
    simp
  rw [sourceChars, hdimensions, if_neg (Nat.ne_of_gt h), helement, toList_brackets]

end ClassName

namespace InternalName

theorem sourceChars_text (name : InternalName) :
    sourceChars name.text.toList = dotted name.text.toList := by
  have hnone : name.text.toList.takeWhile (· = '[') = [] := by
    apply List.takeWhile_eq_nil_iff.mpr
    intro hlength hfirst
    have hchar := of_decide_eq_true hfirst
    exact name.scalar (hchar ▸ List.get_mem ..)
  rw [sourceChars, hnone]
  rfl

theorem elementForm_descriptor (name : List Char) :
    elementForm ('L' :: (name ++ [';'])) = dotted name := by
  have hnone : primitive? ('L' :: (name ++ [';'])) = none := by simp [primitive?]
  have hname : described? ('L' :: (name ++ [';'])) = some name := by simp [described?]
  rw [elementForm, hnone, hname]
  rfl

-- An array has the source form of its elements and a pair of brackets for each dimension.
theorem sourceForm_array (name : InternalName) {dimensions : Nat} (h : 0 < dimensions) :
    sourceForm (name.array dimensions) = sourceForm name.text ++ brackets dimensions := by
  apply String.toList_inj.mp
  rw [toList_sourceForm, array, String.toList_ofList, sourceChars_array (by decide) _ h,
    elementForm_descriptor, String.toList_append, toList_sourceForm, sourceChars_text]

theorem separator_mem_sourceForm {name : InternalName} :
    separator ∈ (sourceForm name.text).toList.tail ↔ name.Nested := by
  rw [toList_sourceForm, sourceChars_text, tail_dotted, mem_dotted_iff (by decide) (by decide)]
  rfl

theorem topLevel_array_of_nested {name : InternalName} (hnested : name.Nested) {dimensions : Nat}
    (h : 0 < dimensions) :
    topLevel (sourceForm (name.array dimensions)) = topLevel (sourceForm name.text) := by
  apply String.toList_inj.mp
  rw [toList_topLevel, name.sourceForm_array h, String.toList_append,
    topLevelChars_append_of_mem (separator_mem_sourceForm.mpr hnested), toList_topLevel]

theorem toList_sourceForm_ne (name : InternalName) : (sourceForm name.text).toList ≠ [] := by
  rw [toList_sourceForm, sourceChars_text, dotted, ne_eq, List.map_eq_nil_iff]
  exact mt String.toList_eq_nil_iff.mp name.text_ne

theorem topLevel_array_of_not_nested {name : InternalName} (hnested : ¬ name.Nested)
    {dimensions : Nat} (h : 0 < dimensions) :
    topLevel (sourceForm (name.array dimensions)) =
      topLevel (sourceForm name.text) ++ brackets dimensions := by
  have hplain : separator ∉ (sourceForm name.text).toList.tail :=
    mt separator_mem_sourceForm.mp hnested
  have hkept := topLevelChars_append name.toList_sourceForm_ne hplain
  have helement : topLevelChars (sourceForm name.text).toList = (sourceForm name.text).toList := by
    have hall := hkept []
    rwa [List.takeWhile_nil, List.append_nil] at hall
  apply String.toList_inj.mp
  rw [toList_topLevel, name.sourceForm_array h, String.toList_append, hkept, takeWhile_brackets,
    String.toList_append, toList_topLevel, helement]

-- An array is folded to an array of the top-level class only if its elements are of that class. The
-- separator in the name of a nested class takes the brackets with it, so that a call on an array of
-- nested classes is counted as one on their top-level class.
theorem array_counted_apart_iff (name : InternalName) {dimensions : Nat} (h : 0 < dimensions) :
    let owner := sourceForm (name.array dimensions)
    let element := topLevel (sourceForm name.text)
    (topLevel owner = element ++ brackets dimensions ↔ ¬ name.Nested) ∧
    (topLevel owner = element ↔ name.Nested) ∧
    ∀ record : CallRecord,
      (record.observe owner).callsTo element =
        (if name.Nested then record.callsTo element + 1 else record.callsTo element) ∧
      (record.observe owner).callsTo (element ++ brackets dimensions) =
        if name.Nested then record.callsTo (element ++ brackets dimensions)
        else record.callsTo (element ++ brackets dimensions) + 1 := by
  intro owner element
  have hcalls (record : CallRecord) := record.callsTo_observe owner
  have hne : element ++ brackets dimensions ≠ element := by
    intro heq
    have hlength := congrArg String.length heq
    rw [String.length_append, Nat.add_eq_left, String.length_eq_zero_iff] at hlength
    exact brackets_ne h hlength
  by_cases hnested : name.Nested
  · have howner : topLevel owner = element := topLevel_array_of_nested hnested h
    clear_value owner element
    simp [hcalls, howner, hnested, hne.symm]
  · have howner : topLevel owner = element ++ brackets dimensions :=
      topLevel_array_of_not_nested hnested h
    clear_value owner element
    simp [hcalls, howner, hnested, hne]

-- The array of a top-level class keeps its brackets, in any number of dimensions.
theorem array_counted_apart_top_level :
    let name : InternalName := ⟨"p/Color", by decide, by decide, by decide, by decide⟩
    name.array 2 = "[[Lp/Color;" ∧ sourceForm (name.array 2) = "p.Color[][]" ∧
      topLevel (sourceForm (name.array 2)) = topLevel (sourceForm name.text) ++ brackets 2 := by
  intro name
  have hnested : ¬ name.Nested := by decide
  exact ⟨by decide, by decide, (name.array_counted_apart_iff (by decide : 0 < 2)).1.mpr hnested⟩

-- The array of the values of a nested enumeration is counted as its top-level class.
theorem array_counted_apart_nested :
    let name : InternalName := ⟨"p/Paint$Color", by decide, by decide, by decide, by decide⟩
    let record := (CallRecord.ofCaller "p.Main").observe (sourceForm (name.array 1))
    sourceForm (name.array 1) = "p.Paint$Color[]" ∧
      topLevel (sourceForm (name.array 1)) ≠ topLevel (sourceForm name.text) ++ brackets 1 ∧
      topLevel (sourceForm (name.array 1)) = topLevel (sourceForm name.text) ∧
      record.callsTo "p.Paint" = 1 ∧ record.callsTo "p.Paint[]" = 0 := by
  decide

end InternalName

end CallCensus
