import CallCensus.Proofs.CallGraph.Arrays

namespace CallCensus

open ClassName

-- The primitive types: the letters that class files write for them, and their keywords.
def primitives : List (Char × String) :=
  [('B', "byte"), ('C', "char"), ('D', "double"), ('F', "float"), ('I', "int"), ('J', "long"),
    ('S', "short"), ('Z', "boolean")]

-- What arrays are made of. A class whose arrays are named does not bear a keyword.
inductive ArrayElement where
  | primitive (letter : Char) (keyword : String) (known : (letter, keyword) ∈ primitives)
  | ofClass (name : InternalName) (unreserved : ∀ primitive ∈ primitives, primitive.2 ≠ name.text)

-- The name of the class that owns a method, which may be that of an array.
inductive OwnerName where
  | scalar (name : InternalName)
  | array (element : ArrayElement) (dimensions : Nat) (positive : 0 < dimensions)

namespace ArrayElement

-- How class files write it behind the brackets.
def text : ArrayElement → List Char
  | primitive letter _ _ => [letter]
  | ofClass name _ => 'L' :: (name.text.toList ++ [';'])

def form : ArrayElement → String
  | primitive _ keyword _ => keyword
  | ofClass name _ => sourceForm name.text

end ArrayElement

namespace OwnerName

def text : OwnerName → String
  | scalar name => name.text
  | array element dimensions _ => String.ofList (List.replicate dimensions '[' ++ element.text)

end OwnerName

namespace ClassName

theorem slash_notMem_dotted (name : List Char) : '/' ∉ dotted name := by
  unfold dotted
  intro hmem
  obtain ⟨char, -, hchar⟩ := List.mem_map.mp hmem
  split at hchar
  · cases hchar
  · exact absurd hchar ‹_›

-- A name without dots is what its source form says once the dots in that are turned back.
theorem map_dotted {name : List Char} (h : '.' ∉ name) :
    (dotted name).map (fun char => if char = '.' then '/' else char) = name := by
  rw [dotted, List.map_map]
  refine (List.map_congr_left fun char hmem => ?_).trans (List.map_id name)
  have hdot : char ≠ '.' := fun heq => h (heq ▸ hmem)
  by_cases hslash : char = '/'
  · simp [hslash]
  · simp [hslash, hdot]

theorem dotted_inj {first second : List Char} (hfirst : '.' ∉ first) (hsecond : '.' ∉ second)
    (h : dotted first = dotted second) : first = second := by
  rw [← map_dotted hfirst, h, map_dotted hsecond]

theorem count_brackets (dimensions : Nat) : (brackets dimensions).toList.count '[' = dimensions := by
  rw [toList_brackets]
  induction dimensions with
  | zero => rfl
  | succ dimensions ih =>
      rw [List.replicate_succ, List.flatten_cons, List.count_append, ih, Nat.add_comm]
      rfl

end ClassName

namespace InternalName

theorem sourceForm_inj {first second : InternalName}
    (h : sourceForm first.text = sourceForm second.text) : first.text = second.text := by
  have hchars := congrArg String.toList h
  rw [toList_sourceForm, toList_sourceForm, sourceChars_text, sourceChars_text] at hchars
  exact String.toList_inj.mp (dotted_inj first.undotted second.undotted hchars)

theorem slash_notMem_sourceForm (name : InternalName) : '/' ∉ (sourceForm name.text).toList := by
  rw [toList_sourceForm, sourceChars_text]
  exact slash_notMem_dotted _

theorem bracket_notMem_sourceForm (name : InternalName) : '[' ∉ (sourceForm name.text).toList := by
  rw [toList_sourceForm, sourceChars_text, mem_dotted_iff (by decide) (by decide)]
  exact name.scalar

end InternalName

namespace ArrayElement

-- A class has a keyword for its source form only if the keyword is its name.
theorem keyword_ne_sourceForm {name : InternalName}
    (unreserved : ∀ primitive ∈ primitives, primitive.2 ≠ name.text) {letter : Char} {keyword : String}
    (known : (letter, keyword) ∈ primitives) : keyword ≠ sourceForm name.text := by
  have hdot : ∀ primitive ∈ primitives, '.' ∉ primitive.2.toList := by decide
  have hsame : ∀ primitive ∈ primitives, dotted primitive.2.toList = primitive.2.toList := by decide
  intro h
  apply unreserved _ known
  have hchars := congrArg String.toList h
  rw [toList_sourceForm, name.sourceChars_text, ← hsame _ known] at hchars
  exact String.toList_inj.mp (dotted_inj (hdot _ known) name.undotted hchars)

theorem form_inj {first second : ArrayElement} (h : first.form = second.form) :
    first.text = second.text := by
  cases first with
  | primitive letter keyword known =>
      cases second with
      | primitive letter' keyword' known' =>
          have hletters : ∀ one ∈ primitives, ∀ other ∈ primitives,
              one.2 = other.2 → one.1 = other.1 := by decide
          exact congrArg (fun letter => [letter]) (hletters _ known _ known' h)
      | ofClass name unreserved => exact absurd h (keyword_ne_sourceForm unreserved known)
  | ofClass name unreserved =>
      cases second with
      | primitive letter keyword known => exact absurd h.symm (keyword_ne_sourceForm unreserved known)
      | ofClass name' unreserved' =>
          show 'L' :: (name.text.toList ++ [';']) = 'L' :: (name'.text.toList ++ [';'])
          rw [InternalName.sourceForm_inj h]

theorem bracket_notMem_form (element : ArrayElement) : '[' ∉ element.form.toList := by
  cases element with
  | primitive letter keyword known =>
      have hkeywords : ∀ primitive ∈ primitives, '[' ∉ primitive.2.toList := by decide
      exact hkeywords _ known
  | ofClass name unreserved => exact name.bracket_notMem_sourceForm

-- No element begins with a bracket, so that the brackets in front of it can be counted.
theorem exists_text_eq_cons (element : ArrayElement) :
    ∃ first rest, element.text = first :: rest ∧ first ≠ '[' := by
  cases element with
  | primitive letter keyword known =>
      have hletters : ∀ primitive ∈ primitives, primitive.1 ≠ '[' := by decide
      exact ⟨letter, [], rfl, hletters _ known⟩
  | ofClass name unreserved => exact ⟨'L', _, rfl, by decide⟩

theorem elementForm_text (element : ArrayElement) :
    elementForm element.text = element.form.toList := by
  cases element with
  | primitive letter keyword known =>
      have hforms : ∀ primitive ∈ primitives,
          elementForm [primitive.1] = primitive.2.toList := by decide
      exact hforms _ known
  | ofClass name unreserved =>
      rw [text, InternalName.elementForm_descriptor, form, toList_sourceForm, name.sourceChars_text]

end ArrayElement

namespace OwnerName

theorem sourceForm_array (element : ArrayElement) {dimensions : Nat} (h : 0 < dimensions) :
    sourceForm (array element dimensions h).text = element.form ++ brackets dimensions := by
  obtain ⟨first, rest, htext, hfirst⟩ := element.exists_text_eq_cons
  apply String.toList_inj.mp
  rw [toList_sourceForm, text, String.toList_ofList, htext, sourceChars_array hfirst rest h, ← htext,
    element.elementForm_text, String.toList_append]

theorem takeWhile_array (element : ArrayElement) {dimensions : Nat} (h : 0 < dimensions) :
    (array element dimensions h).text.toList.takeWhile (· = '[') = List.replicate dimensions '[' := by
  obtain ⟨first, rest, htext, hfirst⟩ := element.exists_text_eq_cons
  rw [text, String.toList_ofList, htext, takeWhile_replicate_cons hfirst]

-- The brackets in a source form are those of the dimensions.
theorem count_sourceForm_array (element : ArrayElement) {dimensions : Nat} (h : 0 < dimensions) :
    (sourceForm (array element dimensions h).text).toList.count '[' = dimensions := by
  rw [sourceForm_array, String.toList_append, List.count_append,
    List.count_eq_zero.mpr element.bracket_notMem_form, count_brackets, Nat.zero_add]

theorem sourceForm_scalar_ne_array (name : InternalName) (element : ArrayElement) {dimensions : Nat}
    (h : 0 < dimensions) : sourceForm name.text ≠ sourceForm (array element dimensions h).text := by
  intro heq
  have hcount := count_sourceForm_array element h
  rw [← heq, List.count_eq_zero.mpr name.bracket_notMem_sourceForm] at hcount
  omega

theorem sourceForm_array_inj {first second : ArrayElement} {dimensions other : Nat}
    {hfirst : 0 < dimensions} {hsecond : 0 < other}
    (h : sourceForm (array first dimensions hfirst).text =
      sourceForm (array second other hsecond).text) :
    (array first dimensions hfirst).text = (array second other hsecond).text := by
  obtain rfl : dimensions = other := by
    rw [← count_sourceForm_array first hfirst, h, count_sourceForm_array]
  rw [sourceForm_array, sourceForm_array] at h
  rw [text, text, ArrayElement.form_inj (String.append_left_inj _ |>.mp h)]

-- Owners that class files tell apart are apart in source code. Of a class the source form has none of
-- the marks of class files. Of an array it is that of the elements, with as many pairs of brackets as
-- there are brackets in front of them.
theorem sourceForm_keeps_apart :
    (∀ first second : OwnerName,
      sourceForm first.text = sourceForm second.text ↔ first.text = second.text) ∧
    (∀ name : InternalName, '/' ∉ (sourceForm (scalar name).text).toList ∧
      '[' ∉ (sourceForm (scalar name).text).toList) ∧
    ∀ (element : ArrayElement) (dimensions : Nat) (h : 0 < dimensions),
      ((array element dimensions h).text.toList.takeWhile (· = '[')).length = dimensions ∧
        sourceForm (array element dimensions h).text = element.form ++ brackets dimensions := by
  refine ⟨fun first second => ⟨fun h => ?_, congrArg sourceForm⟩, fun name => ?_,
    fun element dimensions h => ?_⟩
  · cases first with
    | scalar name =>
        cases second with
        | scalar other => exact InternalName.sourceForm_inj h
        | array element dimensions positive =>
            exact absurd h (sourceForm_scalar_ne_array name element positive)
    | array element dimensions positive =>
        cases second with
        | scalar name => exact absurd h.symm (sourceForm_scalar_ne_array name element positive)
        | array other dimensions' positive' => exact sourceForm_array_inj h
  · exact ⟨name.slash_notMem_sourceForm, name.bracket_notMem_sourceForm⟩
  · refine ⟨?_, sourceForm_array element h⟩
    rw [takeWhile_array, List.length_replicate]

-- A class may bear the letter of a primitive type. Its arrays are not those of the type.
theorem sourceForm_keeps_apart_letter :
    let numbers : OwnerName := array (.primitive 'I' "int" (by decide)) 2 (by decide)
    let classes : OwnerName :=
      array (.ofClass ⟨"I", by decide, by decide, by decide, by decide⟩ (by decide)) 2 (by decide)
    numbers.text = "[[I" ∧ classes.text = "[[LI;" ∧
      sourceForm numbers.text = "int" ++ brackets 2 ∧ sourceForm classes.text = "I" ++ brackets 2 ∧
      sourceForm numbers.text ≠ sourceForm classes.text := by
  intro numbers classes
  obtain ⟨hapart, -, harrays⟩ := sourceForm_keeps_apart
  exact ⟨by decide, by decide, (harrays _ 2 (by decide)).2, (harrays _ 2 (by decide)).2,
    mt (hapart numbers classes).mp (by decide)⟩

end OwnerName

end CallCensus
