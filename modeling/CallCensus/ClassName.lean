namespace CallCensus.ClassName

def separator : Char := '$'

def topLevelChars : List Char → List Char
  | [] => []
  | first :: rest => first :: rest.takeWhile (· ≠ separator)

-- The name of the top-level class that `name` belongs to: all up to the first separator.
-- A separator in front is part of the name, so that no class ends up without one.
def topLevel (name : String) : String := String.ofList (topLevelChars name.toList)

@[simp] theorem toList_topLevel (name : String) :
    (topLevel name).toList = topLevelChars name.toList := by
  simp [topLevel]

theorem topLevelChars_idem (name : List Char) :
    topLevelChars (topLevelChars name) = topLevelChars name := by
  cases name with
  | nil => rfl
  | cons first rest =>
    simp only [topLevelChars, List.cons.injEq, true_and]
    induction rest with
    | nil => rfl
    | cons char rest ih => by_cases h : char = separator <;> simp_all

def primitive? : List Char → Option String
  | ['B'] => some "byte"
  | ['C'] => some "char"
  | ['D'] => some "double"
  | ['F'] => some "float"
  | ['I'] => some "int"
  | ['J'] => some "long"
  | ['S'] => some "short"
  | ['Z'] => some "boolean"
  | _ => none

def described? : List Char → Option (List Char)
  | 'L' :: rest => if rest.getLast? = some ';' then some rest.dropLast else none
  | _ => none

def dotted (name : List Char) : List Char := name.map fun char => if char = '/' then '.' else char

-- The element type of an array. What is no descriptor is taken for a name.
def elementForm (element : List Char) : List Char :=
  match primitive? element with
  | some keyword => keyword.toList
  | none => dotted ((described? element).getD element)

def sourceChars (name : List Char) : List Char :=
  let dimensions := (name.takeWhile (· = '[')).length
  if dimensions = 0 then dotted name
  else elementForm (name.drop dimensions) ++ (List.replicate dimensions ['[', ']']).flatten

-- The source form of a name of a class file: arrays have their brackets at the end.
def sourceForm (name : String) : String := String.ofList (sourceChars name.toList)

@[simp] theorem toList_sourceForm (name : String) :
    (sourceForm name).toList = sourceChars name.toList := by
  simp [sourceForm]

end CallCensus.ClassName
