import CallCensus.Json.Quoted

namespace CallCensus.Json

-- A number keeps the characters it is written with.
inductive Value where
  | null
  | bool (value : Bool)
  | number (literal : List Char)
  -- The text is missing where escapes spell a surrogate that is not part of a pair.
  | string (text : Option String)
  | array (items : List Value)
  -- The members in the order in which they are written, names that are repeated included.
  | object (members : List (Option String × Value))

def isBlank (char : Char) : Bool := char = ' ' || char = '\t' || char = '\n' || char = '\r'

def skipBlanks (chars : List Char) : List Char := chars.dropWhile isBlank

def digits? (chars : List Char) : Option (List Char × List Char) :=
  match chars.span Char.isDigit with
  | ([], _) => none
  | found => some found

-- Digits without a zero in front of others.
def whole? (chars : List Char) : Option (List Char × List Char) := do
  let (digits, rest) ← digits? chars
  if digits.head? = some '0' ∧ digits ≠ ['0'] then none else some (digits, rest)

def fraction? : List Char → Option (List Char × List Char)
  | '.' :: rest => do
    let (digits, rest) ← digits? rest
    return ('.' :: digits, rest)
  | chars => some ([], chars)

def isSign (char : Char) : Bool := char = '+' || char = '-'

def exponent? : List Char → Option (List Char × List Char)
  | [] => some ([], [])
  | mark :: rest =>
    if mark = 'e' ∨ mark = 'E' then do
      let (sign, rest) := match rest with
        | [] => ([], [])
        | char :: rest => if isSign char then ([char], rest) else ([], char :: rest)
      let (digits, rest) ← digits? rest
      return (mark :: sign ++ digits, rest)
    else some ([], mark :: rest)

def literal? (chars : List Char) : Option (List Char × List Char) := do
  let (sign, rest) := match chars with
    | '-' :: rest => (['-'], rest)
    | rest => ([], rest)
  let (whole, rest) ← whole? rest
  let (fraction, rest) ← fraction? rest
  let (exponent, rest) ← exponent? rest
  return (sign ++ whole ++ fraction ++ exponent, rest)

def name? (chars : List Char) : Option (Option String × List Char) := do
  match skipBlanks chars with
  | '"' :: rest =>
    let (name, rest) ← Quoted.read? rest
    match skipBlanks rest with
    | ':' :: rest => return (name, rest)
    | _ => none
  | _ => none

mutual

-- Reads a value and leaves what follows it. The first argument bounds the depth of the calls;
-- twice the number of characters is more than enough.
def value? : Nat → List Char → Option (Value × List Char)
  | 0, _ => none
  | fuel + 1, chars =>
    match skipBlanks chars with
    | '"' :: rest => do
      let (text, rest) ← Quoted.read? rest
      return (.string text, rest)
    | '[' :: rest =>
      match skipBlanks rest with
      | ']' :: rest => some (.array [], rest)
      | rest => do
        let (items, rest) ← items? fuel rest
        return (.array items, rest)
    | '{' :: rest =>
      match skipBlanks rest with
      | '}' :: rest => some (.object [], rest)
      | rest => do
        let (members, rest) ← members? fuel rest
        return (.object members, rest)
    | 'n' :: 'u' :: 'l' :: 'l' :: rest => some (.null, rest)
    | 't' :: 'r' :: 'u' :: 'e' :: rest => some (.bool true, rest)
    | 'f' :: 'a' :: 'l' :: 's' :: 'e' :: rest => some (.bool false, rest)
    | rest => do
      let (literal, rest) ← literal? rest
      return (.number literal, rest)

def items? : Nat → List Char → Option (List Value × List Char)
  | 0, _ => none
  | fuel + 1, chars => do
    let (item, rest) ← value? fuel chars
    match skipBlanks rest with
    | ',' :: rest =>
      let (items, rest) ← items? fuel rest
      return (item :: items, rest)
    | ']' :: rest => return ([item], rest)
    | _ => none

def members? : Nat → List Char → Option (List (Option String × Value) × List Char)
  | 0, _ => none
  | fuel + 1, chars => do
    let (name, rest) ← name? chars
    let (value, rest) ← value? fuel rest
    match skipBlanks rest with
    | ',' :: rest =>
      let (members, rest) ← members? fuel rest
      return ((name, value) :: members, rest)
    | '}' :: rest => return ([(name, value)], rest)
    | _ => none

end

def Value.parse? (text : List Char) : Option Value := do
  let (value, rest) ← value? (2 * text.length + 2) text
  if skipBlanks rest = [] then some value else none

end CallCensus.Json
