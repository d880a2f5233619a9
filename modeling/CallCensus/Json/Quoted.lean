import CallCensus.Text.Numerals
import CallCensus.Text.Utf16

namespace CallCensus.Json.Quoted

def escape (char : Char) : List Char :=
  if char = '"' then ['\\', '"']
  else if char = '\\' then ['\\', '\\']
  else if char = '\x08' then ['\\', 'b']
  else if char = '\t' then ['\\', 't']
  else if char = '\n' then ['\\', 'n']
  else if char = '\x0C' then ['\\', 'f']
  else if char = '\r' then ['\\', 'r']
  else if char < ' ' then '\\' :: 'u' :: Hexadecimal.digits 4 char.toNat
  else [char]

def render (text : String) : String :=
  String.ofList ('"' :: text.toList.flatMap escape ++ ['"'])

def escaped? : Char → Option Char
  | '"' => some '"'
  | '\\' => some '\\'
  | '/' => some '/'
  | 'b' => some '\x08'
  | 'f' => some '\x0C'
  | 'n' => some '\n'
  | 'r' => some '\r'
  | 't' => some '\t'
  | _ => none

def digit? (char : Char) : Option Nat :=
  if char.isDigit then some (char.toNat - '0'.toNat)
  else if 'a' ≤ char ∧ char ≤ 'f' then some (char.toNat - 'a'.toNat + 10)
  else if 'A' ≤ char ∧ char ≤ 'F' then some (char.toNat - 'A'.toNat + 10)
  else none

def unit? (a b c d : Char) : Option UInt16 := do
  let value := (((← digit? a) * 16 + (← digit? b)) * 16 + (← digit? c)) * 16 + (← digit? d)
  return value.toUInt16

-- Reads up to the closing quote: the code units spelled so far, and what follows the quote.
def units? : List Char → Option (List UInt16 × List Char)
  | [] => none
  | '"' :: rest => some ([], rest)
  | '\\' :: 'u' :: a :: b :: c :: d :: rest => do
    let unit ← unit? a b c d
    let (units, rest) ← units? rest
    return (unit :: units, rest)
  | '\\' :: char :: rest => do
    let char ← escaped? char
    let (units, rest) ← units? rest
    return (Utf16.ofChar char ++ units, rest)
  | char :: rest =>
    if char < ' ' ∨ char = '\\' then none
    else do
      let (units, rest) ← units? rest
      return (Utf16.ofChar char ++ units, rest)

-- Reads a string whose opening quote was taken already.
def read? (chars : List Char) : Option (Option String × List Char) := do
  let (units, rest) ← units? chars
  return ((Utf16.decode? units).map String.ofList, rest)

end CallCensus.Json.Quoted
