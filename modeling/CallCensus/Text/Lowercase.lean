import CallCensus.Text.Lowercase.Table

namespace CallCensus.Lowercase

def within (ranges : List (Nat × Nat)) (char : Char) : Bool :=
  ranges.any fun range => range.1 ≤ char.toNat && char.toNat ≤ range.2

def isCased (char : Char) : Bool := within casedRanges char

def isIgnorable (char : Char) : Bool := within ignorableRanges char

-- The lower-case form of a character on its own. It is one character, except that the dot of a
-- capital I with a dot becomes a mark of its own.
def ofChar (char : Char) : List Char :=
  if char = '\u0130' then ['i', '\u0307']
  else
    let run := lowerRuns.find? fun (first, last, step, _) =>
      first ≤ char.toNat && char.toNat ≤ last && (char.toNat - first) % step = 0
    match run with
    | some (first, _, _, lower) => [Char.ofNat (lower + (char.toNat - first))]
    | none => [char]

def meetsCased (chars : List Char) : Bool := ((chars.dropWhile isIgnorable).head?.map isCased).getD false

-- A capital sigma at the end of a word has a form of its own. The characters before it are given
-- from the last to the first.
def sigma (before after : List Char) : Char :=
  if meetsCased before && !meetsCased after then '\u03C2' else '\u03C3'

-- Lower-cases the second list, which follows the first. The first is given from the last character.
def ofCharsAfter (before : List Char) : List Char → List Char
  | [] => []
  | char :: rest =>
    let lower := if char = '\u03A3' then [sigma before rest] else ofChar char
    lower ++ ofCharsAfter (char :: before) rest

def render (text : String) : String := String.ofList (ofCharsAfter [] text.toList)

end CallCensus.Lowercase
