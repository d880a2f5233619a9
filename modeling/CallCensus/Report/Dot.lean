import CallCensus.CallGraph.Graph
import CallCensus.Text.Numerals
import CallCensus.Text.Lines

namespace CallCensus.Dot

section Writing

-- Quotes, backslashes and newlines are escaped, so that a quoted text ends where it should and
-- stays on its line.
def escape (char : Char) : List Char :=
  if char = '\\' then ['\\', '\\']
  else if char = '"' then ['\\', '"']
  else if char = '\n' then ['\\', 'n']
  else [char]

def escaped (text : String) : String := String.ofList (text.toList.flatMap escape)

def heading (archive : String) : List String :=
  ["digraph \"" ++ escaped archive ++ "\" \x7b",
    "    rankdir=LR;",
    "    node [shape=box, fontname=\"Helvetica\", fontsize=12];",
    "    edge [fontname=\"Helvetica\", fontsize=10];",
    ""]

def node (record : CallRecord) : String :=
  let name := escaped record.caller
  "    \"" ++ name ++ "\" [label=\"" ++ name ++ " (in: " ++ Decimal.render record.inbound.toNat ++
    ")\"];"

def arrow (edge : Edge) : String :=
  "    \"" ++ escaped edge.caller ++ "\" -> \"" ++ escaped edge.callee ++ "\" [label=\"" ++
    Decimal.render edge.count.toNat ++ "\"];"

def render (graph : CallGraph) : String :=
  Lines.unlines (heading graph.archive ++ graph.records.map node ++ [""] ++
    graph.edges.map arrow ++ ["\x7d"])

end Writing

section Reading

-- What a graph looks like when it is drawn.
structure Drawing where
  archive : String
  nodes : List (String × UInt64)
  arrows : List (String × String × UInt64)
  deriving DecidableEq, Repr

def Drawing.ofGraph (graph : CallGraph) : Drawing :=
  ⟨graph.archive, graph.records.map fun record => (record.caller, record.inbound),
    graph.edges.map fun edge => (edge.caller, edge.callee, edge.count)⟩

def expect (literal : String) (chars : List Char) : Option (List Char) :=
  if literal.toList.isPrefixOf chars then some (chars.drop literal.length) else none

-- Reads a quoted text whose opening quote was taken already, up to the quote that closes it.
def unquote : List Char → Option (List Char × List Char)
  | [] => none
  | '"' :: rest => some ([], rest)
  | '\\' :: char :: rest => do
    let char ← match char with
      | '\\' => some '\\'
      | '"' => some '"'
      | 'n' => some '\n'
      | _ => none
    let (text, rest) ← unquote rest
    return (char :: text, rest)
  | char :: rest => do
    let (text, rest) ← unquote rest
    return (char :: text, rest)

def parseHeading? (line : List Char) : Option String := do
  let (archive, rest) ← unquote (← expect "digraph \"" line)
  if rest = " \x7b".toList then some (String.ofList archive) else none

def parseLabel? (name label : List Char) : Option UInt64 := do
  let rest ← expect " (in: " (← expect (String.ofList name) label)
  if rest.getLast? = some ')' then Decimal.readWord? rest.dropLast else none

def parseNode? (line : List Char) : Option (String × UInt64) := do
  let (name, rest) ← unquote (← expect "    \"" line)
  let (label, rest) ← unquote (← expect " [label=\"" rest)
  if rest = "];".toList then some (String.ofList name, ← parseLabel? name label) else none

def parseArrow? (line : List Char) : Option (String × String × UInt64) := do
  let (caller, rest) ← unquote (← expect "    \"" line)
  let (callee, rest) ← unquote (← expect " -> \"" rest)
  let (label, rest) ← unquote (← expect " [label=\"" rest)
  if rest = "];".toList then
    some (String.ofList caller, String.ofList callee, ← Decimal.readWord? label)
  else none

-- Reads a graph back from the lines that are written of it.
def parse? (text : String) : Option Drawing := do
  match ← Lines.ended? text.toList with
  | first :: _ :: _ :: _ :: [] :: rest =>
    let nodes := rest.takeWhile (· ≠ [])
    match rest.dropWhile (· ≠ []) with
    | [] :: rest =>
      if rest.getLast? = some "\x7d".toList then
        return ⟨← parseHeading? first, ← nodes.mapM parseNode?,
          ← rest.dropLast.mapM parseArrow?⟩
      else none
    | _ => none
  | _ => none

end Reading

end CallCensus.Dot
