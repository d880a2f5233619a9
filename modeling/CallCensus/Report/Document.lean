import CallCensus.CallGraph.Graph
import CallCensus.Json.Reader
import CallCensus.Text.Numerals

namespace CallCensus

structure Document.Call where
  callee : String
  count : UInt64
  deriving DecidableEq, Repr

structure Document.Class where
  name : String
  inbound : UInt64
  calls : List Document.Call
  deriving DecidableEq, Repr

structure Document where
  archive : String
  classes : List Document.Class
  deriving DecidableEq, Repr

namespace Document

def ofRecord (record : CallRecord) : Class :=
  ⟨record.caller, record.inbound, record.outbound.entries.map fun entry => ⟨entry.1, entry.2⟩⟩

def ofGraph (graph : CallGraph) : Document := ⟨graph.archive, graph.records.map ofRecord⟩

def edges (document : Document) : List Edge :=
  document.classes.flatMap fun entry =>
    entry.calls.map fun call => ⟨entry.name, entry.inbound, call.callee, call.count⟩

section Writing

def separated (parts : List String) : String := String.intercalate "," parts

def array (items : List String) : String := "[" ++ separated items ++ "]"

def object (members : List (String × String)) : String :=
  "\x7b" ++ separated (members.map fun member => Json.Quoted.render member.1 ++ ":" ++ member.2) ++
    "\x7d"

def number (value : UInt64) : String := Decimal.render value.toNat

def Call.render (call : Call) : String :=
  object [("callee", Json.Quoted.render call.callee), ("count", number call.count)]

def Class.render (entry : Class) : String :=
  object [("name", Json.Quoted.render entry.name), ("inbound", number entry.inbound),
    ("calls", array (entry.calls.map Call.render))]

-- The document on one line, without blanks.
def render (document : Document) : String :=
  object [("archive", Json.Quoted.render document.archive),
    ("classes", array (document.classes.map Class.render))]

end Writing

section Reading

-- The values of the fields of a record. It is written as an object with each of the names once,
-- among any others, or as an array of exactly the values.
def fields? (names : List String) : Json.Value → Option (List Json.Value)
  | .array items => if items.length = names.length then some items else none
  | .object members =>
    if members.all (·.1.isSome) then
      names.mapM fun name =>
        match members.filter (·.1 = some name) with
        | [member] => some member.2
        | _ => none
    else none
  | _ => none

def text? : Json.Value → Option String
  | .string text => text
  | _ => none

def count? : Json.Value → Option UInt64
  | .number literal => Decimal.readWord? literal
  | _ => none

def list? {α : Type} (item? : Json.Value → Option α) : Json.Value → Option (List α)
  | .array items => items.mapM item?
  | _ => none

def Call.ofJson? (value : Json.Value) : Option Call := do
  match ← fields? ["callee", "count"] value with
  | [callee, count] => return ⟨← text? callee, ← count? count⟩
  | _ => none

def Class.ofJson? (value : Json.Value) : Option Class := do
  match ← fields? ["name", "inbound", "calls"] value with
  | [name, inbound, calls] => return ⟨← text? name, ← count? inbound, ← list? Call.ofJson? calls⟩
  | _ => none

def ofJson? (value : Json.Value) : Option Document := do
  match ← fields? ["archive", "classes"] value with
  | [archive, classes] => return ⟨← text? archive, ← list? Class.ofJson? classes⟩
  | _ => none

def parse? (text : String) : Option Document := do
  ofJson? (← Json.Value.parse? text.toList)

end Reading

end Document

end CallCensus
