import CallCensus.Report.Document
import CallCensus.Report.Dot
import CallCensus.Text.Lowercase

namespace CallCensus.Csv

-- Names are written as they are, so a line can be read back where no name has a comma or a newline
-- in it.
def row (edge : Edge) : String :=
  edge.caller ++ "," ++ Decimal.render edge.inbound.toNat ++ "," ++ edge.callee ++ "," ++
    Decimal.render edge.count.toNat

def render (graph : CallGraph) : String := Lines.unlines (graph.edges.map row)

def parseRow? (line : List Char) : Option Edge :=
  match Split.on ',' line with
  | [caller, inbound, callee, count] => do
    return ⟨String.ofList caller, ← Decimal.readWord? inbound, String.ofList callee,
      ← Decimal.readWord? count⟩
  | _ => none

def parse? (text : String) : Option (List Edge) := do
  (← Lines.ended? text.toList).mapM parseRow?

end CallCensus.Csv

namespace CallCensus

inductive OutputFormat where
  | csv
  | json
  | dot
  deriving DecidableEq, Repr

namespace OutputFormat

def all : List OutputFormat := [.csv, .json, .dot]

def standard : OutputFormat := .csv

def name : OutputFormat → String
  | .csv => "csv"
  | .json => "json"
  | .dot => "dot"

structure Unknown where
  name : String
  deriving DecidableEq, Repr

def Unknown.message (unknown : Unknown) : String :=
  "unknown output format '" ++ unknown.name ++ "' (expected one of: csv, json, dot)"

-- The format with this name or with another word for it, in letters of either case.
def parse (text : String) : Except Unknown OutputFormat :=
  match Lowercase.render text with
  | "csv" | "text" => .ok .csv
  | "json" => .ok .json
  | "dot" | "graphviz" => .ok .dot
  | other => .error ⟨other⟩

-- The text of a graph. Every line of it is ended, so texts of several graphs can follow each other.
def render : OutputFormat → CallGraph → String
  | .csv, graph => Csv.render graph
  | .json, graph => (Document.ofGraph graph).render ++ "\n"
  | .dot, graph => Dot.render graph

end OutputFormat

end CallCensus
