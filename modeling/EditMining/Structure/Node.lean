import EditMining.Error
import EditMining.Text.Blank
import EditMining.Text.Search
import EditMining.Decimal.Natural

/-!
# Nodes of syntax trees

An oracle names a node of a syntax tree by its kind, its text if it has one,
and the span of characters it covers in the joined fragment. In writing this is
`kind: text [start,end]`, or `kind [start,end]` for a node without a text. The
span is what stands in the last pair of brackets, so the text may itself hold
brackets and colons.
-/

namespace EditMining

/-- What a node is, as far as it matters here. -/
inductive NodeKind where
  | identifier
  | integer
  | string
  | other (name : String)
  deriving DecidableEq, Inhabited, Repr

def NodeKind.ofName : String → NodeKind
  | "identifier" => .identifier
  | "integer" => .integer
  | "string" => .string
  | name => .other name

def NodeKind.name : NodeKind → String
  | .identifier => "identifier"
  | .integer => "integer"
  | .string => "string"
  | .other name => name

/-- The characters from `start` up to but not including `stop`. -/
structure Span where
  start : Nat
  stop : Nat
  deriving DecidableEq, Inhabited, Repr

structure Node where
  kind : NodeKind
  text : Option String
  span : Span
  deriving DecidableEq, Inhabited, Repr

namespace Node

open Text

/-- Read an offset of a span. -/
def readOffset (entry : String) (raw : List Char) : Result Nat :=
  match Decimal.readUnsigned (trim raw) with
  | some n => .ok n
  | none => .error (.wireFormat ("invalid offset '" ++ String.ofList (trim raw) ++ "'") entry)

/-- Read what stands between the last brackets. -/
def readSpan (entry : String) (inside : List Char) : Result Span :=
  match splitAtFirst ',' inside with
  | none => .error (.wireFormat "span needs two offsets" entry)
  | some (start, stop) => do
      let start ← readOffset entry start
      let stop ← readOffset entry stop
      if stop < start then .error (.wireFormat "span ends before it starts" entry)
      else .ok ⟨start, stop⟩

/-- Read the kind and the text in front of the brackets. -/
def readHead (entry : String) (head : List Char) : Result (NodeKind × Option String) :=
  let (kind, text) := match splitAtFirst ':' (trimEnd head) with
    | some (kind, text) => (trim kind, some (String.ofList (trim text)))
    | none => (trim head, none)
  if kind.isEmpty then .error (.wireFormat "missing node kind" entry)
  else .ok (NodeKind.ofName (String.ofList kind), text)

/-- Read a written node. -/
def parse (entry : String) : Result Node :=
  match (trimEnd entry.toList).reverse with
  | ']' :: body =>
      match splitAtLast '[' body.reverse with
      | none => .error (.wireFormat "missing opening '['" entry)
      | some (head, inside) => do
          let span ← readSpan entry inside
          let (kind, text) ← readHead entry head
          .ok ⟨kind, text, span⟩
  | _ => .error (.wireFormat "missing closing ']'" entry)

/-- The written form of a node. -/
def render (n : Node) : String :=
  n.kind.name ++ (n.text.elim "" fun t => ": " ++ t)
    ++ " [" ++ n.span.start.repr ++ "," ++ n.span.stop.repr ++ "]"

end Node

end EditMining
