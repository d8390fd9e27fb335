import EditMining.Oracle

/-!
# Lexical oracles

Where no parser is at hand, the two sides of a hunk can be compared leaf by
leaf. The *leaves* of a text are its names, its whole numbers and its strings in
single quotes; a string that is not closed goes on to the end of the text, and
all other characters stand between leaves. Each leaf of the condition, from left
to right, is matched with the first leaf of the consequent that has the same
kind and the same characters and is not matched yet.

Only ASCII letters and digits make names and numbers here. As in other answers,
the node of a string has no text of its own, only a span.
-/

namespace EditMining

/-- What a leaf is. -/
inductive LeafKind where
  | name
  | number
  | quoted
  deriving DecidableEq, Inhabited, Repr

namespace LeafKind

/-- Characters that a name can begin with. -/
def isNameStart (c : Char) : Bool :=
  c.isAlpha || c == '_'

def isNameChar (c : Char) : Bool :=
  c.isAlphanum || c == '_'

/-- The kind of leaf that a character begins, if it begins one. -/
def begunBy? (c : Char) : Option LeafKind :=
  if isNameStart c then some .name
  else if c.isDigit then some .number
  else if c == '\'' then some .quoted
  else none

/-- Whether a character still belongs to a leaf that has begun, and if so, what
is open behind it: a quote closes a string. -/
def continuedBy? : LeafKind → Char → Option (Option LeafKind)
  | .name, c => if isNameChar c then some (some .name) else none
  | .number, c => if c.isDigit then some (some .number) else none
  | .quoted, c => some (if c == '\'' then none else some .quoted)

def toNodeKind : LeafKind → NodeKind
  | .name => .identifier
  | .number => .integer
  | .quoted => .string

end LeafKind

/-- A leaf, with its quotes if it is a string, and where it begins. -/
structure Leaf where
  kind : LeafKind
  chars : List Char
  start : Nat
  deriving DecidableEq, Inhabited, Repr

namespace Leaf

/-- What belongs to the open leaf from some position on, and the leaves that
begin behind it. -/
def scan : (opened : Option LeafKind) → (position : Nat) → List Char → List Char × List Leaf
  | _, _, [] => ([], [])
  | opened, position, c :: rest =>
      match opened.bind (·.continuedBy? c) with
      | some opened =>
          let (more, later) := scan opened (position + 1) rest
          (c :: more, later)
      | none =>
          match LeafKind.begunBy? c with
          | some kind =>
              let (more, later) := scan (some kind) (position + 1) rest
              ([], ⟨kind, c :: more, position⟩ :: later)
          | none => ([], (scan none (position + 1) rest).2)

/-- The leaves of a text, from left to right. -/
def leavesOf (text : List Char) : List Leaf :=
  (scan none 0 text).2

/-- The same kind and the same characters, wherever they stand. -/
def sameAs (a b : Leaf) : Bool :=
  a.kind = b.kind && a.chars = b.chars

def toNode (a : Leaf) : Node where
  kind := a.kind.toNodeKind
  text := if a.kind = .quoted then none else some (String.ofList a.chars)
  span := ⟨a.start, a.start + a.chars.length⟩

/-- The matches of some leaves among those that are left on the other side. -/
def matched : (source left : List Leaf) → List (Leaf × Leaf)
  | [], _ => []
  | a :: rest, left =>
      match left.find? a.sameAs with
      | some b => (a, b) :: matched rest (left.eraseP a.sameAs)
      | none => matched rest left

end Leaf

/-- The matches between the leaves of both sides of a hunk. -/
def lexicalDiff (h : Hunk) : StructuralDiff where
  matchings :=
    (Leaf.matched (Leaf.leavesOf h.joinedCondition.toList)
      (Leaf.leavesOf h.joinedConsequent.toList)).map fun (a, b) => ⟨a.toNode, b.toNode⟩
  actions := []

/-- The oracle that compares leaves. -/
def lexicalOracle : Oracle Nat :=
  .ofFunction fun _ h => .ok (lexicalDiff h)

end EditMining
