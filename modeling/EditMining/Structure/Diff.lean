import EditMining.Structure.Node
import EditMining.Json.Fields

/-!
# Structural diffs

A structural diff compares the syntax trees of a hunk's two sides. It says which
nodes of the one correspond to which nodes of the other, and by which actions
the first tree becomes the second. It comes as a JSON document; entries that
name a node badly are dropped from it and the others stay.
-/

namespace EditMining

/-- Two nodes that correspond, one before and one after the edit. -/
structure NodeMatch where
  source : Node
  destination : Node
  deriving DecidableEq, Inhabited, Repr

inductive ActionKind where
  | updateNode
  | insertNode
  | deleteNode
  | moveNode
  | other (name : String)
  deriving DecidableEq, Inhabited, Repr

def ActionKind.ofName : String → ActionKind
  | "update-node" => .updateNode
  | "insert-node" => .insertNode
  | "delete-node" => .deleteNode
  | "move-node" => .moveNode
  | name => .other name

/-- One step from the tree before to the tree after. -/
structure EditAction where
  kind : ActionKind
  tree : Node
  /-- The new text of an updated node. -/
  label : Option String
  deriving DecidableEq, Inhabited, Repr

structure StructuralDiff where
  matchings : List NodeMatch
  actions : List EditAction
  deriving DecidableEq, Inhabited, Repr

namespace StructuralDiff

/-- Where the updated nodes begin in the text before, in action order. -/
def updateOffsets (d : StructuralDiff) : List Nat :=
  (d.actions.filter fun a => a.kind = .updateNode).map (·.tree.span.start)

open Json

/-- The two written nodes of a match. -/
def readMatch (v : Json) : Option (String × String) := do
  match ← fields [["src"], ["dest"]] v with
  | [source, destination] =>
      some (← required asString source, ← required asString destination)
  | _ => none

/-- The name of an action, its written node, and its label. -/
def readAction (v : Json) : Option (String × String × Option String) := do
  match ← fields [["action"], ["tree"], ["label"]] v with
  | [action, tree, label] =>
      some (← required asString action, ← required asString tree,
        ← orDefault none (asOptional asString) label)
  | _ => none

/-- The entries of a document. -/
def readDocument (v : Json) :
    Option (List (String × String) × List (String × String × Option String)) := do
  match ← fields [["matches"], ["actions"]] v with
  | [matchings, actions] =>
      some (← orDefault [] (asList readMatch) matchings, ← orDefault [] (asList readAction) actions)
  | _ => none

/-- The match of two written nodes, if both read. -/
def matchOf? (entry : String × String) : Option NodeMatch :=
  match Node.parse entry.1, Node.parse entry.2 with
  | .ok source, .ok destination => some ⟨source, destination⟩
  | _, _ => none

/-- The action on a written node, if that reads. -/
def actionOf? (entry : String × String × Option String) : Option EditAction :=
  match Node.parse entry.2.1 with
  | .ok tree => some ⟨ActionKind.ofName entry.1, tree, entry.2.2⟩
  | .error _ => none

/-- The failure on an answer that is no such document. -/
def unparsable : Error :=
  .oracle "unparsable oracle response" none none

/-- Read a document. -/
def parse (document : String) : Result StructuralDiff :=
  match decode readDocument document with
  | none => .error unparsable
  | some (matchings, actions) => .ok ⟨matchings.filterMap matchOf?, actions.filterMap actionOf?⟩

end StructuralDiff

end EditMining
