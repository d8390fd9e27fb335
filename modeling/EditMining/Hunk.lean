import EditMining.Text.Lines
import EditMining.Timestamp

/-!
# Hunks and records

A hunk is one localised edit of code: its *condition*, the lines before the
edit, and its *consequent*, the lines after it. A record is a hunk with the
name of the file it was found in and the time it was merged.
-/

namespace EditMining

structure Hunk where
  condition : List String
  consequent : List String
  deriving DecidableEq, Inhabited, Repr

namespace Hunk

/-- A hunk with no lines on one side holds no edit worth mining. -/
def hasEmptySide (h : Hunk) : Bool :=
  h.condition.isEmpty || h.consequent.isEmpty

def joinedCondition (h : Hunk) : String :=
  Text.joinLines h.condition

def joinedConsequent (h : Hunk) : String :=
  Text.joinLines h.consequent

/-- The number of lines of the longer side. -/
def maxSideLength (h : Hunk) : Nat :=
  max h.condition.length h.consequent.length

/-- The same change to every line of both sides. -/
def mapLines (f : String → String) (h : Hunk) : Hunk :=
  ⟨h.condition.map f, h.consequent.map f⟩

/-- All lines, those of the condition first. -/
def lines (h : Hunk) : List String :=
  h.condition ++ h.consequent

end Hunk

/-- A hunk as it is collected. -/
structure Record where
  fileName : Option String
  mergedAt : Option Timestamp
  hunk : Hunk
  deriving DecidableEq, Inhabited, Repr

/-- The calendar year in which a record was merged. -/
def Record.year (r : Record) : Option Int :=
  r.mergedAt.map (·.year)

end EditMining
