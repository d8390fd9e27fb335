import EditMining.Oracle
import EditMining.Text.Quoted

/-!
# Scripted oracles

A script says for some hunks what is answered, be it a structural diff or a
failure, and may hold an answer for all others. Two hunks are the same to it
when their joined sides are. It counts the questions it is asked.

A script can also break down at a hunk, which is no answer of the oracle's and
is not counted.
-/

namespace EditMining

/-- What happens when a scripted oracle is asked about a hunk. -/
inductive Reply where
  | diff (d : StructuralDiff)
  | failure (message : String)
  deriving DecidableEq, Inhabited, Repr

/-- Replies by the joined sides of the hunks they are for. -/
structure Script where
  replies : List ((String × String) × Reply) := []
  breakdowns : List ((String × String) × String) := []
  fallback : Option StructuralDiff := none
  deriving Inhabited, Repr

namespace Script

/-- A hunk as a script knows it. -/
def keyOf (h : Hunk) : String × String :=
  (h.joinedCondition, h.joinedConsequent)

/-- Reply to a hunk, whatever was replied to it before. -/
def reply (s : Script) (h : Hunk) (r : Reply) : Script :=
  { s with replies := (keyOf h, r) :: s.replies }

/-- Break down at a hunk. -/
def breakAt (s : Script) (h : Hunk) (message : String) : Script :=
  { s with breakdowns := (keyOf h, message) :: s.breakdowns }

/-- The failure on a hunk that the script does not know. -/
def unscripted (h : Hunk) : Error :=
  .oracle
    ("no scripted answer for " ++ Text.shownList h.condition ++ " -> "
      ++ Text.shownList h.consequent)
    none none

/-- The answer to a question that does not break the script. -/
def answer (s : Script) (h : Hunk) : Result StructuralDiff :=
  match s.replies.lookup (keyOf h) with
  | some (.diff d) => .ok d
  | some (.failure message) => .error (.oracle message none none)
  | none =>
      match s.fallback with
      | some d => .ok d
      | none => .error (unscripted h)

/-- The oracle that follows a script and counts the questions. -/
def oracle (s : Script) : Oracle Nat where
  answer _ h calls :=
    match s.breakdowns.lookup (keyOf h) with
    | some message => (.error (.internal message none), calls)
    | none => (s.answer h, calls + 1)

end Script

end EditMining
