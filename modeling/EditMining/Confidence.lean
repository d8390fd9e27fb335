import EditMining.Distinct
import EditMining.Pattern

/-!
# Confidence

How far a pattern can be trusted is measured on hunks that were held out of
mining. A hunk *could have been changed* by a pattern when its condition
contains every text of the trigger, and it *was changed* when its consequent
also contains every text of the change. The confidence is the share of the
second in the first.

All texts are looked for in one scan, by a search for several needles at once.
It reports its hits, which may overlap, and these are gone through until no
needle is missing. What builds the search is given (`Matcher`), and may refuse to.
-/

namespace EditMining

/-- A hunk that patterns are measured on, each side one text. -/
structure HeldOutHunk where
  condition : String
  consequent : String
  deriving DecidableEq, Inhabited, Repr

/-- A search for several needles in one text. A hit is reported as the place of
its needle in the list of needles. -/
abbrev Search :=
  (text : List Char) → List Nat

/-- What builds searches for needles, or says why it cannot. -/
structure Matcher where
  build : (needles : List (List Char)) → Except String Search

/-- The needles that a text begins with, by their places. -/
def hitsAtStart (needles : List (List Char)) (text : List Char) : List Nat :=
  needles.zipIdx.filterMap fun (needle, place) =>
    if needle.isPrefixOf text then some place else none

/-- Needles are looked for at every position, so hits may overlap. -/
def overlappingHits (needles : List (List Char)) : Search
  | [] => []
  | c :: rest => hitsAtStart needles (c :: rest) ++ overlappingHits needles rest

/-- The matcher that goes through a text position by position. -/
def Matcher.overlapping : Matcher where
  build needles := .ok (overlappingHits needles)

/-- Whether hits reach all needles. `found` says which needles have been hit and
`missing` how many have not; hits behind the last that was missing are not
looked at. -/
def allFound (found : List Bool) (missing : Nat) : List Nat → Bool
  | [] => false
  | hit :: hits =>
      if found[hit]? = some false then
        let missing := missing - 1
        missing == 0 || allFound (found.set hit true) missing hits
      else allFound found missing hits

/-- The texts that have to be searched for, each once and in order: empty ones do
not. -/
def needlesOf (texts : List String) : List (List Char) :=
  ((distinct (texts.filter (· ≠ ""))).mergeSort fun s t => (compare s t).isLE).map String.toList

/-- The test whether every one of some texts is contained in another text, by one
search for them. No texts at all count as not contained; empty texts are contained
everywhere. -/
def containsEvery (m : Matcher) (texts : List String) : Result (String → Bool) :=
  let needles := needlesOf texts
  if needles.isEmpty then .ok fun _ => !texts.isEmpty
  else
    match m.build needles with
    | .ok search =>
        .ok fun text =>
          allFound (needles.map fun _ => false) needles.length (search text.toList)
    | .error reason => .error (.internal ("failed to build token matcher: " ++ reason) none)

/-- How many held-out hunks could have been changed by a pattern, and how many
of them were. -/
structure Confidence where
  triggerable : Nat
  changed : Nat
  deriving DecidableEq, Inhabited, Repr

namespace Confidence

/-- The share of the changed hunks, zero when none could have been changed. -/
def value (c : Confidence) : Float :=
  if c.triggerable = 0 then 0.0
  else c.changed.toUInt64.toFloat / c.triggerable.toUInt64.toFloat

/-- Count the hunks that pass a first test, and those that pass a second one too. -/
def count (triggers changes : HeldOutHunk → Bool) (heldOut : List HeldOutHunk) : Confidence :=
  let triggerable := heldOut.filter triggers
  ⟨triggerable.length, (triggerable.filter changes).length⟩

/-- Count the hunks that a pattern could have changed and those it did. -/
def evaluate (m : Matcher) (p : Pattern) (heldOut : List HeldOutHunk) : Result Confidence := do
  let trigger ← containsEvery m p.trigger
  let change ← containsEvery m p.change
  .ok (count (fun h => trigger h.condition) (fun h => change h.consequent) heldOut)

end Confidence

end EditMining
