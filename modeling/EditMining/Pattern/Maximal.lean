import EditMining.Pattern

/-!
# Maximal patterns

A pattern that is part of a longer one says nothing of its own. Patterns are
visited by the length of their written tokens, longest first, and one that is a
sub-sequence of a pattern kept before is dropped.
-/

namespace EditMining

/-- Visit patterns in order, `kept` being those that stay so far, the last one
first. -/
def keepMaximal (kept : List Pattern) : List Pattern → List Pattern
  | [] => kept.reverse
  | p :: rest =>
      if kept.any p.isSubsequenceOf then keepMaximal kept rest
      else keepMaximal (p :: kept) rest

/-- Whether a pattern is visited before another or may be. -/
def Pattern.notShorter (p q : Pattern) : Bool :=
  q.totalLength ≤ p.totalLength

/-- The patterns that are not part of another one, longest first; of equally
long ones the order stays. -/
def maximalPatterns (ps : List Pattern) : List Pattern :=
  keepMaximal [] (ps.mergeSort Pattern.notShorter)

end EditMining
