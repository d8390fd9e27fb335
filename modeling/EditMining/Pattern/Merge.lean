import EditMining.Pattern

/-!
# Merging mined patterns

Patterns that were mined in different shards are brought together by adding up
the supports of equal token lists. The result is ordered by support and then by
tokens, so it does not show in which order the patterns came.
-/

namespace EditMining

/-- Whether one pattern's tokens come no later than another's. -/
def Pattern.tokensLe (p q : Pattern) : Bool :=
  (compare p.tokens q.tokens).isLE

/-- Whether a pattern comes no later than another in the order by support. -/
def Pattern.supportLe (p q : Pattern) : Bool :=
  (p.supportOrder q).isLE

/-- Put a pattern before others. It is added to the first of these when that has
the same tokens. -/
def addToFirst (p : Pattern) : List Pattern → List Pattern
  | [] => [p]
  | q :: rest =>
      if p.tokens = q.tokens then ⟨p.tokens, p.support + q.support⟩ :: rest
      else p :: q :: rest

/-- Neighbours with the same tokens made one. -/
def fuseNeighbours (ps : List Pattern) : List Pattern :=
  ps.foldr addToFirst []

/-- Each token list once, with its supports added up; more support first, equal
supports by tokens. -/
def mergePatterns (ps : List Pattern) : List Pattern :=
  (fuseNeighbours (ps.mergeSort Pattern.tokensLe)).mergeSort Pattern.supportLe

end EditMining
