import EditMining.Arithmetic
import EditMining.Token

/-!
# Patterns

A pattern is a list of tagged tokens that occurs, in order but not necessarily
without gaps, in several token sequences; its *support* says in how many. What
has to be in the code before the edit is the pattern's *trigger*, what has to
be there afterwards its *change*.
-/

namespace EditMining

/-- Whether the first list can be got from the second by leaving elements out.
Each wanted element is matched with its first occurrence that is left. -/
def isSubsequence {α : Type} [DecidableEq α] : List α → List α → Bool
  | [], _ => true
  | _ :: _, [] => false
  | wanted :: rest, candidate :: haystack =>
      if candidate = wanted then isSubsequence rest haystack
      else isSubsequence (wanted :: rest) haystack

/-- Greedy matching decides the sub-sequence relation. -/
theorem isSubsequence_iff_sublist {α : Type} [DecidableEq α] {needle haystack : List α} :
    isSubsequence needle haystack = true ↔ needle.Sublist haystack := by
  fun_induction isSubsequence needle haystack with
  | case1 => simp
  | case2 => simp
  | case3 rest candidate haystack ih => rw [ih, List.cons_sublist_cons]
  | case4 wanted rest candidate haystack hne ih =>
      rw [ih]
      constructor
      · exact fun h => h.cons _
      · intro h
        cases h with
        | cons _ h => exact h
        | cons_cons _ h => exact absurd rfl hne

/-- A list of tagged tokens and the number of sequences it occurs in. -/
structure Pattern where
  tokens : List Token
  support : Nat
  deriving DecidableEq, Inhabited, Repr

/-- The half of an edit that a pattern is looked at from. -/
inductive Projection where
  | trigger
  | change
  deriving DecidableEq, Repr

/-- Whether tokens of a polarity belong to a projection. -/
def Projection.includes : Projection → Polarity → Bool
  | .trigger => Polarity.inTrigger
  | .change => Polarity.inChange

namespace Pattern

/-- The texts of one half of the edit. -/
def projection (p : Pattern) (side : Projection) : List String :=
  (p.tokens.filter fun t => side.includes t.polarity).map (·.text)

/-- The texts that have to be there before the edit. -/
def trigger (p : Pattern) : List String :=
  p.projection .trigger

/-- The texts that have to be there after the edit. -/
def change (p : Pattern) : List String :=
  p.projection .change

def hasPolarity (p : Pattern) (polarity : Polarity) : Bool :=
  p.tokens.any fun t => t.polarity = polarity

/-- Something is removed and something is added. -/
def proposesChange (p : Pattern) : Bool :=
  p.hasPolarity .removed && p.hasPolarity .added

/-- Something is removed or something is added. -/
def hasEdit (p : Pattern) : Bool :=
  p.tokens.any fun t => t.polarity ≠ .kept

/-- The lengths of all written tokens together. -/
def totalLength (p : Pattern) : Nat :=
  (p.tokens.map Token.renderedLength).sum

/-- Containment of one pattern's tokens in another's, gaps allowed. -/
def isSubsequenceOf (p q : Pattern) : Bool :=
  isSubsequence p.tokens q.tokens

def rendered (p : Pattern) : List String :=
  p.tokens.map Token.render

/-- Patterns with more support come first; equal supports are ordered by the
tokens. -/
def supportOrder (p q : Pattern) : Ordering :=
  (compare q.support p.support).then (compare p.tokens q.tokens)

end Pattern

/-- A pattern together with its confidence. -/
structure ScoredPattern where
  pattern : Pattern
  confidence : Float
  deriving Inhabited

end EditMining
