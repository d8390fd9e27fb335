import EditMining.Pattern.Merge
import EditMining.Pattern.Maximal
import EditMining.Pattern.Validity
import EditMining.Confidence

/-!
# Filtering mined patterns

Mined patterns pass five stages. They are merged; invalid ones are dropped;
those with little support are dropped; those that are part of another one are
dropped; and of the rest only those stay whose confidence is not below a
threshold. A report counts what each stage dropped.
-/

namespace EditMining

/-- What a pattern needs to be kept. -/
structure FilterSettings where
  confidenceThreshold : Float
  minPruningSupport : Nat
  deriving Inhabited

/-- How many patterns there were, how many each stage dropped, and how many are
kept. -/
structure FilterReport where
  merged : Nat
  symbolsOnly : Nat
  noChange : Nat
  unbalanced : Nat
  lowSupport : Nat
  redundant : Nat
  lowConfidence : Nat
  kept : Nat
  deriving DecidableEq, Inhabited, Repr

/-- Whether a confidence is not below the threshold. -/
def FilterSettings.accepts (settings : FilterSettings) (s : ScoredPattern) : Bool :=
  !(s.confidence < settings.confidenceThreshold)

namespace Filter

/-- How many patterns break a rule first. -/
def countInvalid (reason : Invalidity) (ps : List Pattern) : Nat :=
  ps.countP fun p => p.invalidity == some reason

/-- A pattern with its confidence on held-out hunks. -/
def score (m : Matcher) (heldOut : List HeldOutHunk) (p : Pattern) : Result ScoredPattern := do
  let confidence ← Confidence.evaluate m p heldOut
  .ok ⟨p, confidence.value⟩

/-- The patterns that stay, more support first, and the report. -/
def run (m : Matcher) (settings : FilterSettings) (heldOut : List HeldOutHunk)
    (ps : List Pattern) : Result (List ScoredPattern × FilterReport) := do
  let merged := mergePatterns ps
  let valid := merged.filter fun p => p.invalidity == none
  let supported := valid.filter fun p => settings.minPruningSupport ≤ p.support
  let maximal := maximalPatterns supported
  let scored ← maximal.mapM (score m heldOut)
  let kept := scored.filter settings.accepts
  let artifact := kept.mergeSort fun a b => a.pattern.supportLe b.pattern
  .ok
    (artifact,
      { merged := merged.length
        symbolsOnly := countInvalid .symbolsOnly merged
        noChange := countInvalid .noChange merged
        unbalanced := countInvalid .unbalancedBrackets merged
        lowSupport := valid.length - supported.length
        redundant := supported.length - maximal.length
        lowConfidence := maximal.length - kept.length
        kept := artifact.length })

end Filter

end EditMining
