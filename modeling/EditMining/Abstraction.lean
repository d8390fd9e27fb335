import EditMining.Abstraction.FunctionNames
import EditMining.Abstraction.ReservedNames
import EditMining.Oracle

/-!
# Abstraction

An edit is generalised by replacing what it leaves alone. A value is *stable*
when the oracle matches two nodes with the same value, one on each side of the
hunk. Stable identifiers, numbers and strings are replaced by placeholders
wherever they stand; the functions that the hunk defines have been renamed
before. Numbering starts anew with every hunk.

The spans of strings refer to the text that the oracle was asked about, not to
the text in which earlier values have been replaced already.
-/

namespace EditMining

open Text

/-- A hunk whose stable values are replaced, and what they are replaced by. -/
structure AbstractedHunk where
  hunk : Hunk
  assignments : Assignments
  deriving DecidableEq, Inhabited, Repr

/-- A value that may be replaced. -/
structure StableValue where
  kind : PlaceholderKind
  value : String
  deriving DecidableEq, Inhabited, Repr

namespace Abstraction

/-- The text that both nodes of a match have, if it is not empty. -/
def commonText? (m : NodeMatch) : Option String :=
  match m.source.text, m.destination.text with
  | some s, some d => if s = d ∧ s ≠ "" then some s else none
  | _, _ => none

/-- The characters of a span, if the text is long enough. -/
def slice? (text : List Char) (span : Span) : Option (List Char) :=
  if span.start ≤ span.stop ∧ span.stop ≤ text.length then
    some ((text.drop span.start).take (span.stop - span.start))
  else none

/-- Whether a name may be replaced. -/
def isAbstractable (reserved : ReservedNames) (name : String) : Bool :=
  !reserved.contains name && !isWithin PlaceholderKind.function.stem name
    && !Placeholder.isPlaceholder name.toList

/-- The stable value of a match. `before` and `behind` are the texts that the
spans refer to. -/
def stableValue? (reserved : ReservedNames) (before behind : List Char) (m : NodeMatch) :
    Option StableValue :=
  match m.source.kind with
  | .identifier =>
      ((commonText? m).filter (isAbstractable reserved)).map (⟨.identifier, ·⟩)
  | .integer => (commonText? m).map (⟨.number, ·⟩)
  | .string =>
      match slice? before m.source.span, slice? behind m.destination.span with
      | some s, some d => if s = d ∧ s ≠ [] then some ⟨.string, String.ofList s⟩ else none
      | _, _ => none
  | .other _ => none

/-- Replace a value in a line: a string wherever it occurs, a number or a name
where it stands free. -/
def rewriteChars (v : StableValue) (p : Placeholder) (line : List Char) : List Char :=
  match v.kind with
  | .string => replaceAll v.value.toList p.renderChars line
  | .number => replaceNumber v.value.toList p.renderChars line
  | .identifier | .function => replaceWord v.value.toList p.renderChars line

def rewriteLine (v : StableValue) (p : Placeholder) (line : String) : String :=
  String.ofList (rewriteChars v p line.toList)

/-- Replace one stable value. -/
def replaceValue (a : AbstractedHunk) (v : StableValue) : AbstractedHunk :=
  let (m, p) := a.assignments.assign v.kind v.value
  ⟨a.hunk.mapLines (rewriteLine v p), m⟩

/-- The stable values of an answer, in its order. -/
def stableValues (reserved : ReservedNames) (h : Hunk) (d : StructuralDiff) : List StableValue :=
  d.matchings.filterMap
    (stableValue? reserved h.joinedCondition.toList h.joinedConsequent.toList)

/-- Replace the stable values of an answer about a hunk. -/
def applyDiff (reserved : ReservedNames) (d : StructuralDiff) (a : AbstractedHunk) :
    AbstractedHunk :=
  (stableValues reserved a.hunk d).foldl replaceValue a

/-- The hunk that the oracle is asked about: its functions are renamed, unless
that is not wanted. -/
def prepare (normalizes : Bool) (tk : Tokenizer) (h : Hunk) : AbstractedHunk :=
  if normalizes then
    let (hunk, m) := normalizeFunctionNames tk h .empty
    ⟨hunk, m⟩
  else ⟨h, .empty⟩

variable {σ : Type}

/-- Replace what a hunk's edit leaves alone. -/
def abstractHunk (o : Oracle σ) (reserved : ReservedNames) (normalizes : Bool) (tk : Tokenizer)
    (h : Hunk) : Session σ AbstractedHunk := do
  let a := prepare normalizes tk h
  let d ← o.ask tk.language a.hunk
  pure (applyDiff reserved d a)

end Abstraction

end EditMining
