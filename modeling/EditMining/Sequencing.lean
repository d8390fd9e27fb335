import EditMining.Language.Tokenizer
import EditMining.Oracle
import EditMining.TokenDiff

/-!
# From hunks to token sequences

A hunk is cut into *pairs*, each a smaller hunk, and every pair gives the fused
token diff of its two sides. A hunk whose sides have the same number of lines,
more than one, is cut where the oracle says that a node was updated: each update
gives the line it is in, with the line across from it. Any other hunk is one
pair.

Hunks with too many lines, pairs that do not split into tokens, and sequences
with too many tokens are dropped and counted in a `Tally`, the same for all hunks of
a batch. Only the oracle makes the work fail.
-/

namespace EditMining

/-- What was dropped on the way from hunks to sequences. -/
structure Tally where
  oversizedHunks : Nat
  untokenizable : Nat
  oversizedSequences : Nat
  deriving DecidableEq, Inhabited, Repr

namespace Tally

/-- Nothing was dropped. -/
def zero : Tally := ⟨0, 0, 0⟩

def add (s t : Tally) : Tally :=
  ⟨s.oversizedHunks + t.oversizedHunks, s.untokenizable + t.untokenizable,
    s.oversizedSequences + t.oversizedSequences⟩

instance : Add Tally := ⟨add⟩

end Tally

/-- Work that counts what it drops, and may ask an oracle and fail. There is one tally
for all that is done: what was counted before a failure stays counted. -/
abbrev CountingSession (σ : Type) := ExceptT Error (StateT Tally (StateM σ))

/-- Work that counts nothing. -/
def CountingSession.lift {σ α : Type} (x : Session σ α) : CountingSession σ α :=
  ExceptT.mk (StateT.lift x.run)

/-- How large hunks and sequences may be, and the language of code whose file is
not known. -/
structure SequencingSettings where
  maxHunkLines : Nat
  maxSequenceTokens : Nat
  language : String
  deriving DecidableEq, Inhabited, Repr

namespace Sequencing

open Text

/-- The pair of a line, given where it begins, and the line across from it, if
the offset is in it. The line break behind a line is part of it. -/
def pairAt? (start : Nat) (before behind : String) (offset : Nat) : Option Hunk :=
  if start ≤ offset ∧ offset ≤ start + before.length then some ⟨[before], [behind]⟩ else none

/-- The pair of the line that an offset is in, the first line beginning at
`start`. -/
def pairFrom? (start : Nat) : (before behind : List String) → (offset : Nat) → Option Hunk
  | line :: before, across :: behind, offset =>
      (pairAt? start line across offset).or
        (pairFrom? (start + line.length + 1) before behind offset)
  | _, _, _ => none

/-- One pair for every update, in the order of the actions. An update outside of
the condition gives none. -/
def updatedPairs (h : Hunk) (d : StructuralDiff) : List Hunk :=
  d.updateOffsets.filterMap (pairFrom? 0 h.condition h.consequent)

/-- Whether a hunk is cut line by line. -/
def isSplit (h : Hunk) : Bool :=
  h.condition.length == h.consequent.length && h.condition.length != 1

/-- The tokens of some lines, one line after the other. -/
def tokenizeLines (tk : Tokenizer) (lines : List String) : Result (List String) :=
  (lines.mapM tk.tokenize).map List.flatten

/-- The fused token diff of the two sides of a pair. -/
def tokenDiff (tk : Tokenizer) (pair : Hunk) : Result TokenSequence := do
  let before ← tokenizeLines tk pair.condition
  let behind ← tokenizeLines tk pair.consequent
  pure (TokenDiff.fusedDiff before behind)

variable {σ : Type}

/-- The pairs of a hunk that is not too large. -/
def pairsOf (o : Oracle σ) (l : Language) (h : Hunk) : Session σ (List Hunk) :=
  if isSplit h then do
    let d ← o.ask l h
    pure (updatedPairs h d)
  else pure [h]

/-- The pairs of a hunk; a hunk that is too large has none and is counted. -/
def splitHunk (s : SequencingSettings) (o : Oracle σ) (l : Language) (h : Hunk) :
    CountingSession σ (List Hunk) :=
  if s.maxHunkLines < h.maxSideLength then do
    modify fun t => { t with oversizedHunks := t.oversizedHunks + 1 }
    pure []
  else .lift (pairsOf o l h)

/-- The sequence of a pair, or none and a count. Pairs without any token are
dropped without being counted. -/
def sequencePair (s : SequencingSettings) (tk : Tokenizer) (pair : Hunk) :
    CountingSession σ (Option TokenSequence) :=
  match tokenDiff tk pair with
  | .error _ => do
      modify fun t => { t with untokenizable := t.untokenizable + 1 }
      pure none
  | .ok ts =>
      if ts.isEmpty then pure none
      else if s.maxSequenceTokens < ts.length then do
        modify fun t => { t with oversizedSequences := t.oversizedSequences + 1 }
        pure none
      else pure (some ts)

/-- The sequences of some pairs. -/
def sequencePairs (s : SequencingSettings) (tk : Tokenizer) :
    List Hunk → CountingSession σ (List TokenSequence)
  | [] => pure []
  | pair :: rest => do
      let first ← sequencePair s tk pair
      let more ← sequencePairs s tk rest
      pure (first.toList ++ more)

/-- The sequences of a hunk. -/
def sequenceHunk (s : SequencingSettings) (o : Oracle σ) (tk : Tokenizer) (h : Hunk) :
    CountingSession σ (List TokenSequence) := do
  let pairs ← splitHunk s o tk.language h
  sequencePairs s tk pairs

end Sequencing

end EditMining
