import EditMining.Alignment.EditScript
import EditMining.Token

/-!
# Token diffs

The tokens before an edit and the tokens after it make one sequence of tagged
tokens, in the order of their edit script. Where tokens are replaced, all the
removed ones come before the added ones. Neighbours with the same polarity are
then fused into one token.
-/

namespace EditMining

open EditMining.Alignment

/-- A list of tagged tokens that describes one edit. -/
abbrev TokenSequence := List Token

namespace TokenDiff

/-- The tagged tokens of one operation of an edit script. -/
def ofOpcode (before behind : List String) (op : Opcode) : TokenSequence :=
  let removed := Rectangle.slice before op.leftStart op.leftStop
  let added := Rectangle.slice behind op.rightStart op.rightStop
  match op.operation with
  | .equal => removed.map (⟨.kept, ·⟩)
  | .delete => removed.map (⟨.removed, ·⟩)
  | .insert => added.map (⟨.added, ·⟩)
  | .replace => removed.map (⟨.removed, ·⟩) ++ added.map (⟨.added, ·⟩)

/-- Every token of both sides, tagged. -/
def ofTokens (before behind : List String) : TokenSequence :=
  (opcodes before behind).flatMap (ofOpcode before behind)

/-- Put a token before others; it is fused with the first of these when that has
the same polarity. -/
def addToken (t : Token) : TokenSequence → TokenSequence
  | [] => [t]
  | u :: rest =>
      if t.polarity = u.polarity then ⟨t.polarity, t.text ++ u.text⟩ :: rest
      else t :: u :: rest

/-- Each run of tokens with the same polarity made one token. -/
def fuse (ts : TokenSequence) : TokenSequence :=
  ts.foldr addToken []

/-- The fused diff of two sides. -/
def fusedDiff (before behind : List String) : TokenSequence :=
  fuse (ofTokens before behind)

end TokenDiff

end EditMining
