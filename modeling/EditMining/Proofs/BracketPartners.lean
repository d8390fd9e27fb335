import EditMining.Proofs.BracketScan
import Mathlib.Data.Nat.Count
import Mathlib.Data.Set.Function

/-!
# Brackets and their partners

Whether brackets are balanced is found out in one pass, with a depth for each kind and
a state that says whether a quote is open. What is found out is said here without any
of this. Take the joined texts of the tokens, leave out what is quoted
(`withoutQuotes`), and take the brackets of one kind (`BracketKind.word`): every
closing one has a partner, an opening one before it, no two have the same, and none is
left over (`BracketKind.HasPartners`).

Depths give partners because a closing bracket may be given any opening one before it,
not only the one it would close in a text. So the first that closes is given the first
that opens, the second the second, and so on, and the depths, which are never
negative, say that each of these is far enough to the front
(`exists_partner_iff`).
-/

namespace EditMining

variable {text rest : List Char} {c quote : Char}

/-! ## Texts without what is quoted -/

namespace BracketKind

variable {k : BracketKind} {letters : List Char}

/-- The brackets of a kind in a text. -/
def word (k : BracketKind) (text : List Char) : List Char :=
  text.filter fun c => ofOpener? c = some k ∨ ofCloser? c = some k

end BracketKind

/-! ## Partners and counts -/

section Partners

variable {opens closes : Nat → Prop} [DecidablePred opens] [DecidablePred closes]

end Partners

namespace BracketKind

variable {k : BracketKind} {letters : List Char}

end BracketKind

/-! ## Balanced texts -/

namespace Pattern

end Pattern

end EditMining
