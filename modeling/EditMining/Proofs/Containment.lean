import EditMining.Pattern
import Mathlib.Algebra.BigOperators.Group.List.Basic
import Mathlib.Algebra.Ring.Nat
import Mathlib.Data.List.NodupEquivFin

/-!
# Containment orders the token lists

The containment test goes through both lists once and never goes back: each
wanted token is matched with the first one left that equals it. That an embedding
found this way is there whenever there is one at all is the exchange argument of
`isSubsequence_iff_sublist`. So the test decides whether the positions of one list
can be mapped upwards into those of the other (`isSubsequence_iff_embedding`), and
being contained is a partial order.

What is properly contained is also shorter in writing (`Pattern.totalLength_lt`),
because even a token without a text has its sign. The pruning of redundant patterns
rests on this.
-/

namespace EditMining

/-! ## Embeddings -/

section Embedding

variable {α : Type} [DecidableEq α] {needle middle haystack : List α}

theorem isSubsequence_iff_embedding :
    isSubsequence needle haystack = true ↔
      ∃ place : Fin needle.length → Fin haystack.length,
        StrictMono place ∧ ∀ i, haystack[place i] = needle[i] := by
  rw [isSubsequence_iff_sublist, List.sublist_iff_exists_fin_orderEmbedding_get_eq]
  constructor
  · rintro ⟨place, hplace⟩
    exact ⟨place, place.strictMono, fun i => (hplace i).symm⟩
  · rintro ⟨place, hmono, hplace⟩
    exact ⟨OrderEmbedding.ofStrictMono place hmono, fun i => (hplace i).symm⟩

theorem isSubsequence_refl (xs : List α) : isSubsequence xs xs = true :=
  isSubsequence_iff_sublist.2 (List.Sublist.refl xs)

theorem isSubsequence_trans (h : isSubsequence needle middle = true)
    (h' : isSubsequence middle haystack = true) : isSubsequence needle haystack = true :=
  isSubsequence_iff_sublist.2
    ((isSubsequence_iff_sublist.1 h).trans (isSubsequence_iff_sublist.1 h'))

theorem isSubsequence_antisymm (h : isSubsequence needle haystack = true)
    (h' : isSubsequence haystack needle = true) : needle = haystack :=
  (isSubsequence_iff_sublist.1 h).antisymm (isSubsequence_iff_sublist.1 h')

end Embedding

/-! ## Written length -/

theorem Token.renderedLength_pos (t : Token) : 0 < t.renderedLength := by
  rw [renderedLength]
  omega

theorem sum_renderedLength_add_length_le {ts us : List Token} (h : ts.Sublist us) :
    (ts.map Token.renderedLength).sum + us.length
      ≤ (us.map Token.renderedLength).sum + ts.length := by
  induction h with
  | slnil => exact Nat.le_refl _
  | cons u _ ih =>
      have hpos := u.renderedLength_pos
      rw [List.map_cons, List.sum_cons, List.length_cons]
      omega
  | cons_cons u _ ih =>
      rw [List.map_cons, List.map_cons, List.sum_cons, List.sum_cons, List.length_cons,
        List.length_cons]
      omega

variable {p q : Pattern}

/-- What is properly contained is shorter. -/
theorem Pattern.totalLength_lt (h : p.tokens.Sublist q.tokens) (hne : p.tokens ≠ q.tokens) :
    p.totalLength < q.totalLength := by
  have hlength : p.tokens.length ≠ q.tokens.length := fun heq => hne (h.eq_of_length heq)
  have hle := h.length_le
  have hsum := sum_renderedLength_add_length_le h
  rw [totalLength, totalLength]
  omega

theorem Pattern.isSubsequenceOf_iff : p.isSubsequenceOf q = true ↔ p.tokens.Sublist q.tokens :=
  isSubsequence_iff_sublist

/-- One list of tokens is found in another exactly if its positions can be mapped
upwards to positions with the same tokens. This is a partial order, and what is
found in a different list is shorter in writing. -/
theorem isSubsequence_exact (needle haystack : List Token) :
    (isSubsequence needle haystack = true ↔
        ∃ place : Fin needle.length → Fin haystack.length,
          StrictMono place ∧ ∀ i, haystack[place i] = needle[i]) ∧
      isSubsequence needle needle = true ∧
      (∀ middle, isSubsequence needle middle = true → isSubsequence middle haystack = true →
        isSubsequence needle haystack = true) ∧
      (isSubsequence needle haystack = true → isSubsequence haystack needle = true →
        needle = haystack) ∧
      (isSubsequence needle haystack = true → needle ≠ haystack →
        ∀ m n, (Pattern.mk needle m).totalLength < (Pattern.mk haystack n).totalLength) := by
  refine ⟨isSubsequence_iff_embedding, isSubsequence_refl needle,
    fun _ => isSubsequence_trans, isSubsequence_antisymm, fun h hne m n => ?_⟩
  exact Pattern.totalLength_lt (isSubsequence_iff_sublist.1 h) hne

/-- The shorter list is found in the longer ones in more than one way. -/
theorem isSubsequence_exact_of_repeated :
    let a : Token := ⟨.removed, "a"⟩
    let b : Token := ⟨.added, "b"⟩
    (isSubsequence [a, b] [a, a, b] = true ∧ isSubsequence [a, a, b] [b, a, a, b] = true ∧
        [a, b] ≠ [b, a, a, b]) ∧
      isSubsequence [a, b] [b, a, a, b] = true ∧
      (Pattern.mk [a, b] 3).totalLength < (Pattern.mk [b, a, a, b] 1).totalLength := by
  intro a b
  obtain ⟨-, -, htrans, -, hlength⟩ := isSubsequence_exact [a, b] [b, a, a, b]
  have hmiddle : isSubsequence [a, b] [a, a, b] = true := by decide
  have hlast : isSubsequence [a, a, b] [b, a, a, b] = true := by decide
  have hne : [a, b] ≠ [b, a, a, b] := by decide
  have hfound := htrans [a, a, b] hmiddle hlast
  exact ⟨⟨hmiddle, hlast, hne⟩, hfound, hlength hfound hne 3 1⟩

end EditMining
