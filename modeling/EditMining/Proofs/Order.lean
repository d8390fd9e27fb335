import EditMining.Pattern.Merge
import Mathlib.Data.List.Permutation

/-!
# The orders are total, and sorting by them is canonical

Tokens, token lists and patterns are compared by functions into `Ordering`.
Each of these orders is total and tells any two different values apart, so a
list sorted by one of them is determined by its elements alone: whatever order
they came in, the sorted list is the same. Every stage that sorts forgets the
order of its input by this one fact.

Merging sorts by tokens without regard to support, where different patterns
can tie. That order is still total, which is all that bringing equal token
lists together needs.
-/

namespace EditMining

open Std

instance : TransOrd Polarity :=
  inferInstanceAs (TransCmp (compareOn Polarity.rank))

instance : LawfulEqOrd Polarity where
  eq_of_compare h := Polarity.rank_injective (LawfulEqOrd.eq_of_compare (α := Nat) h)

instance : TransOrd Token :=
  inferInstanceAs (TransCmp (compareLex (compareOn Token.polarity) (compareOn Token.text)))

instance : LawfulEqOrd Token where
  eq_of_compare {a b} h := by
    have hlex : compareLex (compareOn Token.polarity) (compareOn Token.text) a b = .eq := h
    obtain ⟨hpolarity, htext⟩ := compareLex_eq_eq.1 hlex
    cases a
    cases b
    rw [Token.mk.injEq]
    exact ⟨LawfulEqOrd.eq_of_compare hpolarity, LawfulEqOrd.eq_of_compare htext⟩

instance : TransCmp Pattern.supportOrder :=
  inferInstanceAs
    (TransCmp (compareLex (fun p q => compareOn Pattern.support q p) (compareOn Pattern.tokens)))

instance : LawfulEqCmp Pattern.supportOrder where
  eq_of_compare {p q} h := by
    have hlex : compareLex (fun p q => compareOn Pattern.support q p)
        (compareOn Pattern.tokens) p q = .eq := h
    obtain ⟨hsupport, htokens⟩ := compareLex_eq_eq.1 hlex
    cases p
    cases q
    rw [Pattern.mk.injEq]
    exact ⟨LawfulEqOrd.eq_of_compare htokens, (LawfulEqOrd.eq_of_compare hsupport).symm⟩

theorem Pattern.supportOrder_eq_lt_iff {p q : Pattern} :
    p.supportOrder q = .lt ↔
      q.support < p.support ∨ p.support = q.support ∧ compare p.tokens q.tokens = .lt := by
  rw [supportOrder, Ordering.then_eq_lt, Nat.compare_eq_lt, Nat.compare_eq_eq]
  exact or_congr_right (and_congr_left fun _ => eq_comm)

/-! ## Sorting by a comparison -/

section Sorting

variable {α : Type} {cmp : α → α → Ordering}

theorem isLE_or_isLE [OrientedCmp cmp] (a b : α) : ((cmp a b).isLE || (cmp b a).isLE) = true := by
  rw [Bool.or_eq_true]
  by_cases h : (cmp a b).isLE = true
  · exact .inl h
  · exact .inr (Ordering.isLE_of_eq_lt (OrientedCmp.lt_of_not_isLE h))

theorem pairwise_mergeSort_isLE [TransCmp cmp] (xs : List α) :
    (xs.mergeSort fun a b => (cmp a b).isLE).Pairwise fun a b => (cmp a b).isLE = true :=
  List.pairwise_mergeSort (fun _ _ _ => TransCmp.isLE_trans) isLE_or_isLE xs

theorem eq_of_perm_of_pairwise_isLE [OrientedCmp cmp] [LawfulEqCmp cmp] {xs ys : List α}
    (h : xs.Perm ys) (hxs : xs.Pairwise fun a b => (cmp a b).isLE = true)
    (hys : ys.Pairwise fun a b => (cmp a b).isLE = true) : xs = ys := by
  refine List.Perm.eq_of_pairwise ?_ hxs hys h
  intro a b _ _ hab hba
  have heq : cmp a b = .eq := OrientedCmp.isLE_antisymm hab hba
  exact LawfulEqCmp.eq_of_compare heq

/-- Sorting forgets the order of its input. -/
theorem mergeSort_isLE_eq_of_perm [TransCmp cmp] [LawfulEqCmp cmp] {xs ys : List α}
    (h : xs.Perm ys) :
    (xs.mergeSort fun a b => (cmp a b).isLE) = ys.mergeSort fun a b => (cmp a b).isLE :=
  eq_of_perm_of_pairwise_isLE
    ((List.mergeSort_perm _ _).trans (h.trans (List.mergeSort_perm _ _).symm))
    (pairwise_mergeSort_isLE xs) (pairwise_mergeSort_isLE ys)

theorem pairwise_mergeSort_lt [TransCmp cmp] [LawfulEqCmp cmp] {xs : List α} (h : xs.Nodup) :
    (xs.mergeSort fun a b => (cmp a b).isLE).Pairwise fun a b => cmp a b = .lt := by
  have hnodup : (xs.mergeSort fun a b => (cmp a b).isLE).Nodup :=
    (List.mergeSort_perm _ _).nodup_iff.2 h
  refine ((pairwise_mergeSort_isLE xs).and hnodup).imp ?_
  rintro a b ⟨hle, hne⟩
  rcases Ordering.isLE_iff_eq_lt_or_eq_eq.1 hle with hlt | heq
  · exact hlt
  · exact absurd (LawfulEqCmp.eq_of_compare heq) hne

/-- Two strictly increasing lists with the same elements are the same list. -/
theorem eq_of_mem_iff_of_pairwise_lt (cmp : α → α → Ordering) [TransCmp cmp] {xs ys : List α}
    (h : ∀ a, a ∈ xs ↔ a ∈ ys) (hxs : xs.Pairwise fun a b => cmp a b = .lt)
    (hys : ys.Pairwise fun a b => cmp a b = .lt) : xs = ys := by
  have hne : ∀ {a b : α}, cmp a b = .lt → a ≠ b := by
    rintro a _ hlt rfl
    exact OrientedCmp.not_lt_of_lt hlt hlt
  have hperm : xs.Perm ys := (List.perm_ext_iff_of_nodup (hxs.imp hne) (hys.imp hne)).2 h
  refine List.Perm.eq_of_pairwise ?_ hxs hys hperm
  intro a b _ _ hab hba
  exact absurd hba (OrientedCmp.not_lt_of_lt hab)

end Sorting

end EditMining
