import EditMining.Pattern.Maximal
import EditMining.Proofs.Containment
import Mathlib.Data.List.Nodup
import Mathlib.Data.List.Pairwise

/-!
# Greedy pruning keeps the maximal patterns

Pruning looks at each pattern once and compares it only with those it has kept
so far, yet it decides containment in *all* patterns. Two facts make up for
what it does not look at.

Every pattern is covered: it is kept, or it is part of one that is
(`exists_mem_keepMaximal`). And a pattern that properly contains another is
longer in writing (`totalLength_lt`), so with the longest first it is visited
before. If a pattern that is kept were part of a longer one, it would be part
of what covers that one, which is longer still and was kept earlier: but then
it would have been dropped.
-/

namespace EditMining

variable {kept rest ps : List Pattern} {p q : Pattern}

/-! ## The loop -/

theorem keepMaximal_sublist (kept rest : List Pattern) :
    (keepMaximal kept rest).Sublist (kept.reverse ++ rest) := by
  fun_induction keepMaximal kept rest with
  | case1 kept => rw [List.append_nil]
  | case2 kept p rest _ ih => exact ih.trans ((List.sublist_cons_self p rest).append_left _)
  | case3 kept p rest _ ih => rwa [List.reverse_cons, List.append_assoc] at ih

theorem mem_keepMaximal_of_mem (hq : q ∈ kept) : q ∈ keepMaximal kept rest := by
  fun_induction keepMaximal kept rest with
  | case1 kept => exact List.mem_reverse.2 hq
  | case2 kept p rest _ ih => exact ih hq
  | case3 kept p rest _ ih => exact ih (List.mem_cons_of_mem _ hq)

theorem exists_mem_keepMaximal (hp : p ∈ rest) :
    ∃ q ∈ keepMaximal kept rest, p.tokens.Sublist q.tokens := by
  fun_induction keepMaximal kept rest with
  | case1 kept => cases hp
  | case2 kept r rest hany ih =>
      rcases List.mem_cons.1 hp with rfl | hp
      · obtain ⟨q, hq, hsub⟩ := List.any_eq_true.1 hany
        exact ⟨q, mem_keepMaximal_of_mem hq, Pattern.isSubsequenceOf_iff.1 hsub⟩
      · exact ih hp
  | case3 kept r rest _ ih =>
      rcases List.mem_cons.1 hp with rfl | hp
      · exact ⟨p, mem_keepMaximal_of_mem List.mem_cons_self, List.Sublist.refl _⟩
      · exact ih hp

/-- None that is kept is part of one kept before it. -/
theorem pairwise_keepMaximal
    (h : kept.reverse.Pairwise fun q p => ¬ p.tokens.Sublist q.tokens) :
    (keepMaximal kept rest).Pairwise fun q p => ¬ p.tokens.Sublist q.tokens := by
  fun_induction keepMaximal kept rest with
  | case1 kept => exact h
  | case2 kept p rest _ ih => exact ih h
  | case3 kept p rest hnone ih =>
      refine ih ?_
      rw [List.reverse_cons, List.pairwise_append]
      refine ⟨h, List.pairwise_singleton _ _, fun q hq r hr => ?_⟩
      rw [List.mem_singleton.1 hr]
      intro hsub
      exact hnone (List.any_eq_true.2
        ⟨q, List.mem_reverse.1 hq, Pattern.isSubsequenceOf_iff.2 hsub⟩)

/-! ## Longest first -/

/-- No other token list in a list of patterns contains that of the pattern. -/
def Pattern.IsMaximalIn (p : Pattern) (ps : List Pattern) : Prop :=
  ∀ q ∈ ps, p.tokens.Sublist q.tokens → q.tokens = p.tokens

instance (p : Pattern) (ps : List Pattern) : Decidable (p.IsMaximalIn ps) :=
  inferInstanceAs (Decidable (∀ q ∈ ps, p.tokens.Sublist q.tokens → q.tokens = p.tokens))

theorem Pattern.notShorter_trans (p q r : Pattern) (hpq : p.notShorter q = true)
    (hqr : q.notShorter r = true) : p.notShorter r = true := by
  simp only [notShorter, decide_eq_true_eq] at *
  omega

theorem Pattern.notShorter_total (p q : Pattern) : (p.notShorter q || q.notShorter p) = true := by
  simp only [notShorter, Bool.or_eq_true, decide_eq_true_eq]
  omega

theorem pairwise_totalLength_mergeSort (ps : List Pattern) :
    (ps.mergeSort Pattern.notShorter).Pairwise fun p q => q.totalLength ≤ p.totalLength :=
  (List.pairwise_mergeSort Pattern.notShorter_trans Pattern.notShorter_total ps).imp
    fun h => of_decide_eq_true h

theorem maximalPatterns_sublist (ps : List Pattern) :
    (maximalPatterns ps).Sublist (ps.mergeSort Pattern.notShorter) :=
  keepMaximal_sublist [] _

theorem mem_of_mem_maximalPatterns (hp : p ∈ maximalPatterns ps) : p ∈ ps :=
  List.mem_mergeSort.1 ((maximalPatterns_sublist ps).subset hp)

theorem exists_mem_maximalPatterns (hp : p ∈ ps) :
    ∃ q ∈ maximalPatterns ps, p.tokens.Sublist q.tokens :=
  exists_mem_keepMaximal (List.mem_mergeSort.2 hp)

/-- Of two kept patterns one was kept first: it is no shorter, and does not
contain the other. -/
theorem kept_before_or_behind (hp : p ∈ maximalPatterns ps) (hq : q ∈ maximalPatterns ps)
    (hne : p ≠ q) :
    (q.totalLength ≤ p.totalLength ∧ ¬ q.tokens.Sublist p.tokens) ∨
      (p.totalLength ≤ q.totalLength ∧ ¬ p.tokens.Sublist q.tokens) := by
  let before (a b : Pattern) : Prop :=
    b.totalLength ≤ a.totalLength ∧ ¬ b.tokens.Sublist a.tokens
  have hlengths := (pairwise_totalLength_mergeSort ps).sublist (maximalPatterns_sublist ps)
  have hfree : (maximalPatterns ps).Pairwise fun a b => ¬ b.tokens.Sublist a.tokens :=
    pairwise_keepMaximal List.Pairwise.nil
  have hbefore : (maximalPatterns ps).Pairwise fun a b => before a b ∨ before b a :=
    (hlengths.and hfree).imp .inl
  have : Std.Symm fun a b => before a b ∨ before b a := ⟨fun _ _ => Or.symm⟩
  exact hbefore.forall hp hq hne

theorem isMaximalIn_of_mem_maximalPatterns (hp : p ∈ maximalPatterns ps) : p.IsMaximalIn ps := by
  intro q hq hsub
  by_contra hne
  obtain ⟨r, hr, hqr⟩ := exists_mem_maximalPatterns hq
  have hpr : p.tokens.Sublist r.tokens := hsub.trans hqr
  have hlt : p.totalLength < r.totalLength := by
    refine Pattern.totalLength_lt hpr fun heq => hne ?_
    rw [← heq] at hqr
    exact hqr.antisymm hsub
  have hne' : p ≠ r := by
    rintro rfl
    exact Nat.lt_irrefl _ hlt
  rcases kept_before_or_behind hp hr hne' with ⟨hle, -⟩ | ⟨-, hnot⟩
  · omega
  · exact hnot hpr

/-- Where no token list is repeated, exactly the maximal patterns stay. -/
theorem mem_maximalPatterns (hnodup : (ps.map Pattern.tokens).Nodup) :
    p ∈ maximalPatterns ps ↔ p ∈ ps ∧ p.IsMaximalIn ps := by
  constructor
  · exact fun hp => ⟨mem_of_mem_maximalPatterns hp, isMaximalIn_of_mem_maximalPatterns hp⟩
  · rintro ⟨hp, hmax⟩
    obtain ⟨q, hq, hsub⟩ := exists_mem_maximalPatterns hp
    have hqps := mem_of_mem_maximalPatterns hq
    have hqp : q = p := List.inj_on_of_nodup_map hnodup hqps hp (hmax q hqps hsub)
    rwa [← hqp]

theorem nodup_tokens_maximalPatterns (ps : List Pattern) :
    ((maximalPatterns ps).map Pattern.tokens).Nodup := by
  refine List.pairwise_map.2 ((pairwise_keepMaximal List.Pairwise.nil).imp fun hnot heq => ?_)
  exact hnot (heq ▸ List.Sublist.refl _)

end EditMining
