import EditMining.Proofs.CommonRuns

/-!
# The run that is found is the longest

The table of runs is gone through row by row and, in a row, from left to right,
and only a longer run takes the place of the best one so far. What is left in the
end is no worse than any entry (`Block.NoWorse`): it is longer, or as long and
starts no later, in the left sequence first and then in the right one. What
makes this work is that a run met later ends later (`Block.EndsBy`), so of two
that are equally long it starts later, too.

An entry of the table is the longest run of seeds that ends there, so the best
entry is no worse than any common run of seeds (`noWorse_bestOfTable_of_isRun`). Where
every element is a seed there is nothing left to extend, and the longest run is
no worse than any common run at all (`noWorse_longestRun`).

Popular elements take entries out of the table, but they take them out on the
diagonal as well. So a sequence that is compared with itself gives a best entry
on the diagonal, and extended it covers the whole sequence (`longestRun_self`).
-/

namespace EditMining.Alignment

variable {α : Type} {xs ys : List α}

/-! ## Comparing runs -/

/-- Longer, or as long and starting no later, in the left sequence first. -/
def Block.NoWorse (b c : Block) : Prop :=
  c.size < b.size ∨
    c.size = b.size ∧ (b.left < c.left ∨ b.left = c.left ∧ b.right ≤ c.right)

/-- The ends of a block come no later than two positions, that of the left
sequence first. -/
def Block.EndsBy (b : Block) (i j : Nat) : Prop :=
  b.left + b.size < i ∨ b.left + b.size = i ∧ b.right + b.size ≤ j

namespace Block

variable {a b c : Block} {i j size : Nat}

theorem NoWorse.refl (b : Block) : b.NoWorse b :=
  .inr ⟨rfl, .inr ⟨rfl, Nat.le_refl _⟩⟩

theorem NoWorse.trans (hab : a.NoWorse b) (hbc : b.NoWorse c) : a.NoWorse c := by
  unfold NoWorse at *
  omega

theorem NoWorse.antisymm (hbc : b.NoWorse c) (hcb : c.NoWorse b) : b = c := by
  unfold NoWorse at hbc hcb
  cases b
  cases c
  simp only [mk.injEq] at *
  omega

theorem NoWorse.size_le (h : b.NoWorse c) : c.size ≤ b.size := by
  unfold NoWorse at h
  omega

theorem EndsBy.mono {i' j' : Nat} (h : b.EndsBy i j) (hj : i < i' ∨ i = i' ∧ j ≤ j') :
    b.EndsBy i' j' := by
  unfold EndsBy at *
  omega

end Block

/-- One step of the search: the better of a block and the run of some size that
ends at two positions. -/
theorem noWorse_step {b : Block} {i j size : Nat} (hi : size ≤ i) (hj : size ≤ j)
    (hends : b.EndsBy i j) :
    let next := if b.size < size then runUpTo i j size else b
    next.EndsBy i j ∧ next.NoWorse b ∧ next.NoWorse (runUpTo i j size) := by
  intro next
  by_cases hsize : b.size < size
  · have hnext : next = runUpTo i j size := if_pos hsize
    rw [hnext]
    refine ⟨.inr ⟨?_, ?_⟩, .inl hsize, .refl _⟩
    · show i - size + size = i
      omega
    · show j - size + size ≤ j
      omega
  · have hnext : next = b := if_neg hsize
    rw [hnext]
    refine ⟨hends, .refl _, ?_⟩
    unfold Block.EndsBy at hends
    show size < b.size ∨
      size = b.size ∧ (b.left < i - size ∨ b.left = i - size ∧ b.right ≤ j - size)
    omega

/-! ## Going through the table -/

theorem noWorse_bestInRow {i j : Nat} {row : List Nat} {best : Block}
    (hrow : ∀ d < row.length, row.getD d 0 ≤ i + 1 ∧ row.getD d 0 ≤ j + d + 1)
    (hends : best.EndsBy (i + 1) j) :
    (bestInRow i j row best).EndsBy (i + 1) (j + row.length) ∧
      (bestInRow i j row best).NoWorse best ∧
      ∀ d < row.length,
        (bestInRow i j row best).NoWorse (runUpTo (i + 1) (j + d + 1) (row.getD d 0)) := by
  induction row generalizing j best with
  | nil => exact ⟨hends, .refl _, by simp⟩
  | cons size row ih =>
      obtain ⟨hi, hj⟩ := hrow 0 (Nat.zero_lt_succ _)
      obtain ⟨hnext, hbest, hentry⟩ := noWorse_step hi hj (hends.mono (.inr ⟨rfl, by omega⟩))
      obtain ⟨hends', hbest', hrow'⟩ := ih (j := j + 1)
        (fun d hd => by
          have := hrow (d + 1) (Nat.succ_lt_succ hd)
          rw [List.getD_cons_succ] at this
          omega)
        hnext
      rw [bestInRow]
      refine ⟨hends'.mono (.inr ⟨rfl, by simp; omega⟩), hbest'.trans hbest, fun d hd => ?_⟩
      cases d with
      | zero => exact hbest'.trans hentry
      | succ d =>
          rw [List.getD_cons_succ, show j + (d + 1) + 1 = j + 1 + d + 1 by omega]
          exact hrow' d (Nat.lt_of_succ_lt_succ hd)

variable [DecidableEq α]

theorem IsRow.getD_eq {seed : α → Bool} {i d : Nat} {row : List Nat}
    (h : IsRow seed xs ys i row) (hi : i ≤ xs.length) (hd : d < ys.length) :
    row.getD d 0 = seedRun seed xs ys i (d + 1) ∧ row.getD d 0 ≤ i ∧ row.getD d 0 ≤ d + 1 := by
  have hentry := h (d + 1)
  rw [List.getD_cons_succ] at hentry
  obtain ⟨hle, hle', -⟩ := isRun_seedRun seed hi (Nat.succ_le_of_lt hd)
  rw [hentry]
  exact ⟨rfl, hle, hle'⟩

/-- One row gone through. -/
theorem noWorse_row {seed : α → Bool} {i : Nat} {row : List Nat} {best : Block}
    (hi : i < xs.length) (hrow : IsRow seed xs ys (i + 1) row) (hlen : row.length ≤ ys.length)
    (hends : best.EndsBy i ys.length) :
    (bestInRow i 0 row best).EndsBy (i + 1) ys.length ∧
      (bestInRow i 0 row best).NoWorse best ∧
      ∀ j ≤ ys.length, seedRun seed xs ys (i + 1) j ≠ 0 →
        (bestInRow i 0 row best).NoWorse (runUpTo (i + 1) j (seedRun seed xs ys (i + 1) j)) := by
  have hbound : ∀ d < row.length, row.getD d 0 ≤ i + 1 ∧ row.getD d 0 ≤ 0 + d + 1 := by
    intro d hd
    have := hrow.getD_eq hi (Nat.lt_of_lt_of_le hd hlen)
    omega
  have hbefore : best.EndsBy (i + 1) 0 := hends.mono (.inl (Nat.lt_succ_self i))
  obtain ⟨hends', hbest, hentries⟩ := noWorse_bestInRow hbound hbefore
  refine ⟨hends'.mono (.inr ⟨rfl, by omega⟩), hbest, fun j hj hne => ?_⟩
  cases j with
  | zero => simp [seedRun] at hne
  | succ d =>
      obtain ⟨heq, -, -⟩ := hrow.getD_eq hi hj
      have hd : d < row.length := by
        refine Nat.lt_of_not_le fun hge => hne ?_
        rw [← heq, List.getD_eq_getElem?_getD, List.getElem?_eq_none hge, Option.getD_none]
      have hentry := hentries d hd
      rwa [Nat.zero_add, heq] at hentry

/-- The best run of the table is no worse than any entry of the rows gone
through. -/
theorem noWorse_bestSeed {seed : α → Bool} {i : Nat} {row : List Nat} {best : Block}
    {rest : List α} (hrest : xs.drop i = rest) (hrow : IsRow seed xs ys i row)
    (hends : best.EndsBy i ys.length) :
    (bestSeed seed ys i row best rest).NoWorse best ∧
      ∀ k, i < k → k ≤ xs.length → ∀ j ≤ ys.length, seedRun seed xs ys k j ≠ 0 →
        (bestSeed seed ys i row best rest).NoWorse (runUpTo k j (seedRun seed xs ys k j)) := by
  induction rest generalizing i row best with
  | nil =>
      rw [List.drop_eq_nil_iff] at hrest
      exact ⟨.refl _, fun k hk hk' => absurd (Nat.lt_of_lt_of_le hk hk') (Nat.not_lt.2 hrest)⟩
  | cons x rest ih =>
      obtain ⟨hlt, hx, hdrop⟩ := getElem?_of_drop_eq_cons hrest
      have hnext := hrow.next hx
      have hlen : (if seed x then nextRow x ys 0 row else []).length ≤ ys.length := by
        split
        · exact Nat.le_of_eq (length_nextRow x ys 0 row)
        · exact Nat.zero_le _
      obtain ⟨hends', hbest, hentries⟩ := noWorse_row hlt hnext hlen hends
      obtain ⟨hbest', hrows⟩ := ih hdrop hnext hends'
      rw [bestSeed]
      refine ⟨hbest'.trans hbest, fun k hk hk' j hj hne => ?_⟩
      rcases Nat.eq_or_lt_of_le hk with heq | hlater
      · subst heq
        exact hbest'.trans (hentries j hj hne)
      · exact hrows k hlater hk' j hj hne

/-- The best run of the whole table, before it is extended. -/
def bestOfTable (seed : α → Bool) (xs ys : List α) : Block :=
  bestSeed seed ys 0 [] ⟨0, 0, 0⟩ xs

theorem longestRun_eq (seed : α → Bool) (xs ys : List α) :
    longestRun seed xs ys = extend xs ys (bestOfTable seed xs ys) :=
  rfl

theorem noWorse_bestOfTable (seed : α → Bool) (xs ys : List α) :
    (bestOfTable seed xs ys).NoWorse ⟨0, 0, 0⟩ ∧
      ∀ i ≤ xs.length, ∀ j ≤ ys.length, seedRun seed xs ys i j ≠ 0 →
        (bestOfTable seed xs ys).NoWorse (runUpTo i j (seedRun seed xs ys i j)) := by
  have hstart : (⟨0, 0, 0⟩ : Block).EndsBy 0 ys.length := .inr ⟨rfl, Nat.zero_le _⟩
  obtain ⟨hnone, htable⟩ := noWorse_bestSeed List.drop_zero (isRow_nil seed xs ys) hstart
  refine ⟨hnone, fun i hi j hj hne => htable i ?_ hi j hj hne⟩
  refine Nat.pos_of_ne_zero fun hzero => hne ?_
  rw [hzero, seedRun_zero_left]

theorem exists_bestOfTable_eq (seed : α → Bool) (xs ys : List α) :
    ∃ i ≤ xs.length, ∃ j ≤ ys.length,
      bestOfTable seed xs ys = runUpTo i j (seedRun seed xs ys i j) := by
  refine bestSeed_induction
    (P := fun b => ∃ i ≤ xs.length, ∃ j ≤ ys.length, b = runUpTo i j (seedRun seed xs ys i j))
    (fun i hi j hj => ⟨i, hi, j, hj, rfl⟩) List.drop_zero (isRow_nil seed xs ys) ?_
  exact ⟨0, Nat.zero_le _, 0, Nat.zero_le _, by rw [seedRun_zero_left, runUpTo]⟩

/-! ## Entries and common runs -/

/-- Seeds in a row that are equal on both sides are an entry, or part of one. -/
theorem le_seedRun_of_isRun {seed : α → Bool} {i j n : Nat} (h : IsRun xs ys i j n)
    (hseed : ∀ d < n, ∀ x, xs[i + d]? = some x → seed x = true) :
    n ≤ seedRun seed xs ys (i + n) (j + n) := by
  obtain ⟨hleft, hright, heq⟩ := h
  induction n with
  | zero => exact Nat.zero_le _
  | succ n ih =>
      have hle := ih (fun d hd => hseed d (Nat.lt_succ_of_lt hd)) (by omega) (by omega)
        fun d hd => heq d (Nat.lt_succ_of_lt hd)
      obtain ⟨x, hx⟩ : ∃ x, xs[i + n]? = some x := ⟨_, List.getElem?_eq_getElem (by omega)⟩
      have hy : ys[j + n]? = some x := (heq n (Nat.lt_succ_self n)).symm.trans hx
      rw [← Nat.add_assoc, ← Nat.add_assoc, seedRun, hx]
      simp only [hseed n (Nat.lt_succ_self n) x hx, hy, and_self, if_true]
      omega

/-- The best run of the table is no worse than any common run of seeds. -/
theorem noWorse_bestOfTable_of_isRun {seed : α → Bool} {i j n : Nat} (h : IsRun xs ys i j n)
    (hn : n ≠ 0) (hseed : ∀ d < n, ∀ x, xs[i + d]? = some x → seed x = true) :
    (bestOfTable seed xs ys).NoWorse ⟨i, j, n⟩ := by
  have hle := le_seedRun_of_isRun h hseed
  obtain ⟨-, htable⟩ := noWorse_bestOfTable seed xs ys
  have hentry := htable (i + n) h.left_le (j + n) h.right_le (by omega)
  refine hentry.trans ?_
  rcases Nat.eq_or_lt_of_le hle with heq | hlt
  · rw [← heq]
    refine .inr ⟨rfl, .inr ⟨?_, ?_⟩⟩
    · exact Nat.add_sub_cancel i n
    · exact Nat.le_of_eq (Nat.add_sub_cancel j n)
  · exact .inl hlt

theorem extend_eq_self {b : Block} (h : (extend xs ys b).size ≤ b.size) : extend xs ys b = b := by
  simp only [extend] at h ⊢
  cases b
  simp only [Block.mk.injEq] at *
  omega

/-- Where all elements are seeds, the longest run is no worse than any other. -/
theorem noWorse_longestRun {seed : α → Bool} (hseed : ∀ x ∈ xs, seed x = true) {i j n : Nat}
    (h : IsRun xs ys i j n) (hn : n ≠ 0) : (longestRun seed xs ys).NoWorse ⟨i, j, n⟩ := by
  have hall : ∀ {i j n : Nat}, IsRun xs ys i j n → n ≠ 0 →
      (bestOfTable seed xs ys).NoWorse ⟨i, j, n⟩ := by
    intro i j n hrun hne
    exact noWorse_bestOfTable_of_isRun hrun hne fun d _ x hx => hseed x (List.mem_of_getElem? hx)
  -- Extending gives a common run as well, so it cannot have made the best one longer.
  have hextend : longestRun seed xs ys = bestOfTable seed xs ys := by
    refine extend_eq_self ?_
    by_cases hsize : (longestRun seed xs ys).size = 0
    · show (longestRun seed xs ys).size ≤ _
      omega
    · exact (hall (isRun_longestRun seed xs ys) hsize).size_le
  rw [hextend]
  exact hall h hn

theorem size_longestRun_eq_zero_iff {seed : α → Bool} (hseed : ∀ x ∈ xs, seed x = true) :
    (longestRun seed xs ys).size = 0 ↔ ∀ x ∈ xs, x ∉ ys := by
  constructor
  · intro hsize x hx hy
    obtain ⟨i, hi⟩ := List.getElem?_of_mem hx
    obtain ⟨j, hj⟩ := List.getElem?_of_mem hy
    have hrun : IsRun xs ys i j 1 := by
      refine ⟨?_, ?_, fun d hd => ?_⟩
      · exact (List.getElem?_eq_some_iff.1 hi).1
      · exact (List.getElem?_eq_some_iff.1 hj).1
      · rw [Nat.lt_one_iff.1 hd, Nat.add_zero, Nat.add_zero, hi, hj]
    have hle := (noWorse_longestRun hseed hrun Nat.one_ne_zero).size_le
    exact absurd hsize (Nat.ne_of_gt hle)
  · intro hdisjoint
    refine Nat.eq_zero_of_not_pos fun hpos => ?_
    obtain ⟨hleft, hright, heq⟩ := isRun_longestRun seed xs ys
    obtain ⟨x, hx⟩ : ∃ x, xs[(longestRun seed xs ys).left]? = some x :=
      ⟨_, List.getElem?_eq_getElem (by omega)⟩
    have hy := heq 0 hpos
    rw [Nat.add_zero, Nat.add_zero, hx] at hy
    exact hdisjoint x (List.mem_of_getElem? hx) (List.mem_of_getElem? hy.symm)

/-! ## A sequence and itself -/

theorem seedRun_le_diagonal (seed : α → Bool) (xs : List α) (i j : Nat) :
    seedRun seed xs xs i j ≤ seedRun seed xs xs i i ∧
      seedRun seed xs xs i j ≤ seedRun seed xs xs j j := by
  fun_induction seedRun seed xs xs i j with
  | case1 i j x hx heq ih =>
      rw [seedRun, seedRun, hx, heq.2]
      simp only [heq.1, and_self, if_true]
      omega
  | case2 i j x hx hne => exact ⟨Nat.zero_le _, Nat.zero_le _⟩
  | case3 i j hx => exact ⟨Nat.zero_le _, Nat.zero_le _⟩
  | case4 i j h => exact ⟨Nat.zero_le _, Nat.zero_le _⟩

/-- The best run of a sequence with itself starts at the same place on both
sides. -/
theorem left_eq_right_bestOfTable (seed : α → Bool) (xs : List α) :
    (bestOfTable seed xs xs).left = (bestOfTable seed xs xs).right := by
  obtain ⟨hnone, htable⟩ := noWorse_bestOfTable seed xs xs
  obtain ⟨i, hi, j, hj, hbest⟩ := exists_bestOfTable_eq seed xs xs
  rw [hbest] at hnone htable ⊢
  obtain ⟨hrow, hcolumn⟩ := seedRun_le_diagonal seed xs i j
  by_cases hsize : seedRun seed xs xs i j = 0
  · rw [hsize] at hnone ⊢
    simp only [Block.NoWorse, runUpTo] at hnone ⊢
    omega
  · -- The two entries on the diagonal are as long, so the best one starts no later than either.
    obtain ⟨hle, hle', -⟩ := isRun_seedRun seed hi hj
    have hleft := htable i hi i hi (by omega)
    have hright := htable j hj j hj (by omega)
    simp only [Block.NoWorse, runUpTo] at hleft hright ⊢
    omega

theorem commonPrefixLength_self (xs : List α) : commonPrefixLength xs xs = xs.length := by
  induction xs with
  | nil => rfl
  | cons x xs ih => rw [commonPrefixLength, if_pos rfl, ih, List.length_cons]

theorem extend_self {i n : Nat} (h : i + n ≤ xs.length) :
    extend xs xs ⟨i, i, n⟩ = ⟨0, 0, xs.length⟩ := by
  simp only [extend, commonPrefixLength_self, List.length_reverse, List.length_take,
    List.length_drop, Block.mk.injEq]
  omega

/-- The longest run that a sequence has in common with itself is all of it,
whatever its seeds are. -/
theorem longestRun_self (seed : α → Bool) (xs : List α) :
    longestRun seed xs xs = ⟨0, 0, xs.length⟩ := by
  have hdiagonal := left_eq_right_bestOfTable seed xs
  obtain ⟨i, hi, j, hj, hbest⟩ := exists_bestOfTable_eq seed xs xs
  obtain ⟨hle, -, -⟩ := isRun_seedRun seed hi hj
  rw [hbest] at hdiagonal
  rw [longestRun_eq, hbest]
  simp only [runUpTo] at hdiagonal ⊢
  rw [← hdiagonal]
  exact extend_self (by omega)

end EditMining.Alignment
