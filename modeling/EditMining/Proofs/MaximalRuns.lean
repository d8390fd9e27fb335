import EditMining.Proofs.RecursiveAlignment

/-!
# The block of a rectangle cannot be made longer

The block of a rectangle is a run inside it, and there is nothing to add to it.
Next to either end the two sides differ, or the rectangle ends on one side
(`Rectangle.CannotGrow`). This is what the two extensions are for: each stops at
the first place where it has to, and the one at the front does not move the end.

Nor is it too short. Popular elements are left out of the table, but a common run
without them is an entry of it, or part of one, and the best entry is only made
longer afterwards (`size_le_longestRun`). So the block is no shorter than any
common run of its rectangle whose elements are rare on the right, popular
elements or not.
-/

namespace EditMining.Alignment

variable {α : Type} {xs ys : List α} {r : Rectangle} {b : Block} {i j n : Nat}

/-! ## Runs and slices -/

theorem isRun_iff_slice_eq (hi : i + n ≤ xs.length) (hj : j + n ≤ ys.length) :
    IsRun xs ys i j n ↔ Rectangle.slice xs i (i + n) = Rectangle.slice ys j (j + n) := by
  refine ⟨IsRun.slice_eq, fun h => ⟨hi, hj, fun d hd => ?_⟩⟩
  have heq : (Rectangle.slice xs i (i + n))[d]? = (Rectangle.slice ys j (j + n))[d]? := by rw [h]
  rwa [getElem?_slice (by omega), getElem?_slice (by omega)] at heq

/-! ## No equal neighbours -/

/-- At neither end of a block are there equal neighbours inside a rectangle. -/
structure Rectangle.CannotGrow (xs ys : List α) (r : Rectangle) (b : Block) : Prop where
  before : r.leftStart < b.left → r.rightStart < b.right → xs[b.left - 1]? ≠ ys[b.right - 1]?
  behind : b.left + b.size < r.leftStop → b.right + b.size < r.rightStop →
    xs[b.left + b.size]? ≠ ys[b.right + b.size]?

/-- What cannot grow in the slices of a rectangle cannot grow in the rectangle. -/
theorem Rectangle.Within.cannotGrow_of_slice (hr : r.Within xs ys)
    (h : (wholeRectangle (slice xs r.leftStart r.leftStop)
      (slice ys r.rightStart r.rightStop)).CannotGrow (slice xs r.leftStart r.leftStop)
        (slice ys r.rightStart r.rightStop) b) (hleft : b.left + b.size ≤ r.leftStop - r.leftStart)
    (hright : b.right + b.size ≤ r.rightStop - r.rightStart) :
    r.CannotGrow xs ys ⟨r.leftStart + b.left, r.rightStart + b.right, b.size⟩ := by
  obtain ⟨hbefore, hbehind⟩ := h
  simp only [wholeRectangle, length_slice hr.leftStop_le, length_slice hr.rightStop_le] at hbehind
  constructor
  · intro hl hl'
    simp only at hl hl' ⊢
    have hne := hbefore (show 0 < b.left by omega) (show 0 < b.right by omega)
    rw [getElem?_slice (by omega), getElem?_slice (by omega)] at hne
    rwa [Nat.add_sub_assoc (by omega), Nat.add_sub_assoc (by omega)]
  · intro hl hl'
    simp only at hl hl' ⊢
    have hne := hbehind (by omega) (by omega)
    rw [getElem?_slice (by omega), getElem?_slice (by omega)] at hne
    rwa [Nat.add_assoc, Nat.add_assoc]

variable [DecidableEq α]

/-- Behind their common front two lists differ, unless one of them ends there. -/
theorem getElem?_commonPrefixLength_ne (xs ys : List α)
    (hx : commonPrefixLength xs ys < xs.length) (hy : commonPrefixLength xs ys < ys.length) :
    xs[commonPrefixLength xs ys]? ≠ ys[commonPrefixLength xs ys]? := by
  fun_induction commonPrefixLength xs ys with
  | case1 x xs ys ih =>
      rw [List.getElem?_cons_succ, List.getElem?_cons_succ]
      exact ih (Nat.lt_of_succ_lt_succ hx) (Nat.lt_of_succ_lt_succ hy)
  | case2 x xs y ys hne =>
      rw [List.getElem?_cons_zero, List.getElem?_cons_zero]
      exact fun heq => hne (Option.some.inj heq)
  | case3 xs ys hnil =>
      obtain ⟨x, xs, rfl⟩ := List.exists_cons_of_length_pos hx
      obtain ⟨y, ys, rfl⟩ := List.exists_cons_of_length_pos hy
      exact absurd rfl (hnil x xs y ys rfl)

theorem cannotGrow_extend (hb : IsRun xs ys b.left b.right b.size) :
    (wholeRectangle xs ys).CannotGrow xs ys (extend xs ys b) := by
  have hleft := hb.left_le
  have hright := hb.right_le
  obtain ⟨hi, hj, -⟩ := isRun_backwards (Nat.le_of_add_right_le hleft)
    (Nat.le_of_add_right_le hright) rfl
  constructor
  · intro hl hl'
    simp only [wholeRectangle, extend] at hl hl' ⊢
    -- What lies in front is read backwards, so the extension stops behind a common front.
    have hne := getElem?_commonPrefixLength_ne (xs.take b.left).reverse (ys.take b.right).reverse
      (by rw [List.length_reverse, List.length_take]; omega)
      (by rw [List.length_reverse, List.length_take]; omega)
    rwa [getElem?_reverse_take (by omega) (by omega), getElem?_reverse_take (by omega) (by omega),
      Nat.sub_right_comm, Nat.sub_right_comm b.right] at hne
  · intro hl hl'
    simp only [wholeRectangle, extend] at hl hl' ⊢
    -- What was added in front is as long as what the start moved by: the end is where it was.
    have hne := getElem?_commonPrefixLength_ne (xs.drop (b.left + b.size))
      (ys.drop (b.right + b.size)) (by rw [List.length_drop]; omega)
      (by rw [List.length_drop]; omega)
    rw [List.getElem?_drop, List.getElem?_drop] at hne
    rwa [← Nat.add_assoc, ← Nat.add_assoc, Nat.sub_add_cancel hi, ← Nat.add_assoc,
      ← Nat.add_assoc, Nat.sub_add_cancel hj]

theorem cannotGrow_longestRun (seed : α → Bool) (xs ys : List α) :
    (wholeRectangle xs ys).CannotGrow xs ys (longestRun seed xs ys) :=
  cannotGrow_extend (isRun_bestSeed seed xs ys)

theorem Rectangle.Within.cannotGrow_block (hr : r.Within xs ys) :
    r.CannotGrow xs ys (r.block xs ys) := by
  obtain ⟨hleft, hright, -⟩ := isRun_longestRun (isSeed ys) (slice xs r.leftStart r.leftStop)
    (slice ys r.rightStart r.rightStop)
  rw [length_slice hr.leftStop_le] at hleft
  rw [length_slice hr.rightStop_le] at hright
  exact hr.cannotGrow_of_slice (cannotGrow_longestRun _ _ _) hleft hright

/-! ## Runs of rare elements -/

theorem isSeed_iff {x : α} :
    isSeed ys x = true ↔ ys.length < 200 ∨ ys.count x ≤ ys.length / 100 + 1 := by
  rw [isSeed, Bool.or_eq_true, decide_eq_true_eq, decide_eq_true_eq, popularityLimit]

theorem size_le_size_extend (xs ys : List α) (b : Block) : b.size ≤ (extend xs ys b).size := by
  simp only [extend]
  omega

/-- A common run of seeds is no longer than the run that is found, whatever is
added to that one at its ends. -/
theorem size_le_longestRun {seed : α → Bool} (h : IsRun xs ys i j n)
    (hseed : ∀ d < n, ∀ x, xs[i + d]? = some x → seed x = true) :
    n ≤ (longestRun seed xs ys).size := by
  by_cases hn : n = 0
  · rw [hn]
    exact Nat.zero_le _
  · calc
      n ≤ (bestOfTable seed xs ys).size := (noWorse_bestOfTable_of_isRun h hn hseed).size_le
      _ ≤ (longestRun seed xs ys).size := size_le_size_extend xs ys _

theorem Rectangle.Holds.size_le_block {c : Block} (hr : r.Within xs ys) (hc : r.Holds xs ys c)
    (hseed : ∀ x ∈ slice xs c.left (c.left + c.size), isSeed ys x = true) :
    c.size ≤ (r.block xs ys).size := by
  refine size_le_longestRun (hc.isRun_slice hr) fun d hd x hx => hseed x ?_
  have hleft := hc.leftStart_le
  have hstop := hc.le_leftStop
  rw [getElem?_slice (by omega), ← Nat.add_assoc, Nat.add_sub_of_le hleft] at hx
  exact mem_slice_of_getElem? (Nat.le_add_right _ _) (Nat.add_lt_add_left hd _) hx

/-! ## The block of a rectangle -/

/-- The block of a rectangle lies inside it, is the same on both sides and cannot
be extended at either end. No common run of rare elements inside the rectangle is
longer; in a right sequence of fewer than two hundred elements all are rare. -/
theorem Rectangle.block_maximal (hr : r.Within xs ys) :
    let b := r.block xs ys
    (r.leftStart ≤ b.left ∧ b.left + b.size ≤ r.leftStop ∧
        r.rightStart ≤ b.right ∧ b.right + b.size ≤ r.rightStop) ∧
      slice xs b.left (b.left + b.size) = slice ys b.right (b.right + b.size) ∧
      (r.leftStart < b.left → r.rightStart < b.right → xs[b.left - 1]? ≠ ys[b.right - 1]?) ∧
      (b.left + b.size < r.leftStop → b.right + b.size < r.rightStop →
        xs[b.left + b.size]? ≠ ys[b.right + b.size]?) ∧
      ∀ i j n, r.leftStart ≤ i → i + n ≤ r.leftStop → r.rightStart ≤ j → j + n ≤ r.rightStop →
        slice xs i (i + n) = slice ys j (j + n) →
        (∀ x ∈ slice xs i (i + n), ys.length < 200 ∨ ys.count x ≤ ys.length / 100 + 1) →
        n ≤ b.size := by
  intro b
  have hb : r.Holds xs ys b := hr.holds_block
  have hgrow : r.CannotGrow xs ys b := hr.cannotGrow_block
  refine ⟨⟨hb.leftStart_le, hb.le_leftStop, hb.rightStart_le, hb.le_rightStop⟩,
    hb.isRun.slice_eq, hgrow.before, hgrow.behind, ?_⟩
  intro i j n hi hin hj hjn hslice hrare
  have hrun : IsRun xs ys i j n :=
    (isRun_iff_slice_eq (Nat.le_trans hin hr.leftStop_le)
      (Nat.le_trans hjn hr.rightStop_le)).2 hslice
  have hc : r.Holds xs ys ⟨i, j, n⟩ := ⟨hrun, hi, hj, hin, hjn⟩
  exact hc.size_le_block hr fun x hx => isSeed_iff.2 (hrare x hx)

/-- Most of the right sequence is one popular element. The run is found at the
rare one, and made longer up to the edge of the rectangle in front and up to two
different elements behind. -/
theorem Rectangle.block_maximal_of_popular :
    let xs := [7, 0, 0, 1, 0, 8]
    let ys := List.replicate 120 0 ++ [1] ++ List.replicate 120 0
    let r : Rectangle := ⟨2, 6, 110, 241⟩
    isSeed ys 0 = false ∧ r.Within xs ys ∧ r.block xs ys = ⟨2, 119, 3⟩ ∧
      slice xs 2 5 = slice ys 119 122 ∧ xs[5]? ≠ ys[122]? ∧
      ∀ i j n, 2 ≤ i → i + n ≤ 6 → 110 ≤ j → j + n ≤ 241 →
        slice xs i (i + n) = slice ys j (j + n) →
        (∀ x ∈ slice xs i (i + n), ys.length < 200 ∨ ys.count x ≤ ys.length / 100 + 1) →
        n ≤ 3 := by
  intro xs ys r
  have hpopular : isSeed ys 0 = false := by decide +kernel
  have hr : r.Within xs ys := ⟨by decide, by decide, by decide, by decide +kernel⟩
  have hblock : r.block xs ys = ⟨2, 119, 3⟩ := by decide +kernel
  have hmaximal := block_maximal hr
  rw [hblock] at hmaximal
  obtain ⟨-, hslice, -, hbehind, hlongest⟩ := hmaximal
  exact ⟨hpopular, hr, hblock, hslice, hbehind (by decide) (by decide), hlongest⟩

end EditMining.Alignment
