import EditMining.Alignment

/-!
# What the search for a common run finds

The block that the aligner takes out of a rectangle comes from three steps: a
table of runs that is rolled over the left sequence, the best entry of that
table, and two extensions over equal neighbours. This file says what each of
them computes.

The table is exact. Row `i` holds, for each position of the right sequence,
the length of the longest run of seeds that ends there and in the last of the
first `i` elements on the left (`seedRun`, `IsRow`). The best
entry is therefore a run of equal elements, or the empty block it started
from, and extending a run by equal neighbours gives a run again. Whether an
element is a seed plays no part in this: popular elements only make the table
sparser.
-/

namespace EditMining.Alignment

variable {α : Type} {xs ys : List α}

/-- So many elements from two positions on are there on both sides and equal. -/
structure IsRun (xs ys : List α) (left right size : Nat) : Prop where
  left_le : left + size ≤ xs.length
  right_le : right + size ≤ ys.length
  getElem?_eq : ∀ d < size, xs[left + d]? = ys[right + d]?

theorem IsRun.empty {i j : Nat} (hi : i ≤ xs.length) (hj : j ≤ ys.length) : IsRun xs ys i j 0 :=
  ⟨hi, hj, fun _ hd => absurd hd (Nat.not_lt_zero _)⟩

theorem IsRun.append {i j m n : Nat} (hm : IsRun xs ys i j m) (hn : IsRun xs ys (i + m) (j + m) n) :
    IsRun xs ys i j (m + n) := by
  have hl := hn.left_le
  have hr := hn.right_le
  refine ⟨by omega, by omega, fun d hd => ?_⟩
  rcases Nat.lt_or_ge d m with hlt | hge
  · exact hm.getElem?_eq d hlt
  · have heq := hn.getElem?_eq (d - m) (by omega)
    rwa [show i + m + (d - m) = i + d by omega, show j + m + (d - m) = j + d by omega] at heq

theorem getElem?_reverse_take {i d : Nat} (hi : i ≤ xs.length) (hd : d < i) :
    (xs.take i).reverse[d]? = xs[i - 1 - d]? := by
  have hlen : (xs.take i).length = i := by
    rw [List.length_take]
    omega
  rw [List.getElem?_reverse (by omega), hlen, List.getElem?_take_of_lt (by omega)]

theorem getElem?_of_drop_eq_cons {i : Nat} {x : α} {rest : List α} (h : xs.drop i = x :: rest) :
    i < xs.length ∧ xs[i]? = some x ∧ xs.drop (i + 1) = rest := by
  refine ⟨?_, ?_, ?_⟩
  · have hlen := congrArg List.length h
    rw [List.length_drop, List.length_cons] at hlen
    omega
  · rw [← Nat.add_zero i, ← List.getElem?_drop, h, List.getElem?_cons_zero]
  · rw [← List.drop_drop, h, List.drop_one, List.tail_cons]

theorem reverse_take_succ {i : Nat} {x : α} (hx : xs[i]? = some x) :
    (xs.take (i + 1)).reverse = x :: (xs.take i).reverse := by
  rw [List.take_add_one, hx, Option.toList_some, List.reverse_append, List.reverse_singleton,
    List.singleton_append]

variable [DecidableEq α]

/-! ## Extending by equal neighbours -/

theorem commonPrefixLength_nil_right (xs : List α) : commonPrefixLength xs [] = 0 := by
  cases xs <;> rfl

theorem getElem?_of_lt_commonPrefixLength {d : Nat} (h : d < commonPrefixLength xs ys) :
    xs[d]? = ys[d]? := by
  induction d generalizing xs ys with
  | zero =>
      unfold commonPrefixLength at h
      split at h
      · split at h
        · next heq => rw [List.getElem?_cons_zero, List.getElem?_cons_zero, heq]
        · exact absurd h (Nat.not_lt_zero _)
      · exact absurd h (Nat.not_lt_zero _)
  | succ d ih =>
      unfold commonPrefixLength at h
      split at h
      · split at h
        · rw [List.getElem?_cons_succ, List.getElem?_cons_succ]
          exact ih (Nat.lt_of_succ_lt_succ h)
        · exact absurd h (Nat.not_lt_zero _)
      · exact absurd h (Nat.not_lt_zero _)

theorem isRun_forwards {i j : Nat} (hi : i ≤ xs.length) (hj : j ≤ ys.length) :
    IsRun xs ys i j (commonPrefixLength (xs.drop i) (ys.drop j)) := by
  have hl := commonPrefixLength_le_left (xs.drop i) (ys.drop j)
  have hr := commonPrefixLength_le_right (xs.drop i) (ys.drop j)
  rw [List.length_drop] at hl hr
  refine ⟨by omega, by omega, fun d hd => ?_⟩
  have heq := getElem?_of_lt_commonPrefixLength hd
  rwa [List.getElem?_drop, List.getElem?_drop] at heq

theorem isRun_backwards {i j n : Nat} (hi : i ≤ xs.length) (hj : j ≤ ys.length)
    (hn : commonPrefixLength (xs.take i).reverse (ys.take j).reverse = n) :
    n ≤ i ∧ n ≤ j ∧ IsRun xs ys (i - n) (j - n) n := by
  have hl := commonPrefixLength_le_left (xs.take i).reverse (ys.take j).reverse
  have hr := commonPrefixLength_le_right (xs.take i).reverse (ys.take j).reverse
  rw [List.length_reverse, List.length_take] at hl hr
  refine ⟨by omega, by omega, by omega, by omega, fun d hd => ?_⟩
  have hlt : n - 1 - d < commonPrefixLength (xs.take i).reverse (ys.take j).reverse := by omega
  have heq := getElem?_of_lt_commonPrefixLength hlt
  rw [getElem?_reverse_take hi (by omega), getElem?_reverse_take hj (by omega)] at heq
  rwa [show i - n + d = i - 1 - (n - 1 - d) by omega, show j - n + d = j - 1 - (n - 1 - d) by omega]

/-- A run extended by equal neighbours is the run before it, itself and the run
behind it in one. -/
theorem isRun_extend {b : Block} (hb : IsRun xs ys b.left b.right b.size) :
    IsRun xs ys (extend xs ys b).left (extend xs ys b).right (extend xs ys b).size := by
  have hleft := hb.left_le
  have hright := hb.right_le
  obtain ⟨hi, hj, hback⟩ := isRun_backwards (Nat.le_of_add_right_le hleft)
    (Nat.le_of_add_right_le hright) rfl
  have hon := isRun_forwards hleft hright
  simp only [extend]
  generalize commonPrefixLength (xs.take b.left).reverse (ys.take b.right).reverse = back at *
  refine (hback.append ?_).append ?_
  · rwa [Nat.sub_add_cancel hi, Nat.sub_add_cancel hj]
  · rwa [← Nat.add_assoc, ← Nat.add_assoc, Nat.sub_add_cancel hi, Nat.sub_add_cancel hj]

/-! ## The table of runs -/

/-- How many seeds in a row are equal on both sides up to two positions. -/
def seedRun (seed : α → Bool) (xs ys : List α) : Nat → Nat → Nat
  | i + 1, j + 1 =>
      match xs[i]? with
      | some x => if seed x ∧ ys[j]? = some x then seedRun seed xs ys i j + 1 else 0
      | none => 0
  | _, _ => 0

theorem seedRun_zero_left (seed : α → Bool) (xs ys : List α) (j : Nat) :
    seedRun seed xs ys 0 j = 0 := by
  simp [seedRun]

theorem seedRun_zero_right (seed : α → Bool) (xs ys : List α) (i : Nat) :
    seedRun seed xs ys i 0 = 0 := by
  simp [seedRun]

theorem isRun_seedRun (seed : α → Bool) {i j : Nat} (hi : i ≤ xs.length) (hj : j ≤ ys.length) :
    seedRun seed xs ys i j ≤ i ∧ seedRun seed xs ys i j ≤ j ∧
      IsRun xs ys (i - seedRun seed xs ys i j) (j - seedRun seed xs ys i j)
        (seedRun seed xs ys i j) := by
  fun_induction seedRun seed xs ys i j with
  | case1 i j x hx heq ih =>
      obtain ⟨hle, hle', hrun⟩ := ih (by omega) (by omega)
      refine ⟨by omega, by omega, ?_⟩
      simp only [Nat.succ_eq_add_one, Nat.add_sub_add_right]
      refine hrun.append ⟨by omega, by omega, fun d hd => ?_⟩
      rw [Nat.lt_one_iff.1 hd, Nat.add_zero, Nat.add_zero, Nat.sub_add_cancel hle,
        Nat.sub_add_cancel hle', hx, heq.2]
  | case2 i j x hx hne => exact ⟨Nat.zero_le _, Nat.zero_le _, .empty hi hj⟩
  | case3 i j hx => exact ⟨Nat.zero_le _, Nat.zero_le _, .empty hi hj⟩
  | case4 i j h => exact ⟨Nat.zero_le _, Nat.zero_le _, .empty hi hj⟩

/-- An entry of a row goes on from the one before it in the row above. -/
theorem getD_nextRow (x : α) (ys : List α) (diagonal : Nat) (row : List Nat) (j : Nat) :
    (nextRow x ys diagonal row).getD j 0 =
      if ys[j]? = some x then (diagonal :: row).getD j 0 + 1 else 0 := by
  induction ys generalizing diagonal row j with
  | nil => simp [nextRow]
  | cons y ys ih =>
      rw [nextRow]
      cases j with
      | zero => simp
      | succ j =>
          rw [List.getD_cons_succ, ih, List.getElem?_cons_succ, List.getD_cons_succ]
          cases row <;> cases j <;> simp

/-- The rows of the table, one for each number of elements gone by on the
left. -/
def IsRow (seed : α → Bool) (xs ys : List α) (i : Nat) (row : List Nat) : Prop :=
  ∀ j, (0 :: row).getD j 0 = seedRun seed xs ys i j

theorem isRow_nil (seed : α → Bool) (xs ys : List α) : IsRow seed xs ys 0 [] := by
  intro j
  rw [seedRun_zero_left]
  cases j <;> rfl

theorem IsRow.next {seed : α → Bool} {i : Nat} {row : List Nat} {x : α}
    (h : IsRow seed xs ys i row) (hx : xs[i]? = some x) :
    IsRow seed xs ys (i + 1) (if seed x then nextRow x ys 0 row else []) := by
  intro j
  cases j with
  | zero => rfl
  | succ j =>
      rw [List.getD_cons_succ, seedRun, hx]
      by_cases hseed : seed x = true
      · simp only [hseed, if_true, true_and, getD_nextRow, h j]
      · simp [hseed]

/-! ## The best entry -/

def runUpTo (i j size : Nat) : Block :=
  ⟨i - size, j - size, size⟩

theorem bestInRow_induction {P : Block → Prop} {i j : Nat} {row : List Nat} {best : Block}
    (hbest : P best) (hrow : ∀ d < row.length, P (runUpTo (i + 1) (j + d + 1) (row.getD d 0))) :
    P (bestInRow i j row best) := by
  induction row generalizing j best with
  | nil => exact hbest
  | cons size row ih =>
      rw [bestInRow]
      refine ih ?_ fun d hd => ?_
      · split
        · exact hrow 0 (Nat.zero_lt_succ _)
        · exact hbest
      · rw [show j + 1 + d + 1 = j + (d + 1) + 1 by omega]
        exact hrow (d + 1) (Nat.succ_lt_succ hd)

theorem length_nextRow (x : α) (ys : List α) (diagonal : Nat) (row : List Nat) :
    (nextRow x ys diagonal row).length = ys.length := by
  induction ys generalizing diagonal row with
  | nil => rfl
  | cons y ys ih => rw [nextRow, List.length_cons, List.length_cons, ih]

/-- What holds of a block and of every run in the table holds of the best
one. -/
theorem bestSeed_induction {P : Block → Prop} {seed : α → Bool}
    (htable : ∀ i ≤ xs.length, ∀ j ≤ ys.length, P (runUpTo i j (seedRun seed xs ys i j)))
    {i : Nat} {row : List Nat} {best : Block} {rest : List α} (hrest : xs.drop i = rest)
    (hrow : IsRow seed xs ys i row) (hbest : P best) : P (bestSeed seed ys i row best rest) := by
  induction rest generalizing i row best with
  | nil => exact hbest
  | cons x rest ih =>
      obtain ⟨hlt, hx, hdrop⟩ := getElem?_of_drop_eq_cons hrest
      have hnext := hrow.next hx
      rw [bestSeed]
      refine ih hdrop hnext (bestInRow_induction hbest fun d hd => ?_)
      have hlen : d < ys.length := by
        split at hd
        · rwa [length_nextRow] at hd
        · exact absurd hd (Nat.not_lt_zero _)
      rw [Nat.zero_add, ← List.getD_cons_succ, hnext (d + 1)]
      exact htable (i + 1) hlt (d + 1) hlen

theorem isRun_bestSeed (seed : α → Bool) (xs ys : List α) :
    IsRun xs ys (bestSeed seed ys 0 [] ⟨0, 0, 0⟩ xs).left (bestSeed seed ys 0 [] ⟨0, 0, 0⟩ xs).right
      (bestSeed seed ys 0 [] ⟨0, 0, 0⟩ xs).size := by
  refine bestSeed_induction (P := fun b => IsRun xs ys b.left b.right b.size)
    (fun i hi j hj => (isRun_seedRun seed hi hj).2.2) rfl (isRow_nil seed xs ys) ?_
  exact .empty (Nat.zero_le _) (Nat.zero_le _)

theorem isRun_longestRun (seed : α → Bool) (xs ys : List α) :
    IsRun xs ys (longestRun seed xs ys).left (longestRun seed xs ys).right
      (longestRun seed xs ys).size :=
  isRun_extend (isRun_bestSeed seed xs ys)

end EditMining.Alignment
