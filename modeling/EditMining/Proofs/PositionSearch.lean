import EditMining.Proofs.AlignedBlocks
import EditMining.Proofs.LongestRuns

/-!
# The search by positions

The run of a rectangle can be looked for in the whole sequences, too. For each element
on the left the positions of that element on the right are gone through, those outside
the rectangle passed over, and the lengths of the runs that end at them are kept under
their positions for the next element (`scanPositions`, `scanRows`). What is found is
made longer step by step, first in front and then behind, and never over the edge of the
rectangle (`growFront`, `growBehind`).

This finds the block of the rectangle, which the slices of the two sequences were searched
for (`matchIn_eq_block`). What is kept under the positions of the rectangle is one row of
the table of runs (`RunsAre`); positions that are not kept are the zeros of that row.
Rectangles that come from rectangles within the sequences are within them as well, so
every round of the alignment can take its block from there (`blocksOf_cons`).
-/

namespace EditMining.Alignment

variable {α : Type} [DecidableEq α] {xs ys : List α} {r : Rectangle}

/-! ## The search -/

/-- Where an element is in the right sequence. Popular ones are not looked up. -/
def positionsOf (ys : List α) (x : α) : List Nat :=
  if isSeed ys x then (List.range ys.length).filter fun j => ys[j]? = some x else []

/-- The length of the run that ends right in front of a position. -/
def runBefore (runs : List (Nat × Nat)) : Nat → Nat
  | 0 => 0
  | j + 1 => (runs.lookup j).getD 0

/-- The positions of the element at `i`, gone through in order: the runs that end there,
and the better of a block and these runs. -/
def scanPositions (r : Rectangle) (i : Nat) (runs : List (Nat × Nat)) :
    List Nat → List (Nat × Nat) → Block → List (Nat × Nat) × Block
  | [], next, best => (next, best)
  | j :: js, next, best =>
      if j < r.rightStart then scanPositions r i runs js next best
      else if r.rightStop ≤ j then (next, best)
      else
        let size := runBefore runs j + 1
        scanPositions r i runs js ((j, size) :: next)
          (if best.size < size then ⟨i + 1 - size, j + 1 - size, size⟩ else best)

/-- The best run that ends at one of some positions of the left sequence. -/
def scanRows (xs ys : List α) (r : Rectangle) : List Nat → List (Nat × Nat) → Block → Block
  | [], _, best => best
  | i :: is, runs, best =>
      let (next, best) := scanPositions r i runs (xs[i]?.elim [] (positionsOf ys)) [] best
      scanRows xs ys r is next best

/-- A block made longer in front, as long as the neighbours are equal. -/
def growFront (xs ys : List α) (r : Rectangle) (b : Block) : Block :=
  if r.leftStart < b.left ∧ r.rightStart < b.right ∧ xs[b.left - 1]? = ys[b.right - 1]? then
    growFront xs ys r ⟨b.left - 1, b.right - 1, b.size + 1⟩
  else b
termination_by b.left

/-- A block made longer behind, as long as the neighbours are equal. -/
def growBehind (xs ys : List α) (r : Rectangle) (b : Block) : Block :=
  if b.left + b.size < r.leftStop ∧ b.right + b.size < r.rightStop ∧
      xs[b.left + b.size]? = ys[b.right + b.size]? then
    growBehind xs ys r ⟨b.left, b.right, b.size + 1⟩
  else b
termination_by r.leftStop - (b.left + b.size)

/-- The longest common run inside a rectangle, found without cutting the sequences. -/
def matchIn (xs ys : List α) (r : Rectangle) : Block :=
  growBehind xs ys r (growFront xs ys r
    (scanRows xs ys r (List.range' r.leftStart (r.leftStop - r.leftStart)) []
      ⟨r.leftStart, r.rightStart, 0⟩))

/-! ## Positions inside the rectangle -/

variable {i : Nat} {runs ends : List (Nat × Nat)} {js ks : List Nat} {best : Block}

theorem scanPositions_append_left (hjs : ∀ j ∈ js, j < r.rightStart) :
    scanPositions r i runs (js ++ ks) ends best = scanPositions r i runs ks ends best := by
  induction js with
  | nil => rfl
  | cons j js ih =>
      obtain ⟨hj, hjs⟩ := List.forall_mem_cons.1 hjs
      rw [List.cons_append, scanPositions, if_pos hj, ih hjs]

theorem scanPositions_append_right (hr : r.rightStart ≤ r.rightStop)
    (hks : ∀ k ∈ ks, r.rightStop ≤ k) :
    scanPositions r i runs (js ++ ks) ends best = scanPositions r i runs js ends best := by
  induction js generalizing ends best with
  | nil =>
      cases ks with
      | nil => rfl
      | cons k ks =>
          have hk : r.rightStop ≤ k := hks k List.mem_cons_self
          have hbehind : ¬k < r.rightStart := by omega
          simp [scanPositions, hbehind, hk]
  | cons j js ih => simp only [List.cons_append, scanPositions, ih]

/-- The positions of an element that are inside a rectangle. -/
def positionsIn (ys : List α) (r : Rectangle) (x : α) : List Nat :=
  (List.range' r.rightStart (r.rightStop - r.rightStart)).filter fun j => ys[j]? = some x

theorem scanPositions_positionsOf (hr : r.Within xs ys) {x : α} (hx : isSeed ys x = true) :
    scanPositions r i runs (positionsOf ys x) ends best =
      scanPositions r i runs (positionsIn ys r x) ends best := by
  have hrange : List.range ys.length = List.range' 0 r.rightStart ++
      (List.range' r.rightStart (r.rightStop - r.rightStart) ++
        List.range' r.rightStop (ys.length - r.rightStop)) := by
    obtain ⟨m, hm⟩ := Nat.exists_eq_add_of_le hr.right_le
    obtain ⟨n, hn⟩ := Nat.exists_eq_add_of_le hr.rightStop_le
    have hwhole := @List.range'_append_1 0 r.rightStart (m + n)
    rw [Nat.zero_add] at hwhole
    rw [hn, hm, Nat.add_sub_cancel_left, Nat.add_sub_cancel_left, List.range'_append_1, hwhole,
      Nat.add_assoc, List.range_eq_range']
  rw [positionsOf, if_pos hx, hrange, List.filter_append, List.filter_append,
    scanPositions_append_left, scanPositions_append_right hr.right_le, positionsIn]
  · intro k hk
    have := List.mem_range'_1.1 (List.mem_filter.1 hk).1
    omega
  · intro j hj
    have := List.mem_range'_1.1 (List.mem_filter.1 hj).1
    omega

theorem lookup_scanPositions (hjs : ∀ j ∈ js, r.rightStart ≤ j ∧ j < r.rightStop) (p : Nat) :
    (scanPositions r i runs js ends best).1.lookup p =
      if p ∈ js then some (runBefore runs p + 1) else ends.lookup p := by
  induction js generalizing ends best with
  | nil => rfl
  | cons j js ih =>
      obtain ⟨hj, hjs⟩ := List.forall_mem_cons.1 hjs
      rw [scanPositions, if_neg (by omega), if_neg (by omega), ih hjs, List.lookup_cons]
      by_cases hp : p = j
      · subst hp
        simp
      · have hbeq : (p == j) = false := beq_eq_false_iff_ne.2 hp
        simp [hp, hbeq]

theorem mem_positionsIn {x : α} {j : Nat} :
    j ∈ positionsIn ys r x ↔
      (r.rightStart ≤ j ∧ j < r.rightStop) ∧ ys[j]? = some x := by
  rw [positionsIn, List.mem_filter, List.mem_range'_1, decide_eq_true_eq]
  refine and_congr_left fun _ => and_congr_right fun _ => ?_
  omega

/-! ## One row of the table -/

/-- A block of the slices as one of the sequences. -/
def Rectangle.place (r : Rectangle) (b : Block) : Block :=
  ⟨r.leftStart + b.left, r.rightStart + b.right, b.size⟩

/-- What is kept is the row of the runs that end in front of some position. -/
def RunsAre (xs ys : List α) (r : Rectangle) (i : Nat) (runs : List (Nat × Nat)) : Prop :=
  ∀ j, runBefore runs (r.rightStart + j) =
    seedRun (isSeed ys) (Rectangle.slice xs r.leftStart r.leftStop)
      (Rectangle.slice ys r.rightStart r.rightStop) i j

theorem runsAre_nil (xs ys : List α) (r : Rectangle) : RunsAre xs ys r 0 [] := by
  intro j
  rw [seedRun_zero_left]
  cases r.rightStart + j <;> rfl

theorem mem_positionsIn_iff_slice (hr : r.Within xs ys) {x : α} {j : Nat} :
    r.rightStart + j ∈ positionsIn ys r x ↔
      (Rectangle.slice ys r.rightStart r.rightStop)[j]? = some x := by
  rw [mem_positionsIn]
  by_cases hj : j < r.rightStop - r.rightStart
  · rw [getElem?_slice hj]
    exact and_iff_right (by omega)
  · have hnone : (Rectangle.slice ys r.rightStart r.rightStop)[j]? = none := by
      rw [List.getElem?_eq_none_iff, length_slice hr.rightStop_le]
      omega
    rw [hnone]
    simp only [reduceCtorEq, iff_false]
    omega

/-- The runs that end at the next element, whatever block comes with them. -/
theorem RunsAre.next (hr : r.Within xs ys) (hruns : RunsAre xs ys r i runs) {x : α}
    (hx : (Rectangle.slice xs r.leftStart r.leftStop)[i]? = some x) (k : Nat) :
    RunsAre xs ys r (i + 1) (scanPositions r k runs (positionsOf ys x) [] best).1 := by
  intro j
  by_cases hseed : isSeed ys x = true
  · rw [scanPositions_positionsOf hr hseed]
    have hlookup : ∀ p, (scanPositions r k runs (positionsIn ys r x) [] best).1.lookup p =
        if p ∈ positionsIn ys r x then some (runBefore runs p + 1) else none :=
      lookup_scanPositions fun j hj => (mem_positionsIn.1 hj).1
    cases j with
    | zero =>
        rw [Nat.add_zero, seedRun_zero_right]
        cases hstart : r.rightStart with
        | zero => rfl
        | succ p =>
            have hnot : p ∉ positionsIn ys r x := by
              rw [mem_positionsIn]
              omega
            rw [runBefore, hlookup, if_neg hnot]
            rfl
    | succ j =>
        rw [← Nat.add_assoc, runBefore, hlookup, seedRun, hx]
        simp only [hseed, true_and, mem_positionsIn_iff_slice hr]
        split
        · rw [hruns j]
          rfl
        · rfl
  · rw [positionsOf, if_neg hseed, scanPositions]
    have hnil : ∀ j, runBefore [] j = 0 := by
      intro j
      cases j <;> rfl
    rw [hnil]
    cases j with
    | zero => rw [seedRun_zero_right]
    | succ j => simp [seedRun, hx, hseed]

/-- Among the runs of one element the best is the best of the row. -/
theorem scanPositions_snd {x : α} {d : Nat} {row : List Nat}
    (hrow : ∀ k < row.length, row.getD k 0 =
      if ys[r.rightStart + (d + k)]? = some x then runBefore runs (r.rightStart + (d + k)) + 1
      else 0)
    (hbound : ∀ k < row.length, row.getD k 0 ≤ i + 1 ∧ row.getD k 0 ≤ d + k + 1)
    (hstop : r.rightStart + d + row.length ≤ r.rightStop) :
    (scanPositions r (r.leftStart + i) runs
      ((List.range' (r.rightStart + d) row.length).filter fun j => ys[j]? = some x) ends
      (r.place best)).2 = r.place (bestInRow i d row best) := by
  induction row generalizing d ends best with
  | nil => rfl
  | cons size row ih =>
      have hsize : size = if ys[r.rightStart + d]? = some x then
          runBefore runs (r.rightStart + d) + 1 else 0 := hrow 0 (Nat.zero_lt_succ _)
      obtain ⟨hi, hd⟩ := hbound 0 (Nat.zero_lt_succ _)
      rw [List.getD_cons_zero] at hi hd
      rw [List.length_cons] at hstop ⊢
      have hrest : ∀ ends best, (scanPositions r (r.leftStart + i) runs
          ((List.range' (r.rightStart + (d + 1)) row.length).filter fun j => ys[j]? = some x) ends
          (r.place best)).2 = r.place (bestInRow i (d + 1) row best) := by
        intro ends best
        refine ih (fun k hk => ?_) (fun k hk => ?_) (by omega)
        · have := hrow (k + 1) (Nat.succ_lt_succ hk)
          rwa [List.getD_cons_succ, ← Nat.add_assoc d, Nat.add_right_comm d] at this
        · have := hbound (k + 1) (Nat.succ_lt_succ hk)
          rw [List.getD_cons_succ] at this
          omega
      rw [List.range'_succ, bestInRow]
      by_cases hy : ys[r.rightStart + d]? = some x
      · rw [if_pos hy] at hsize
        rw [List.filter_cons_of_pos (by simp [hy]), scanPositions, if_neg (by omega),
          if_neg (by omega), ← hsize]
        have hbetter : (if (r.place best).size < size then
            ⟨r.leftStart + i + 1 - size, r.rightStart + d + 1 - size, size⟩ else r.place best) =
            r.place (if best.size < size then ⟨i + 1 - size, d + 1 - size, size⟩ else best) := by
          by_cases hlt : best.size < size
          · rw [if_pos hlt, if_pos (show (r.place best).size < size from hlt), Rectangle.place]
            simp only [Block.mk.injEq, and_true]
            omega
          · rw [if_neg hlt, if_neg (show ¬(r.place best).size < size from hlt)]
        simp only [hbetter]
        exact hrest _ _
      · rw [if_neg hy] at hsize
        rw [List.filter_cons_of_neg (by simp [hy]), hsize, if_neg (Nat.not_lt_zero _)]
        exact hrest ends best

theorem scanPositions_of_isRow (hr : r.Within xs ys) {x : α} {row : List Nat}
    (hx : (Rectangle.slice xs r.leftStart r.leftStop)[i]? = some x) (hseed : isSeed ys x = true)
    (hruns : RunsAre xs ys r i runs)
    (hrow : IsRow (isSeed ys) (Rectangle.slice xs r.leftStart r.leftStop)
      (Rectangle.slice ys r.rightStart r.rightStop) (i + 1) row)
    (hlength : row.length = r.rightStop - r.rightStart) :
    (scanPositions r (r.leftStart + i) runs (positionsOf ys x) ends (r.place best)).2 =
      r.place (bestInRow i 0 row best) := by
  have hi : i + 1 ≤ (Rectangle.slice xs r.leftStart r.leftStop).length :=
    (List.getElem?_eq_some_iff.1 hx).1
  have hle := hr.right_le
  rw [scanPositions_positionsOf hr hseed, positionsIn, ← hlength]
  refine scanPositions_snd (d := 0) (fun k hk => ?_) (fun k hk => ?_) (by omega)
  · have hentry := hrow (k + 1)
    rw [List.getD_cons_succ, seedRun, hx, ← hruns k, getElem?_slice (hlength ▸ hk)] at hentry
    simpa [hseed] using hentry
  · have hk' : k < (Rectangle.slice ys r.rightStart r.rightStop).length := by
      rw [length_slice hr.rightStop_le]
      exact hlength ▸ hk
    obtain ⟨-, hle, hle'⟩ := hrow.getD_eq hi hk'
    exact ⟨hle, by omega⟩

/-- Row by row the search by positions finds what the table of the slices gives. -/
theorem scanRows_eq (hr : r.Within xs ys) {row : List Nat} {rest : List α}
    (hrest : (Rectangle.slice xs r.leftStart r.leftStop).drop i = rest)
    (hrow : IsRow (isSeed ys) (Rectangle.slice xs r.leftStart r.leftStop)
      (Rectangle.slice ys r.rightStart r.rightStop) i row)
    (hruns : RunsAre xs ys r i runs) :
    scanRows xs ys r (List.range' (r.leftStart + i) rest.length) runs (r.place best) =
      r.place (bestSeed (isSeed ys) (Rectangle.slice ys r.rightStart r.rightStop) i row best
        rest) := by
  induction rest generalizing i row runs best with
  | nil => rfl
  | cons x rest ih =>
      obtain ⟨hlt, hx, hdrop⟩ := getElem?_of_drop_eq_cons hrest
      have hnext := hrow.next hx
      have hleft : xs[r.leftStart + i]? = some x := by
        rw [length_slice hr.leftStop_le] at hlt
        rw [← hx, getElem?_slice hlt]
      have hbest : (scanPositions r (r.leftStart + i) runs (positionsOf ys x) []
          (r.place best)).2 = r.place (bestInRow i 0 (if isSeed ys x then
            nextRow x (Rectangle.slice ys r.rightStart r.rightStop) 0 row else []) best) := by
        by_cases hseed : isSeed ys x = true
        · rw [if_pos hseed] at hnext ⊢
          refine scanPositions_of_isRow hr hx hseed hruns hnext ?_
          rw [length_nextRow, length_slice hr.rightStop_le]
        · rw [if_neg hseed, positionsOf, if_neg hseed]
          rfl
      rw [List.length_cons, List.range'_succ, scanRows, bestSeed, hleft, Option.elim_some]
      simp only [hbest]
      exact ih hdrop hnext (hruns.next hr hx _)

/-! ## Longer runs -/

variable {l k n : Nat}

theorem growFront_step (h : xs[r.leftStart + l]? = ys[r.rightStart + k]?) :
    growFront xs ys r (r.place ⟨l + 1, k + 1, n⟩) = growFront xs ys r (r.place ⟨l, k, n + 1⟩) := by
  rw [growFront, if_pos]
  · rfl
  · exact ⟨Nat.lt_add_of_pos_right l.succ_pos, Nat.lt_add_of_pos_right k.succ_pos, h⟩

theorem growFront_stop (h : xs[r.leftStart + l]? ≠ ys[r.rightStart + k]?) :
    growFront xs ys r (r.place ⟨l + 1, k + 1, n⟩) = r.place ⟨l + 1, k + 1, n⟩ := by
  rw [growFront, if_neg]
  exact fun hgrow => h hgrow.2.2

theorem growFront_edge (h : l = 0 ∨ k = 0) :
    growFront xs ys r (r.place ⟨l, k, n⟩) = r.place ⟨l, k, n⟩ := by
  rw [growFront, if_neg]
  simp only [Rectangle.place]
  omega

/-- In front a run grows by all that the slices have in common there. -/
theorem growFront_eq (hr : r.Within xs ys) (hl : l ≤ r.leftStop - r.leftStart)
    (hk : k ≤ r.rightStop - r.rightStart) :
    growFront xs ys r (r.place ⟨l, k, n⟩) =
      let more := commonPrefixLength
        ((Rectangle.slice xs r.leftStart r.leftStop).take l).reverse
        ((Rectangle.slice ys r.rightStart r.rightStop).take k).reverse
      r.place ⟨l - more, k - more, more + n⟩ := by
  induction l generalizing k n with
  | zero =>
      rw [growFront_edge (.inl rfl)]
      simp [commonPrefixLength]
  | succ l ih =>
      cases k with
      | zero =>
          rw [growFront_edge (.inr rfl)]
          simp [commonPrefixLength_nil_right]
      | succ k =>
          have hleft : (Rectangle.slice xs r.leftStart r.leftStop)[l]? = xs[r.leftStart + l]? :=
            getElem?_slice hl
          have hright : (Rectangle.slice ys r.rightStart r.rightStop)[k]? = ys[r.rightStart + k]? :=
            getElem?_slice hk
          have hstop := hr.leftStop_le
          have hstop' := hr.rightStop_le
          obtain ⟨x, hx⟩ : ∃ x, xs[r.leftStart + l]? = some x :=
            ⟨_, List.getElem?_eq_getElem (by omega)⟩
          obtain ⟨y, hy⟩ : ∃ y, ys[r.rightStart + k]? = some y :=
            ⟨_, List.getElem?_eq_getElem (by omega)⟩
          rw [reverse_take_succ (hleft.trans hx), reverse_take_succ (hright.trans hy),
            commonPrefixLength]
          by_cases heq : x = y
          · rw [growFront_step (by rw [hx, hy, heq]), ih (by omega) (by omega), if_pos heq]
            simp only [Nat.add_sub_add_right, Nat.add_right_comm _ 1, Nat.add_assoc]
          · rw [growFront_stop (by simp [hx, hy, heq]), if_neg heq]
            simp

theorem growBehind_step (hl : l + n < r.leftStop - r.leftStart)
    (hk : k + n < r.rightStop - r.rightStart)
    (h : xs[r.leftStart + (l + n)]? = ys[r.rightStart + (k + n)]?) :
    growBehind xs ys r (r.place ⟨l, k, n⟩) = growBehind xs ys r (r.place ⟨l, k, n + 1⟩) := by
  rw [growBehind, if_pos]
  · rfl
  · rw [← Nat.add_assoc, ← Nat.add_assoc] at h
    refine ⟨?_, ?_, h⟩
    · show r.leftStart + l + n < r.leftStop
      omega
    · show r.rightStart + k + n < r.rightStop
      omega

theorem growBehind_stop (h : xs[r.leftStart + (l + n)]? ≠ ys[r.rightStart + (k + n)]?) :
    growBehind xs ys r (r.place ⟨l, k, n⟩) = r.place ⟨l, k, n⟩ := by
  rw [← Nat.add_assoc, ← Nat.add_assoc] at h
  rw [growBehind, if_neg]
  exact fun hgrow => h hgrow.2.2

theorem growBehind_edge
    (h : r.leftStop - r.leftStart ≤ l + n ∨ r.rightStop - r.rightStart ≤ k + n) :
    growBehind xs ys r (r.place ⟨l, k, n⟩) = r.place ⟨l, k, n⟩ := by
  rw [growBehind, if_neg]
  simp only [Rectangle.place]
  omega

/-- Behind it a run grows by all that the slices have in common there. -/
theorem growBehind_eq (hr : r.Within xs ys) {rest : List α}
    (hrest : (Rectangle.slice xs r.leftStart r.leftStop).drop (l + n) = rest) :
    growBehind xs ys r (r.place ⟨l, k, n⟩) =
      r.place ⟨l, k, n + commonPrefixLength rest
        ((Rectangle.slice ys r.rightStart r.rightStop).drop (k + n))⟩ := by
  induction rest generalizing n with
  | nil =>
      rw [List.drop_eq_nil_iff, length_slice hr.leftStop_le] at hrest
      rw [growBehind_edge (.inl hrest)]
      rfl
  | cons x rest ih =>
      obtain ⟨hlt, hx, hdrop⟩ := getElem?_of_drop_eq_cons hrest
      rw [length_slice hr.leftStop_le] at hlt
      rw [getElem?_slice hlt] at hx
      cases hright : (Rectangle.slice ys r.rightStart r.rightStop).drop (k + n) with
      | nil =>
          rw [List.drop_eq_nil_iff, length_slice hr.rightStop_le] at hright
          rw [growBehind_edge (.inr hright)]
          rfl
      | cons y rest' =>
          obtain ⟨hlt', hy, hdrop'⟩ := getElem?_of_drop_eq_cons hright
          rw [length_slice hr.rightStop_le] at hlt'
          rw [getElem?_slice hlt'] at hy
          rw [commonPrefixLength]
          by_cases heq : x = y
          · have hgrown := ih (n := n + 1) hdrop
            rw [← Nat.add_assoc k, hdrop'] at hgrown
            rw [growBehind_step hlt hlt' (by rw [hx, hy, heq]), hgrown, if_pos heq,
              Nat.add_right_comm, Nat.add_assoc]
          · rw [growBehind_stop (by simp [hx, hy, heq]), if_neg heq]
            rfl

theorem scanRows_whole (hr : r.Within xs ys) :
    scanRows xs ys r (List.range' r.leftStart (r.leftStop - r.leftStart)) []
        ⟨r.leftStart, r.rightStart, 0⟩ =
      r.place (bestOfTable (isSeed ys) (Rectangle.slice xs r.leftStart r.leftStop)
        (Rectangle.slice ys r.rightStart r.rightStop)) := by
  have hlength : (Rectangle.slice xs r.leftStart r.leftStop).length = r.leftStop - r.leftStart :=
    length_slice hr.leftStop_le
  rw [← hlength, bestOfTable]
  exact @scanRows_eq _ _ xs ys r 0 [] ⟨0, 0, 0⟩ hr [] _ List.drop_zero (isRow_nil _ _ _)
    (runsAre_nil xs ys r)

/-- The search by positions finds the block of a rectangle. -/
theorem matchIn_eq_block (hr : r.Within xs ys) : matchIn xs ys r = r.block xs ys := by
  have hrun := isRun_bestSeed (isSeed ys) (Rectangle.slice xs r.leftStart r.leftStop)
    (Rectangle.slice ys r.rightStart r.rightStop)
  rw [matchIn, scanRows_whole hr, Rectangle.block, longestRun_eq, extend, bestOfTable]
  generalize bestSeed (isSeed ys) (Rectangle.slice ys r.rightStart r.rightStop) 0 [] ⟨0, 0, 0⟩
    (Rectangle.slice xs r.leftStart r.leftStop) = b at hrun ⊢
  obtain ⟨l, k, n⟩ := b
  have hl := hrun.left_le
  have hk := hrun.right_le
  obtain ⟨hmore, hmore', -⟩ := isRun_backwards (Nat.le_of_add_right_le hl)
    (Nat.le_of_add_right_le hk) rfl
  rw [length_slice hr.leftStop_le] at hl
  rw [length_slice hr.rightStop_le] at hk
  rw [growFront_eq hr (Nat.le_of_add_right_le hl) (Nat.le_of_add_right_le hk),
    growBehind_eq hr rfl]
  simp only [Rectangle.place, ← Nat.add_assoc, Nat.sub_add_cancel hmore, Nat.sub_add_cancel hmore']

/-- One round of the alignment, with the block found by positions. Its rectangles stay
within the sequences. -/
theorem blocksOf_cons {rest : List Rectangle} (h : ∀ s ∈ r :: rest, s.Within xs ys) :
    blocksOf xs ys (r :: rest) =
        (if (matchIn xs ys r).size = 0 then blocksOf xs ys rest
        else matchIn xs ys r ::
          blocksOf xs ys (r.behind (matchIn xs ys r) ++ r.before (matchIn xs ys r) ++ rest)) ∧
      ∀ s ∈ r.behind (matchIn xs ys r) ++ r.before (matchIn xs ys r) ++ rest, s.Within xs ys := by
  obtain ⟨hr, hrest⟩ := List.forall_mem_cons.1 h
  rw [matchIn_eq_block hr]
  constructor
  · rw [blocksOf]
    rfl
  · intro s hs
    have hb := hr.holds_block
    rcases List.mem_append.1 hs with hs | hs
    · rcases List.mem_append.1 hs with hs | hs
      · exact hb.within_behind hr hs
      · exact hb.within_before hs
    · exact hrest s hs

end EditMining.Alignment
