import EditMining.Arithmetic

/-!
# Aligning two sequences

Two sequences are aligned by the longest run they have in common: the run
becomes a *block*, and what lies before it on both sides, and behind it on both
sides, is aligned in the same way. Of equally long runs the one that starts
first in the left sequence is taken, and of those the one that starts first in
the right one.

In a right sequence of two hundred elements or more, an element that makes up
more than about one part in a hundred is *popular*. A run is only looked for
among elements that are not popular; what is found is then extended by equal
neighbours, popular or not, as far as they go.

The rectangles of positions that still have to be aligned wait on a stack. Each
round takes one of them, and pushes at most two smaller ones.
-/

namespace EditMining.Alignment

variable {α : Type} [DecidableEq α]

/-- A run of `size` equal elements, from `left` on in the left sequence and from
`right` on in the right one. -/
structure Block where
  left : Nat
  right : Nat
  size : Nat
  deriving DecidableEq, Inhabited, Repr

/-- How long two sequences are the same from the start. -/
def commonPrefixLength : List α → List α → Nat
  | x :: xs, y :: ys => if x = y then commonPrefixLength xs ys + 1 else 0
  | _, _ => 0

/-- The length of a right sequence from which on elements can be popular. -/
def popularityLimit : Nat := 200

/-- Whether a run may be looked for at an element: it is not popular in the
right sequence. -/
def isSeed (right : List α) (x : α) : Bool :=
  right.length < popularityLimit || right.count x ≤ right.length / 100 + 1

/-- The lengths of the common runs that end in one element of the left sequence
and in each of the right one, given those for the element before it;
`diagonal` is the one that precedes them. -/
def nextRow (x : α) : (ys : List α) → (diagonal : Nat) → (row : List Nat) → List Nat
  | [], _, _ => []
  | y :: ys, diagonal, row =>
      (if y = x then diagonal + 1 else 0) :: nextRow x ys (row.headD 0) row.tail

/-- The better of a block and the longest run in a row; `i` and `j` are the
positions where the runs of the row end. -/
def bestInRow (i : Nat) : (j : Nat) → (row : List Nat) → Block → Block
  | _, [], best => best
  | j, size :: row, best =>
      bestInRow i (j + 1) row
        (if best.size < size then ⟨i + 1 - size, j + 1 - size, size⟩ else best)

/-- The better of a block and the longest run that ends at or behind position
`i` of the left sequence, given the row before it. -/
def bestSeed (seed : α → Bool) (ys : List α) : (i : Nat) → (row : List Nat) → Block →
    List α → Block
  | _, _, best, [] => best
  | i, row, best, x :: xs =>
      let row := if seed x then nextRow x ys 0 row else []
      bestSeed seed ys (i + 1) row (bestInRow i 0 row best) xs

/-- A block made longer by equal neighbours at both ends. -/
def extend (xs ys : List α) (b : Block) : Block :=
  let back := commonPrefixLength (xs.take b.left).reverse (ys.take b.right).reverse
  let on := commonPrefixLength (xs.drop (b.left + b.size)) (ys.drop (b.right + b.size))
  ⟨b.left - back, b.right - back, back + b.size + on⟩

/-- The longest common run of two sequences, extended by equal neighbours. -/
def longestRun (seed : α → Bool) (xs ys : List α) : Block :=
  extend xs ys (bestSeed seed ys 0 [] ⟨0, 0, 0⟩ xs)

theorem commonPrefixLength_le_left (xs ys : List α) : commonPrefixLength xs ys ≤ xs.length := by
  fun_induction commonPrefixLength xs ys <;> simp_all

theorem commonPrefixLength_le_right (xs ys : List α) : commonPrefixLength xs ys ≤ ys.length := by
  fun_induction commonPrefixLength xs ys <;> simp_all

theorem nextRow_le {x : α} {ys : List α} {diagonal n : Nat} {row : List Nat}
    (hd : diagonal ≤ n) (hr : ∀ k ∈ row, k ≤ n) : ∀ k ∈ nextRow x ys diagonal row, k ≤ n + 1 := by
  induction ys generalizing diagonal row with
  | nil => simp [nextRow]
  | cons y ys ih =>
      intro k hk
      rw [nextRow, List.mem_cons] at hk
      rcases hk with rfl | hk
      · split <;> omega
      · refine ih ?_ ?_ k hk
        · cases row with
          | nil => simp
          | cons a row => exact hr a (by simp)
        · intro j hj
          exact hr j (List.mem_of_mem_tail hj)

theorem bestInRow_le {i j : Nat} {row : List Nat} {best : Block}
    (hr : ∀ k ∈ row, k ≤ i + 1) (hb : best.left + best.size ≤ i + 1) :
    (bestInRow i j row best).left + (bestInRow i j row best).size ≤ i + 1 := by
  induction row generalizing j best with
  | nil => exact hb
  | cons size row ih =>
      rw [bestInRow]
      refine ih (fun k hk => hr k (List.mem_cons_of_mem _ hk)) ?_
      have := hr size (by simp)
      split
      · show i + 1 - size + size ≤ i + 1
        omega
      · exact hb

theorem bestSeed_le {seed : α → Bool} {ys : List α} {i : Nat} {row : List Nat} {best : Block}
    {xs : List α} (hr : ∀ k ∈ row, k ≤ i) (hb : best.left + best.size ≤ i) :
    (bestSeed seed ys i row best xs).left + (bestSeed seed ys i row best xs).size
      ≤ i + xs.length := by
  induction xs generalizing i row best with
  | nil => simpa [bestSeed] using hb
  | cons x xs ih =>
      rw [bestSeed, List.length_cons]
      have hrow : ∀ k ∈ (if seed x = true then nextRow x ys 0 row else []), k ≤ i + 1 := by
        split
        · exact nextRow_le (Nat.zero_le _) hr
        · simp
      have := ih hrow (bestInRow_le (j := 0) hrow (Nat.le_succ_of_le hb))
      omega

/-- The longest run lies inside the left sequence. -/
theorem longestRun_left_le (seed : α → Bool) (xs ys : List α) :
    (longestRun seed xs ys).left + (longestRun seed xs ys).size ≤ xs.length := by
  have h : (bestSeed seed ys 0 [] ⟨0, 0, 0⟩ xs).left + (bestSeed seed ys 0 [] ⟨0, 0, 0⟩ xs).size
      ≤ 0 + xs.length := bestSeed_le (by simp) (by simp)
  simp only [longestRun, extend]
  have hback := commonPrefixLength_le_left
    (xs.take (bestSeed seed ys 0 [] ⟨0, 0, 0⟩ xs).left).reverse
    (ys.take (bestSeed seed ys 0 [] ⟨0, 0, 0⟩ xs).right).reverse
  have hon := commonPrefixLength_le_left
    (xs.drop ((bestSeed seed ys 0 [] ⟨0, 0, 0⟩ xs).left + (bestSeed seed ys 0 [] ⟨0, 0, 0⟩ xs).size))
    (ys.drop ((bestSeed seed ys 0 [] ⟨0, 0, 0⟩ xs).right + (bestSeed seed ys 0 [] ⟨0, 0, 0⟩ xs).size))
  simp only [List.length_reverse, List.length_take, List.length_drop] at hback hon
  omega

/-- Positions from `leftStart` up to `leftStop` and from `rightStart` up to
`rightStop` that are still to be aligned. -/
structure Rectangle where
  leftStart : Nat
  leftStop : Nat
  rightStart : Nat
  rightStop : Nat
  deriving DecidableEq, Inhabited, Repr

namespace Rectangle

/-- The part of a sequence between two positions. -/
def slice (xs : List α) (start stop : Nat) : List α :=
  (xs.drop start).take (stop - start)

/-- The longest common run inside a rectangle. -/
def block (xs ys : List α) (r : Rectangle) : Block :=
  let b := longestRun (isSeed ys) (slice xs r.leftStart r.leftStop)
    (slice ys r.rightStart r.rightStop)
  ⟨r.leftStart + b.left, r.rightStart + b.right, b.size⟩

/-- What lies before a block on both sides, if there is something on both. -/
def before (r : Rectangle) (b : Block) : List Rectangle :=
  if r.leftStart < b.left ∧ r.rightStart < b.right then
    [⟨r.leftStart, b.left, r.rightStart, b.right⟩]
  else []

/-- What lies behind a block on both sides, if there is something on both. -/
def behind (r : Rectangle) (b : Block) : List Rectangle :=
  if b.left + b.size < r.leftStop ∧ b.right + b.size < r.rightStop then
    [⟨b.left + b.size, r.leftStop, b.right + b.size, r.rightStop⟩]
  else []

/-- How much work a rectangle may still cause. -/
def weight (r : Rectangle) : Nat :=
  2 * (r.leftStop - r.leftStart) + 1

end Rectangle

/-- How much work the rectangles on a stack may still cause. -/
def stackWeight (stack : List Rectangle) : Nat :=
  (stack.map Rectangle.weight).sum

theorem stackWeight_append (s t : List Rectangle) :
    stackWeight (s ++ t) = stackWeight s + stackWeight t := by
  simp [stackWeight]

theorem block_left_le (xs ys : List α) (r : Rectangle) :
    r.leftStart ≤ (r.block xs ys).left ∧
      (r.block xs ys).left + (r.block xs ys).size ≤ max r.leftStart r.leftStop := by
  have h := longestRun_left_le (isSeed ys) (Rectangle.slice xs r.leftStart r.leftStop)
    (Rectangle.slice ys r.rightStart r.rightStop)
  have hl : (Rectangle.slice xs r.leftStart r.leftStop).length ≤ r.leftStop - r.leftStart := by
    simp only [Rectangle.slice, List.length_take]
    omega
  simp only [Rectangle.block]
  omega

/-- The stack behind one round: a rectangle gives way to what its block leaves
before and behind it. -/
theorem stackWeight_round_lt (xs ys : List α) (r : Rectangle) (rest : List Rectangle)
    (hsize : (r.block xs ys).size ≠ 0) :
    stackWeight (r.behind (r.block xs ys) ++ r.before (r.block xs ys) ++ rest)
      < stackWeight (r :: rest) := by
  obtain ⟨hstart, hstop⟩ := block_left_le xs ys r
  rw [stackWeight_append, stackWeight_append]
  have hcons : stackWeight (r :: rest) = r.weight + stackWeight rest := by simp [stackWeight]
  rw [hcons]
  simp only [Rectangle.behind, Rectangle.before, Rectangle.weight]
  split <;> split <;> simp only [stackWeight, Rectangle.weight, List.map_cons, List.map_nil,
    List.sum_cons, List.sum_nil] <;> omega

/-- The blocks of the rectangles on a stack, in the order in which they are
found. -/
def blocksOf (xs ys : List α) (stack : List Rectangle) : List Block :=
  match stack with
  | [] => []
  | r :: rest =>
      if _h : (r.block xs ys).size = 0 then blocksOf xs ys rest
      else
        r.block xs ys
          :: blocksOf xs ys (r.behind (r.block xs ys) ++ r.before (r.block xs ys) ++ rest)
termination_by stackWeight stack
decreasing_by
  · simp only [stackWeight, List.map_cons, List.sum_cons, Rectangle.weight]
    omega
  · exact stackWeight_round_lt xs ys r rest _h

/-- The rectangle of all positions. -/
def wholeRectangle (xs ys : List α) : Rectangle :=
  ⟨0, xs.length, 0, ys.length⟩

/-- Whether a block comes no later than another. -/
def Block.le (b c : Block) : Bool :=
  b.left < c.left || (b.left == c.left &&
    (b.right < c.right || (b.right == c.right && b.size ≤ c.size)))

/-- Put a block before others; one that goes on where it ends is joined to
it. -/
def addBlock (b : Block) : List Block → List Block
  | [] => [b]
  | c :: rest =>
      if b.left + b.size = c.left ∧ b.right + b.size = c.right then
        ⟨b.left, b.right, b.size + c.size⟩ :: rest
      else b :: c :: rest

/-- Blocks in order, with those that touch joined. -/
def joinBlocks (bs : List Block) : List Block :=
  bs.foldr addBlock []

/-- The blocks of the alignment, from left to right. -/
def matchingBlocks (xs ys : List α) : List Block :=
  joinBlocks ((blocksOf xs ys [wholeRectangle xs ys]).mergeSort Block.le)

end EditMining.Alignment
