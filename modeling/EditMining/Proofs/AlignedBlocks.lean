import EditMining.Proofs.CommonRuns

/-!
# The blocks of an alignment lie one behind the other

The aligner takes its rectangles off a stack, so it finds the blocks in no
order that means anything: they are sorted afterwards. The alignment itself is
a recursion (`alignedBlocks`): the blocks before the block of a rectangle, that
block, and the blocks behind it. The stack only reorders the same blocks
(`blocksOf_perm`).

In the order of the recursion the blocks make a `Path`. Each starts on both
sides at or behind the end of the one before it, and each is a run of equal
elements. That a block stays inside its rectangle is all this needs: the
rectangle before it ends where it starts, and the one behind it starts where
it ends. A path is in order, so sorting finds the same list again, and joining
blocks that touch gives a path once more.
-/

namespace EditMining.Alignment

variable {α : Type} {xs ys : List α}

/-! ## Runs inside a rectangle -/

structure Rectangle.Within (xs ys : List α) (r : Rectangle) : Prop where
  left_le : r.leftStart ≤ r.leftStop
  right_le : r.rightStart ≤ r.rightStop
  leftStop_le : r.leftStop ≤ xs.length
  rightStop_le : r.rightStop ≤ ys.length

theorem within_wholeRectangle (xs ys : List α) : (wholeRectangle xs ys).Within xs ys :=
  ⟨Nat.zero_le _, Nat.zero_le _, Nat.le_refl _, Nat.le_refl _⟩

theorem length_slice {start stop : Nat} (h : stop ≤ xs.length) :
    (Rectangle.slice xs start stop).length = stop - start := by
  rw [Rectangle.slice, List.length_take, List.length_drop]
  omega

theorem getElem?_slice {start stop d : Nat} (h : d < stop - start) :
    (Rectangle.slice xs start stop)[d]? = xs[start + d]? := by
  rw [Rectangle.slice, List.getElem?_take_of_lt h, List.getElem?_drop]

theorem slice_of_le {start stop : Nat} (h : stop ≤ start) : Rectangle.slice xs start stop = [] := by
  rw [Rectangle.slice, Nat.sub_eq_zero_of_le h, List.take_zero]

theorem slice_self (xs : List α) (i : Nat) : Rectangle.slice xs i i = [] :=
  slice_of_le (Nat.le_refl i)

theorem slice_append_drop (xs : List α) {i j : Nat} (h : i ≤ j) :
    Rectangle.slice xs i j ++ xs.drop j = xs.drop i := by
  have hsum : i + (j - i) = j := Nat.add_sub_of_le h
  rw [Rectangle.slice, ← hsum, Nat.add_sub_cancel_left, ← List.drop_drop, List.take_append_drop]

/-- A block is a run, and it lies inside a rectangle. -/
structure Rectangle.Holds (xs ys : List α) (r : Rectangle) (b : Block) : Prop where
  isRun : IsRun xs ys b.left b.right b.size
  leftStart_le : r.leftStart ≤ b.left
  rightStart_le : r.rightStart ≤ b.right
  le_leftStop : b.left + b.size ≤ r.leftStop
  le_rightStop : b.right + b.size ≤ r.rightStop

theorem Rectangle.Within.holds_of_slice {r : Rectangle} (hr : r.Within xs ys) {i j n : Nat}
    (h : IsRun (slice xs r.leftStart r.leftStop) (slice ys r.rightStart r.rightStop) i j n) :
    r.Holds xs ys ⟨r.leftStart + i, r.rightStart + j, n⟩ := by
  obtain ⟨hl, hr, hl', hr'⟩ := hr
  obtain ⟨hleft, hright, hd⟩ := h
  rw [length_slice hl'] at hleft
  rw [length_slice hr'] at hright
  have hleft' : r.leftStart + i + n ≤ r.leftStop := by omega
  have hright' : r.rightStart + j + n ≤ r.rightStop := by omega
  refine ⟨⟨Nat.le_trans hleft' hl', Nat.le_trans hright' hr', fun d hlt => ?_⟩,
    Nat.le_add_right _ _, Nat.le_add_right _ _, hleft', hright'⟩
  have hn : d < n := hlt
  have heq := hd d hn
  rwa [getElem?_slice (by omega), getElem?_slice (by omega), ← Nat.add_assoc,
    ← Nat.add_assoc] at heq

variable {r s : Rectangle} {b : Block}

theorem Rectangle.mem_before :
    s ∈ r.before b ↔ (r.leftStart < b.left ∧ r.rightStart < b.right) ∧
      s = ⟨r.leftStart, b.left, r.rightStart, b.right⟩ := by
  rw [before, List.mem_ite_nil_right, List.mem_singleton]

theorem Rectangle.mem_behind :
    s ∈ r.behind b ↔ (b.left + b.size < r.leftStop ∧ b.right + b.size < r.rightStop) ∧
      s = ⟨b.left + b.size, r.leftStop, b.right + b.size, r.rightStop⟩ := by
  rw [behind, List.mem_ite_nil_right, List.mem_singleton]

theorem Rectangle.Holds.within_before (hb : r.Holds xs ys b) (hs : s ∈ r.before b) :
    s.Within xs ys := by
  obtain ⟨-, rfl⟩ := mem_before.1 hs
  exact ⟨hb.leftStart_le, hb.rightStart_le, Nat.le_of_add_right_le hb.isRun.left_le,
    Nat.le_of_add_right_le hb.isRun.right_le⟩

theorem Rectangle.Holds.within_behind (hr : r.Within xs ys) (hb : r.Holds xs ys b)
    (hs : s ∈ r.behind b) : s.Within xs ys := by
  obtain ⟨-, rfl⟩ := mem_behind.1 hs
  exact ⟨hb.le_leftStop, hb.le_rightStop, hr.leftStop_le, hr.rightStop_le⟩

/-! ## The alignment as a recursion -/

variable [DecidableEq α]

theorem Rectangle.Within.holds_block (hr : r.Within xs ys) : r.Holds xs ys (r.block xs ys) :=
  hr.holds_of_slice (isRun_longestRun _ _ _)

theorem weight_lt_of_mem_before (hsize : (r.block xs ys).size ≠ 0)
    (hs : s ∈ r.before (r.block xs ys)) : s.weight < r.weight := by
  obtain ⟨hstart, hstop⟩ := block_left_le xs ys r
  obtain ⟨⟨hleft, -⟩, rfl⟩ := Rectangle.mem_before.1 hs
  simp only [Rectangle.weight]
  omega

theorem weight_lt_of_mem_behind (hsize : (r.block xs ys).size ≠ 0)
    (hs : s ∈ r.behind (r.block xs ys)) : s.weight < r.weight := by
  obtain ⟨hstart, hstop⟩ := block_left_le xs ys r
  obtain ⟨⟨hleft, -⟩, rfl⟩ := Rectangle.mem_behind.1 hs
  simp only [Rectangle.weight]
  omega

/-- The blocks of a rectangle from left to right. -/
def alignedBlocks (xs ys : List α) (r : Rectangle) : List Block :=
  if _h : (r.block xs ys).size = 0 then []
  else
    (r.before (r.block xs ys)).attach.flatMap (fun s => alignedBlocks xs ys s.1)
      ++ r.block xs ys
        :: (r.behind (r.block xs ys)).attach.flatMap fun s => alignedBlocks xs ys s.1
termination_by r.weight
decreasing_by
  · exact weight_lt_of_mem_before _h s.2
  · exact weight_lt_of_mem_behind _h s.2

theorem alignedBlocks_of_size_eq_zero (h : (r.block xs ys).size = 0) :
    alignedBlocks xs ys r = [] := by
  rw [alignedBlocks, dif_pos h]

theorem alignedBlocks_of_size_ne_zero (h : (r.block xs ys).size ≠ 0) :
    alignedBlocks xs ys r =
      (r.before (r.block xs ys)).flatMap (alignedBlocks xs ys)
        ++ r.block xs ys :: (r.behind (r.block xs ys)).flatMap (alignedBlocks xs ys) := by
  rw [alignedBlocks, dif_neg h, List.flatMap_subtype fun _ _ => rfl,
    List.flatMap_subtype fun _ _ => rfl, List.unattach_attach, List.unattach_attach]

/-- What holds of a rectangle without a block, and of one with a block as soon as
it holds of what lies before and behind it, holds of every rectangle. -/
@[elab_as_elim]
theorem alignedBlocks_induction {motive : Rectangle → Prop}
    (nothing : ∀ r : Rectangle, r.Within xs ys → (r.block xs ys).size = 0 → motive r)
    (around : ∀ r : Rectangle, r.Within xs ys → (r.block xs ys).size ≠ 0 →
      (∀ s ∈ r.before (r.block xs ys), motive s) →
      (∀ s ∈ r.behind (r.block xs ys), motive s) → motive r)
    (hr : r.Within xs ys) : motive r := by
  induction hweight : r.weight using Nat.strongRecOn generalizing r with
  | ind w ih =>
      subst hweight
      by_cases hsize : (r.block xs ys).size = 0
      · exact nothing r hr hsize
      · have hb := hr.holds_block
        refine around r hr hsize (fun s hs => ?_) fun s hs => ?_
        · exact ih _ (weight_lt_of_mem_before hsize hs) (hb.within_before hs) rfl
        · exact ih _ (weight_lt_of_mem_behind hsize hs) (hb.within_behind hr hs) rfl

/-- The stack finds the blocks of its rectangles, in another order. -/
theorem blocksOf_perm (xs ys : List α) (stack : List Rectangle) :
    (blocksOf xs ys stack).Perm (stack.flatMap (alignedBlocks xs ys)) := by
  fun_induction blocksOf xs ys stack with
  | case1 => exact .nil
  | case2 r rest h ih => rwa [List.flatMap_cons, alignedBlocks_of_size_eq_zero h]
  | case3 r rest h ih =>
      rw [List.flatMap_cons, alignedBlocks_of_size_ne_zero h]
      simp only [List.append_assoc, List.cons_append, List.flatMap_append] at ih ⊢
      refine .trans (.cons _ (ih.trans ?_)) List.perm_middle.symm
      exact List.perm_append_comm_assoc _ _ _

/-! ## Paths of blocks -/

/-- From two positions to two others, with blocks on the way: each starts at or
behind where the one before it ends, on both sides. -/
inductive Path (xs ys : List α) : Nat → Nat → List Block → Nat → Nat → Prop where
  | nil {i j k l : Nat} : i ≤ k → j ≤ l → Path xs ys i j [] k l
  | cons {i j k l : Nat} {b : Block} {bs : List Block} : i ≤ b.left → j ≤ b.right → b.size ≠ 0 →
      IsRun xs ys b.left b.right b.size →
      Path xs ys (b.left + b.size) (b.right + b.size) bs k l → Path xs ys i j (b :: bs) k l

namespace Path

variable {i j k l m n : Nat} {bs cs : List Block}

omit [DecidableEq α]

theorem of_le (hi : m ≤ i) (hj : n ≤ j) (h : Path xs ys i j bs k l) : Path xs ys m n bs k l := by
  cases h with
  | nil hk hl => exact .nil (Nat.le_trans hi hk) (Nat.le_trans hj hl)
  | cons hleft hright hsize hrun hrest =>
      exact .cons (Nat.le_trans hi hleft) (Nat.le_trans hj hright) hsize hrun hrest

theorem append (h : Path xs ys i j bs k l) (h' : Path xs ys k l cs m n) :
    Path xs ys i j (bs ++ cs) m n := by
  induction h with
  | nil hk hl => exact h'.of_le hk hl
  | cons hleft hright hsize hrun _ ih => exact .cons hleft hright hsize hrun (ih h')

theorem left_le_of_mem (h : Path xs ys i j bs k l) (hb : b ∈ bs) : i ≤ b.left := by
  induction h with
  | nil => exact absurd hb List.not_mem_nil
  | cons hleft _ _ _ _ ih =>
      rcases List.mem_cons.1 hb with rfl | hb
      · exact hleft
      · exact Nat.le_trans hleft (Nat.le_of_add_right_le (ih hb))

theorem pairwise_le (h : Path xs ys i j bs k l) : bs.Pairwise fun b c => Block.le b c = true := by
  induction h with
  | nil => exact .nil
  | @cons i j k l b bs _ _ hsize _ hrest ih =>
      refine .cons (fun c hc => ?_) ih
      have hlt : b.left < c.left := by
        have hle := hrest.left_le_of_mem hc
        omega
      simp [Block.le, hlt]

theorem addBlock (h : Path xs ys i j (b :: bs) k l) : Path xs ys i j (addBlock b bs) k l := by
  cases h with
  | cons hleft hright hsize hrun hrest =>
      cases hrest with
      | nil hk hl => exact .cons hleft hright hsize hrun (.nil hk hl)
      | @cons _ _ _ _ c rest hleft' hright' hsize' hrun' hrest' =>
          rw [Alignment.addBlock]
          split
          · next htouch =>
              rw [← htouch.1, ← htouch.2] at hrun' hrest'
              have hsum : b.size + c.size ≠ 0 := by omega
              refine .cons hleft hright hsum (hrun.append hrun') ?_
              rwa [Nat.add_assoc, Nat.add_assoc] at hrest'
          · exact .cons hleft hright hsize hrun (.cons hleft' hright' hsize' hrun' hrest')

theorem joinBlocks (h : Path xs ys i j bs k l) : Path xs ys i j (joinBlocks bs) k l := by
  induction h with
  | nil hk hl => exact .nil hk hl
  | cons hleft hright hsize hrun _ ih => exact (Path.cons hleft hright hsize hrun ih).addBlock

end Path

/-- A rectangle that has nothing on one side is passed without a block. -/
theorem path_ite {c : Prop} [Decidable c] (hleft : s.leftStart ≤ s.leftStop)
    (hright : s.rightStart ≤ s.rightStop)
    (h : c → Path xs ys s.leftStart s.rightStart (alignedBlocks xs ys s) s.leftStop s.rightStop) :
    Path xs ys s.leftStart s.rightStart
      ((if c then [s] else []).flatMap (alignedBlocks xs ys)) s.leftStop s.rightStop := by
  split
  · next hc =>
      rw [List.flatMap_singleton]
      exact h hc
  · exact .nil hleft hright

theorem path_before (hb : r.Holds xs ys b)
    (h : ∀ s ∈ r.before b,
      Path xs ys s.leftStart s.rightStart (alignedBlocks xs ys s) s.leftStop s.rightStop) :
    Path xs ys r.leftStart r.rightStart ((r.before b).flatMap (alignedBlocks xs ys))
      b.left b.right :=
  path_ite (s := ⟨r.leftStart, b.left, r.rightStart, b.right⟩) hb.leftStart_le hb.rightStart_le
    fun hc => h _ (Rectangle.mem_before.2 ⟨hc, rfl⟩)

theorem path_behind (hb : r.Holds xs ys b)
    (h : ∀ s ∈ r.behind b,
      Path xs ys s.leftStart s.rightStart (alignedBlocks xs ys s) s.leftStop s.rightStop) :
    Path xs ys (b.left + b.size) (b.right + b.size)
      ((r.behind b).flatMap (alignedBlocks xs ys)) r.leftStop r.rightStop :=
  path_ite (s := ⟨b.left + b.size, r.leftStop, b.right + b.size, r.rightStop⟩) hb.le_leftStop
    hb.le_rightStop fun hc => h _ (Rectangle.mem_behind.2 ⟨hc, rfl⟩)

/-- The blocks of a rectangle lead from its one corner to the other. -/
theorem path_alignedBlocks (hr : r.Within xs ys) :
    Path xs ys r.leftStart r.rightStart (alignedBlocks xs ys r) r.leftStop r.rightStop := by
  refine alignedBlocks_induction ?_ ?_ hr
  · intro r hr hsize
    rw [alignedBlocks_of_size_eq_zero hsize]
    exact .nil hr.left_le hr.right_le
  · intro r hr hsize hbefore hbehind
    have hb := hr.holds_block
    rw [alignedBlocks_of_size_ne_zero hsize]
    exact (path_before hb hbefore).append
      (.cons (Nat.le_refl _) (Nat.le_refl _) hsize hb.isRun (path_behind hb hbehind))

/-! ## Sorting the blocks -/

theorem Block.le_trans (a b c : Block) (hab : Block.le a b = true) (hbc : Block.le b c = true) :
    Block.le a c = true := by
  simp only [Block.le, Bool.or_eq_true, Bool.and_eq_true, decide_eq_true_eq, beq_iff_eq] at *
  omega

theorem Block.le_total (a b : Block) : (Block.le a b || Block.le b a) = true := by
  simp only [Block.le, Bool.or_eq_true, Bool.and_eq_true, decide_eq_true_eq, beq_iff_eq]
  omega

theorem Block.le_antisymm {a b : Block} (hab : Block.le a b = true) (hba : Block.le b a = true) :
    a = b := by
  simp only [Block.le, Bool.or_eq_true, Bool.and_eq_true, decide_eq_true_eq, beq_iff_eq] at *
  cases a
  cases b
  simp only [Block.mk.injEq] at *
  omega

/-- The blocks of the stack, sorted and joined, are the blocks of the recursion,
joined. -/
theorem matchingBlocks_eq (xs ys : List α) :
    matchingBlocks xs ys = joinBlocks (alignedBlocks xs ys (wholeRectangle xs ys)) := by
  have hpath := path_alignedBlocks (within_wholeRectangle xs ys)
  have hperm := blocksOf_perm xs ys [wholeRectangle xs ys]
  rw [List.flatMap_singleton] at hperm
  rw [matchingBlocks]
  congr 1
  refine List.Perm.eq_of_pairwise (fun _ _ _ _ => Block.le_antisymm)
    (List.pairwise_mergeSort Block.le_trans Block.le_total _) hpath.pairwise_le ?_
  exact (List.mergeSort_perm _ _).trans hperm

theorem path_matchingBlocks (xs ys : List α) :
    Path xs ys 0 0 (matchingBlocks xs ys) xs.length ys.length := by
  rw [matchingBlocks_eq]
  exact (path_alignedBlocks (within_wholeRectangle xs ys)).joinBlocks

end EditMining.Alignment
