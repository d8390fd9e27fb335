import EditMining.Proofs.EditScript
import EditMining.Proofs.LongestRuns

/-!
# The alignment is a recursion by longest runs

What an alignment should be is said by a recursion over rectangles of positions
(`IsAlignment`). Where the two sides of a rectangle share an element, the longest
run that they have in common is a block, and the alignment goes on in what lies
before it on both sides and in what lies behind it. Of equally long runs the first
one is taken, first in the left sequence and then in the right one. No two runs
are both the first longest one, so there is at most one such list of blocks
(`IsAlignment.unique`).

The aligner computes that list as long as the right sequence is short enough
for all its elements to be seeds. Its block is the first longest run of a
rectangle, and where it finds no block the two sides share nothing. It leaves out
the rectangles that are empty on one side, and those have no blocks either.
-/

namespace EditMining.Alignment

variable {α : Type} {xs ys : List α} {r : Rectangle} {b : Block}

/-! ## The recursion -/

/-- What lies before a block on both sides. -/
def Rectangle.upTo (r : Rectangle) (b : Block) : Rectangle :=
  ⟨r.leftStart, b.left, r.rightStart, b.right⟩

/-- What lies behind a block on both sides. -/
def Rectangle.past (r : Rectangle) (b : Block) : Rectangle :=
  ⟨b.left + b.size, r.leftStop, b.right + b.size, r.rightStop⟩

/-- The two sides of a rectangle have no element in common. -/
def Rectangle.SharesNothing (xs ys : List α) (r : Rectangle) : Prop :=
  ∀ x ∈ slice xs r.leftStart r.leftStop, x ∉ slice ys r.rightStart r.rightStop

/-- A run inside a rectangle; no run there is longer, and none that is as long
starts earlier. -/
structure Rectangle.IsFirstLongest (xs ys : List α) (r : Rectangle) (b : Block) : Prop where
  holds : r.Holds xs ys b
  noWorse : ∀ c, r.Holds xs ys c → b.NoWorse c

/-- The blocks of a rectangle: none where its sides share nothing, and otherwise
its first longest run, behind the blocks before it and before those behind it. -/
inductive IsAlignment (xs ys : List α) : Rectangle → List Block → Prop where
  | nothing {r : Rectangle} : r.SharesNothing xs ys → IsAlignment xs ys r []
  | around {r : Rectangle} {b : Block} {bs cs : List Block} : b.size ≠ 0 →
      r.IsFirstLongest xs ys b → IsAlignment xs ys (r.upTo b) bs →
      IsAlignment xs ys (r.past b) cs → IsAlignment xs ys r (bs ++ b :: cs)

theorem mem_slice_of_getElem? {start stop i : Nat} {x : α} (hstart : start ≤ i) (hstop : i < stop)
    (h : xs[i]? = some x) : x ∈ Rectangle.slice xs start stop := by
  refine List.mem_of_getElem? (i := i - start) ?_
  rw [getElem?_slice (by omega), Nat.add_sub_of_le hstart, h]

theorem sharesNothing_of_le
    (h : r.leftStop ≤ r.leftStart ∨ r.rightStop ≤ r.rightStart) : r.SharesNothing xs ys := by
  intro x hx hy
  rcases h with h | h
  · rw [slice_of_le h] at hx
    exact List.not_mem_nil hx
  · rw [slice_of_le h] at hy
    exact List.not_mem_nil hy

theorem Rectangle.Holds.not_sharesNothing (hb : r.Holds xs ys b) (hsize : b.size ≠ 0) :
    ¬r.SharesNothing xs ys := by
  intro hshares
  obtain ⟨⟨hleft, -, heq⟩, hleft', hright', hstop, hstop'⟩ := hb
  obtain ⟨x, hx⟩ : ∃ x, xs[b.left]? = some x := ⟨_, List.getElem?_eq_getElem (by omega)⟩
  have hy : ys[b.right]? = some x := (heq 0 (by omega)).symm.trans hx
  exact hshares x (mem_slice_of_getElem? hleft' (by omega) hx)
    (mem_slice_of_getElem? hright' (by omega) hy)

theorem IsAlignment.unique {bs cs : List Block} (hbs : IsAlignment xs ys r bs)
    (hcs : IsAlignment xs ys r cs) : bs = cs := by
  induction hbs generalizing cs with
  | nothing hshares =>
      cases hcs with
      | nothing => rfl
      | around hsize hfirst _ _ => exact absurd hshares (hfirst.holds.not_sharesNothing hsize)
  | @around r b bs bs' hsize hfirst _ _ ih ih' =>
      cases hcs with
      | nothing hshares => exact absurd hshares (hfirst.holds.not_sharesNothing hsize)
      | @around _ c cs cs' _ hfirst' hbefore hbehind =>
          obtain rfl : b = c :=
            (hfirst.noWorse c hfirst'.holds).antisymm (hfirst'.noWorse b hfirst.holds)
          rw [ih hbefore, ih' hbehind]

/-! ## The block of a rectangle -/

theorem Rectangle.Holds.isRun_slice (hr : r.Within xs ys) (hb : r.Holds xs ys b) :
    IsRun (slice xs r.leftStart r.leftStop) (slice ys r.rightStart r.rightStop)
      (b.left - r.leftStart) (b.right - r.rightStart) b.size := by
  obtain ⟨-, -, hl, hl'⟩ := hr
  obtain ⟨⟨-, -, heq⟩, hleft, hright, hstop, hstop'⟩ := hb
  refine ⟨?_, ?_, fun d hd => ?_⟩
  · rw [length_slice hl]
    omega
  · rw [length_slice hl']
    omega
  · rw [getElem?_slice (by omega), getElem?_slice (by omega), ← Nat.add_assoc, ← Nat.add_assoc,
      Nat.add_sub_of_le hleft, Nat.add_sub_of_le hright]
    exact heq d hd

variable [DecidableEq α]

theorem isSeed_of_length_lt (h : ys.length < popularityLimit) (x : α) : isSeed ys x = true := by
  simp [isSeed, h]

theorem isFirstLongest_block (h : ys.length < popularityLimit) (hr : r.Within xs ys)
    (hsize : (r.block xs ys).size ≠ 0) : r.IsFirstLongest xs ys (r.block xs ys) := by
  refine ⟨hr.holds_block, fun c hc => ?_⟩
  by_cases hempty : c.size = 0
  · exact .inl (by omega)
  · have hseed : ∀ x ∈ Rectangle.slice xs r.leftStart r.leftStop, isSeed ys x = true :=
      fun x _ => isSeed_of_length_lt h x
    have hbest := noWorse_longestRun hseed (hc.isRun_slice hr) hempty
    have hleft := hc.leftStart_le
    have hright := hc.rightStart_le
    simp only [Block.NoWorse, Rectangle.block] at hbest ⊢
    omega

theorem sharesNothing_of_size_eq_zero (h : ys.length < popularityLimit)
    (hsize : (r.block xs ys).size = 0) : r.SharesNothing xs ys :=
  (size_longestRun_eq_zero_iff fun x _ => isSeed_of_length_lt h x).1 hsize

/-! ## The blocks of the aligner -/

/-- A rectangle that is left out, being empty on one side, has no blocks. -/
theorem isAlignment_ite {c : Prop} [Decidable c] {s : Rectangle}
    (hempty : ¬c → s.leftStop ≤ s.leftStart ∨ s.rightStop ≤ s.rightStart)
    (h : ∀ t ∈ (if c then [s] else []), IsAlignment xs ys t (alignedBlocks xs ys t)) :
    IsAlignment xs ys s ((if c then [s] else []).flatMap (alignedBlocks xs ys)) := by
  by_cases hc : c
  · rw [if_pos hc] at h ⊢
    rw [List.flatMap_singleton]
    exact h s List.mem_cons_self
  · rw [if_neg hc]
    exact .nothing (sharesNothing_of_le (hempty hc))

theorem isAlignment_alignedBlocks (h : ys.length < popularityLimit) (hr : r.Within xs ys) :
    IsAlignment xs ys r (alignedBlocks xs ys r) := by
  refine alignedBlocks_induction ?_ ?_ hr
  · intro r hr hsize
    rw [alignedBlocks_of_size_eq_zero hsize]
    exact .nothing (sharesNothing_of_size_eq_zero h hsize)
  · intro r hr hsize hbefore hbehind
    rw [alignedBlocks_of_size_ne_zero hsize]
    refine .around hsize (isFirstLongest_block h hr hsize) ?_ ?_
    · refine isAlignment_ite (s := r.upTo (r.block xs ys)) (fun hc => ?_) hbefore
      simp only [Rectangle.upTo]
      omega
    · refine isAlignment_ite (s := r.past (r.block xs ys)) (fun hc => ?_) hbehind
      simp only [Rectangle.past]
      omega

/-- With fewer than two hundred elements on the right, the edit script of two
sequences is that of the one alignment that the recursion by longest runs gives,
its touching blocks joined. -/
theorem opcodes_eq_scriptOf_isAlignment (xs ys : List α) (h : ys.length < 200) :
    ∃ bs, (∀ cs, IsAlignment xs ys (wholeRectangle xs ys) cs ↔ cs = bs) ∧
      opcodes xs ys = scriptOf xs.length ys.length (joinBlocks bs) := by
  have halignment := isAlignment_alignedBlocks h (within_wholeRectangle xs ys)
  refine ⟨_, fun cs => ⟨fun hcs => hcs.unique halignment, fun hcs => hcs ▸ halignment⟩, ?_⟩
  rw [opcodes, matchingBlocks_eq]

/-- The run is there twice on the right, and the first one is the block. -/
theorem opcodes_eq_scriptOf_isAlignment_of_repeated :
    let before := ["a", "b"]
    let behind := ["a", "b", "x", "a", "b"]
    behind.length < 200 ∧
      IsAlignment before behind (wholeRectangle before behind) [⟨0, 0, 2⟩] ∧
      opcodes before behind = [⟨.equal, 0, 2, 0, 2⟩, ⟨.insert, 2, 2, 2, 5⟩] := by
  intro before behind
  have hlt : behind.length < 200 := by decide
  obtain ⟨bs, hbs, hopcodes⟩ := opcodes_eq_scriptOf_isAlignment before behind hlt
  have hrun : IsRun before behind 0 0 2 := ⟨by decide, by decide, by decide⟩
  have hfirst : (wholeRectangle before behind).IsFirstLongest before behind ⟨0, 0, 2⟩ := by
    refine ⟨⟨hrun, by decide, by decide, by decide, by decide⟩, fun c hc => ?_⟩
    have hstop : c.left + c.size ≤ 2 := hc.le_leftStop
    simp only [Block.NoWorse]
    omega
  have halignment : IsAlignment before behind (wholeRectangle before behind) [⟨0, 0, 2⟩] :=
    .around (by decide) hfirst (.nothing (sharesNothing_of_le (by decide)))
      (.nothing (sharesNothing_of_le (by decide)))
  refine ⟨hlt, halignment, ?_⟩
  rw [hopcodes, ← (hbs _).1 halignment]
  rfl

end EditMining.Alignment
