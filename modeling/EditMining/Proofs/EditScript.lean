import EditMining.Alignment.EditScript
import EditMining.Proofs.AlignedBlocks

/-!
# An edit script tiles both sequences

Every operation of an edit script starts where the one before it ended, on
both sides, and the last one ends where the sequences end. What an operation
covers suits its kind (`Opcode.Fits`): equal slices, something on both sides,
something on the left only or on the right only.

The script walks along the blocks of the alignment, so this is read off the
path that these make (`path_matchingBlocks`). A gap between two blocks is as
wide as it has to be on each side and a block is a run, and one step of the
walk tiles the gap and then the block.
-/

namespace EditMining.Alignment

variable {α : Type} {xs ys : List α}

/-- What an operation covers on both sides suits its kind. -/
def Opcode.Fits (xs ys : List α) (op : Opcode) : Prop :=
  match op.operation with
  | .equal =>
      op.leftStart < op.leftStop ∧ op.rightStart < op.rightStop ∧
        Rectangle.slice xs op.leftStart op.leftStop =
          Rectangle.slice ys op.rightStart op.rightStop
  | .replace => op.leftStart < op.leftStop ∧ op.rightStart < op.rightStop
  | .delete => op.leftStart < op.leftStop ∧ op.rightStart = op.rightStop
  | .insert => op.leftStart = op.leftStop ∧ op.rightStart < op.rightStop

theorem Opcode.Fits.le {op : Opcode} (h : op.Fits xs ys) :
    op.leftStart ≤ op.leftStop ∧ op.rightStart ≤ op.rightStop := by
  unfold Fits at h
  split at h <;> omega

/-- The operations go from two positions to two others, without a gap and
without an overlap on either side. -/
def Tiles (xs ys : List α) : (left right : Nat) → List Opcode → (leftEnd rightEnd : Nat) → Prop
  | left, right, [], leftEnd, rightEnd => left = leftEnd ∧ right = rightEnd
  | left, right, op :: rest, leftEnd, rightEnd =>
      op.leftStart = left ∧ op.rightStart = right ∧ op.Fits xs ys ∧
        Tiles xs ys op.leftStop op.rightStop rest leftEnd rightEnd

theorem tiles_singleton {op : Opcode} (h : op.Fits xs ys) :
    Tiles xs ys op.leftStart op.rightStart [op] op.leftStop op.rightStop :=
  ⟨rfl, rfl, h, rfl, rfl⟩

theorem Tiles.append {i j k l m n : Nat} {ops ops' : List Opcode} (h : Tiles xs ys i j ops k l)
    (h' : Tiles xs ys k l ops' m n) : Tiles xs ys i j (ops ++ ops') m n := by
  induction ops generalizing i j with
  | nil =>
      obtain ⟨rfl, rfl⟩ := h
      exact h'
  | cons op ops ih =>
      obtain ⟨hleft, hright, hfits, hrest⟩ := h
      exact ⟨hleft, hright, hfits, ih hrest⟩

theorem tiles_gapOpcode {i j k l : Nat} (hi : i ≤ k) (hj : j ≤ l) :
    Tiles xs ys i j (gapOpcode i j k l) k l := by
  unfold gapOpcode
  split
  · next hleft =>
      split
      · next hright => exact tiles_singleton ⟨hleft, hright⟩
      · next hright => exact tiles_singleton ⟨hleft, Nat.le_antisymm hj (Nat.not_lt.1 hright)⟩
  · next hleft =>
      have heq : i = k := Nat.le_antisymm hi (Nat.not_lt.1 hleft)
      split
      · next hright => exact tiles_singleton ⟨heq, hright⟩
      · next hright => exact ⟨heq, Nat.le_antisymm hj (Nat.not_lt.1 hright)⟩

theorem IsRun.slice_eq {i j n : Nat} (h : IsRun xs ys i j n) :
    Rectangle.slice xs i (i + n) = Rectangle.slice ys j (j + n) := by
  have hleft : (Rectangle.slice xs i (i + n)).length = i + n - i := length_slice h.left_le
  have hright : (Rectangle.slice ys j (j + n)).length = j + n - j := length_slice h.right_le
  refine List.ext_getElem? fun d => ?_
  rcases Nat.lt_or_ge d n with hlt | hge
  · rw [getElem?_slice (by omega), getElem?_slice (by omega)]
    exact h.getElem?_eq d hlt
  · rw [List.getElem?_eq_none (by omega), List.getElem?_eq_none (by omega)]

theorem tiles_blockOpcode {b : Block} (h : IsRun xs ys b.left b.right b.size) :
    Tiles xs ys b.left b.right (blockOpcode b) (b.left + b.size) (b.right + b.size) := by
  unfold blockOpcode
  split
  · next hsize => exact ⟨by rw [hsize, Nat.add_zero], by rw [hsize, Nat.add_zero]⟩
  · next hsize =>
      have hpos : 0 < b.size := Nat.pos_of_ne_zero hsize
      exact tiles_singleton ⟨Nat.lt_add_of_pos_right hpos, Nat.lt_add_of_pos_right hpos, h.slice_eq⟩

theorem tiles_scriptFrom {i j k l : Nat} {bs : List Block} (h : Path xs ys i j bs k l) :
    Tiles xs ys i j (scriptFrom k l i j bs) k l := by
  induction h with
  | nil hk hl => exact tiles_gapOpcode hk hl
  | cons hleft hright _ hrun _ ih =>
      exact ((tiles_gapOpcode hleft hright).append (tiles_blockOpcode hrun)).append ih

theorem tiles_opcodes [DecidableEq α] (xs ys : List α) :
    Tiles xs ys 0 0 (opcodes xs ys) xs.length ys.length :=
  tiles_scriptFrom (path_matchingBlocks xs ys)

end EditMining.Alignment
