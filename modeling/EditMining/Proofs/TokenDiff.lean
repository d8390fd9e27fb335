import EditMining.Pattern
import EditMining.Proofs.EditScript
import EditMining.TokenDiff
import Mathlib.Data.List.Chain

/-!
# A token diff loses and invents nothing

The tagged tokens of a diff carry both of its sides. Those that belong to the
trigger are, in order, the tokens before the edit, and those that belong to the
change are the tokens after it. Each operation of the edit script adds its own
slice on either side, and since the operations tile both sides the slices are
all of it.

Fusing neighbours changes the tokens, but what either side spells out stays
the same: neighbours are only fused when they belong to the same sides.
-/

namespace EditMining.TokenDiff

open EditMining.Alignment

/-- The texts of one half of an edit. -/
def texts (side : Projection) (ts : TokenSequence) : List String :=
  (ts.filter fun t => side.includes t.polarity).map (·.text)

theorem texts_cons (side : Projection) (t : Token) (ts : TokenSequence) :
    texts side (t :: ts) =
      if side.includes t.polarity then t.text :: texts side ts else texts side ts := by
  rw [texts, List.filter_cons]
  split
  · rfl
  · rfl

theorem texts_append (side : Projection) (ts us : TokenSequence) :
    texts side (ts ++ us) = texts side ts ++ texts side us := by
  rw [texts, List.filter_append, List.map_append]
  rfl

theorem texts_map (side : Projection) (p : Polarity) (words : List String) :
    texts side (words.map (⟨p, ·⟩)) = if side.includes p then words else [] := by
  induction words with
  | nil => split <;> rfl
  | cons word words ih =>
      rw [List.map_cons, texts_cons, ih]
      split
      · rfl
      · rfl

/-! ## The two sides of a diff -/

variable {before behind : List String}

theorem texts_ofOpcode {op : Opcode} (h : op.Fits before behind) :
    texts .trigger (ofOpcode before behind op) =
        Rectangle.slice before op.leftStart op.leftStop ∧
      texts .change (ofOpcode before behind op) =
        Rectangle.slice behind op.rightStart op.rightStop := by
  unfold Opcode.Fits at h
  unfold ofOpcode
  split at h
  · next heq =>
      rw [heq]
      exact ⟨texts_map _ _ _, (texts_map _ _ _).trans h.2.2⟩
  · next heq =>
      rw [heq, texts_append, texts_append]
      simp [texts_map, Projection.includes, Polarity.inTrigger, Polarity.inChange]
  · next heq =>
      rw [heq, h.2, slice_self]
      exact ⟨texts_map _ _ _, texts_map _ _ _⟩
  · next heq =>
      rw [heq, h.1, slice_self]
      exact ⟨texts_map _ _ _, texts_map _ _ _⟩

/-- Operations that tile the rest of both sides add all that is left there. -/
theorem texts_flatMap_ofOpcode {i j : Nat} {ops : List Opcode}
    (h : Tiles before behind i j ops before.length behind.length) :
    texts .trigger (ops.flatMap (ofOpcode before behind)) = before.drop i ∧
      texts .change (ops.flatMap (ofOpcode before behind)) = behind.drop j := by
  induction ops generalizing i j with
  | nil =>
      obtain ⟨rfl, rfl⟩ := h
      rw [List.drop_length, List.drop_length]
      exact ⟨rfl, rfl⟩
  | cons op ops ih =>
      obtain ⟨rfl, rfl, hfits, hrest⟩ := h
      obtain ⟨hleft, hright⟩ := texts_ofOpcode hfits
      obtain ⟨hleft', hright'⟩ := ih hrest
      rw [List.flatMap_cons, texts_append, texts_append, hleft, hright, hleft', hright']
      exact ⟨slice_append_drop before hfits.le.1, slice_append_drop behind hfits.le.2⟩

/-! ## Fusing -/

theorem join_texts_addToken (side : Projection) (t : Token) (ts : TokenSequence) :
    String.join (texts side (addToken t ts)) = String.join (texts side (t :: ts)) := by
  cases ts with
  | nil => rfl
  | cons u ts =>
      rw [addToken]
      split
      · next heq =>
          rw [texts_cons, texts_cons, texts_cons, heq]
          split
          · rw [String.join_cons, String.join_cons, String.join_cons, String.append_assoc]
          · rfl
      · rfl

theorem join_texts_fuse (side : Projection) (ts : TokenSequence) :
    String.join (texts side (fuse ts)) = String.join (texts side ts) := by
  induction ts with
  | nil => rfl
  | cons t ts ih =>
      have hfuse : fuse (t :: ts) = addToken t (fuse ts) := rfl
      rw [hfuse, join_texts_addToken, texts_cons, texts_cons]
      split
      · rw [String.join_cons, String.join_cons, ih]
      · exact ih

theorem isChain_addToken {S : Polarity → Polarity → Prop} {t : Token} {ts : TokenSequence}
    (h : ts.IsChain fun t u => S t.polarity u.polarity)
    (hhead : ∀ u ∈ ts.head?, t.polarity ≠ u.polarity → S t.polarity u.polarity) :
    (addToken t ts).IsChain fun t u => S t.polarity u.polarity := by
  cases ts with
  | nil => exact List.isChain_singleton t
  | cons u ts =>
      rw [addToken]
      split
      · next heq =>
          -- The fused token has the polarity of the one it takes the place of.
          obtain ⟨hu, hts⟩ := List.isChain_cons.1 h
          exact List.isChain_cons.2 ⟨heq ▸ hu, hts⟩
      · next hne => exact List.isChain_cons_cons.2 ⟨hhead u rfl hne, h⟩

/-- In a fused diff neighbours have different polarities. -/
theorem isChain_fuse (ts : TokenSequence) :
    (fuse ts).IsChain fun t u => t.polarity ≠ u.polarity := by
  induction ts with
  | nil => exact List.isChain_nil
  | cons t ts ih => exact isChain_addToken ih fun _ _ hne => hne

/-- The edit script of any two token lists tiles both, its diff has each of them
as one of its sides, and fusing any diff keeps what its sides spell out. -/
theorem tokenDiff_lossless (before behind : List String) :
    Tiles before behind 0 0 (opcodes before behind) before.length behind.length ∧
      texts .trigger (ofTokens before behind) = before ∧
      texts .change (ofTokens before behind) = behind ∧
      ∀ (ts : TokenSequence) (side : Projection),
        String.join (texts side (fuse ts)) = String.join (texts side ts) := by
  have htiles := tiles_opcodes before behind
  obtain ⟨htrigger, hchange⟩ := texts_flatMap_ofOpcode htiles
  exact ⟨htiles, htrigger, hchange, fun ts side => join_texts_fuse side ts⟩

end EditMining.TokenDiff
