import EditMining.Proofs.DiffShape
import EditMining.Proofs.LongestRuns

/-!
# No change in, no change out

Two equal sides make a diff in which everything is kept, and only two equal sides
do. One half is about what a diff says: tokens that are all kept spell out the
same words on both sides. The other half is about the search for runs. In a long
sequence some elements, or all of them, are too popular to be looked for, and
what is found first may be a short run or none. It is still on the diagonal
(`longestRun_self`), so extending it by equal neighbours gives the whole
sequence, and the edit script is one equal span.
-/

namespace EditMining

namespace Alignment

variable {α : Type} [DecidableEq α]

theorem block_wholeRectangle_self (xs : List α) :
    (wholeRectangle xs xs).block xs xs = ⟨0, 0, xs.length⟩ := by
  have hslice : Rectangle.slice xs 0 xs.length = xs := by simp [Rectangle.slice]
  simp only [Rectangle.block, wholeRectangle, hslice, longestRun_self, Nat.add_zero]

/-- A sequence is turned into itself by keeping it in one piece. -/
theorem opcodes_self (xs : List α) : opcodes xs xs = blockOpcode ⟨0, 0, xs.length⟩ := by
  have hblock := block_wholeRectangle_self xs
  rw [opcodes, matchingBlocks_eq]
  by_cases hlen : xs.length = 0
  · have hsize : ((wholeRectangle xs xs).block xs xs).size = 0 := by rw [hblock, hlen]
    rw [alignedBlocks_of_size_eq_zero hsize, hlen]
    rfl
  · have hsize : ((wholeRectangle xs xs).block xs xs).size ≠ 0 := by rwa [hblock]
    -- Nothing is left before the block or behind it.
    rw [alignedBlocks_of_size_ne_zero hsize, hblock]
    simp [Rectangle.before, Rectangle.behind, wholeRectangle, joinBlocks, addBlock, scriptOf,
      scriptFrom, gapOpcode]

end Alignment

namespace TokenDiff

open EditMining.Alignment

/-- A run of tokens of one polarity is fused into one token. -/
theorem fuse_map {p : Polarity} {words : List String} (h : words ≠ []) :
    fuse (words.map (Token.mk p ·)) = [⟨p, String.join words⟩] := by
  induction words with
  | nil => exact absurd rfl h
  | cons word words ih =>
      have hfuse : fuse ((word :: words).map (Token.mk p ·)) =
          addToken ⟨p, word⟩ (fuse (words.map (Token.mk p ·))) := rfl
      rw [hfuse]
      by_cases hwords : words = []
      · rw [hwords]
        simp [fuse, addToken]
      · rw [ih hwords, addToken, if_pos rfl, String.join_cons]

theorem ofTokens_self (words : List String) :
    ofTokens words words = words.map (Token.mk .kept ·) := by
  rw [ofTokens, opcodes_self, flatMap_blockOpcode]
  simp [Rectangle.slice]

theorem fusedDiff_self {words : List String} (h : words ≠ []) :
    fusedDiff words words = [⟨.kept, String.join words⟩] := by
  rw [fusedDiff, ofTokens_self, fuse_map h]

theorem Spells.eq_of_kept {before behind : List String} {ts : TokenSequence}
    (h : Spells before behind ts) (hkept : ∀ t ∈ ts, t.polarity = .kept) : before = behind := by
  induction h with
  | nil => rfl
  | cons _ _ ih =>
      obtain rfl : _ = Polarity.kept := hkept _ List.mem_cons_self
      rw [ih fun t ht => hkept t (List.mem_cons_of_mem _ ht)]
      rfl

/-- A fused diff keeps everything exactly if nothing has changed; the edit script
of a list of words and itself is one equal span, and its diff is one kept token. -/
theorem fusedDiff_unchanged_iff (before behind : List String) :
    ((∀ t ∈ fusedDiff before behind, t.polarity ≠ .added ∧ t.polarity ≠ .removed) ↔
        before = behind) ∧
      (before = behind → before ≠ [] →
        opcodes before behind = [⟨.equal, 0, before.length, 0, behind.length⟩] ∧
          fusedDiff before behind = [⟨.kept, String.join before⟩]) := by
  constructor
  · constructor
    · intro h
      refine (spells_fusedDiff before behind).eq_of_kept fun t ht => ?_
      obtain ⟨hadded, hremoved⟩ := h t ht
      cases hp : t.polarity with
      | added => exact absurd hp hadded
      | removed => exact absurd hp hremoved
      | kept => rfl
    · intro heq
      subst heq
      by_cases hempty : before = []
      · rw [hempty, fusedDiff, ofTokens_self]
        simp [fuse]
      · rw [fusedDiff_self hempty]
        simp
  · intro heq hne
    subst heq
    refine ⟨?_, fusedDiff_self hne⟩
    rw [opcodes_self, blockOpcode, if_neg (by simpa using hne), Nat.zero_add]

/-- All elements are popular here, and no run is looked for. -/
theorem fusedDiff_unchanged_iff_of_popular :
    let words := List.replicate 200 "x"
    isSeed words "x" = false ∧ words ≠ [] ∧
      opcodes words words = [⟨.equal, 0, 200, 0, 200⟩] ∧
      fusedDiff words words = [⟨.kept, String.join words⟩] := by
  intro words
  have hlen : words.length = 200 := List.length_replicate
  have hcount : words.count "x" = 200 := List.count_replicate_self
  have hseed : isSeed words "x" = false := by
    rw [isSeed, hlen, hcount]
    rfl
  have hne : words ≠ [] := List.ne_nil_of_length_pos (by omega)
  obtain ⟨hopcodes, hdiff⟩ := (fusedDiff_unchanged_iff words words).2 rfl hne
  rw [hlen] at hopcodes
  exact ⟨hseed, hne, hopcodes, hdiff⟩

end TokenDiff

end EditMining
