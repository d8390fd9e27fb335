import EditMining.Proofs.TokenDiff

/-!
# The shape of a fused diff

The tokens of a diff come block by block: what is removed before a block, then
what is added there, then what the block keeps (`flatMap_gapOpcode`,
`flatMap_blockOpcode`). A block holds something, so a removed token never comes
right behind an added one, and fusing neighbours does not bring two tokens
together that were apart.

Both sides are spelled out on the way (`Spells`): they are cut into runs, one
behind the other and none of them empty, and each token stands for one run. A kept
token stands for a run of both sides, a removed one for a run of the left side and
an added one for a run of the right side. Fusing two tokens joins their runs.
-/

namespace EditMining.TokenDiff

open EditMining.Alignment

variable {before behind : List String}

/-! ## The tokens between two blocks, and those of a block -/

theorem flatMap_gapOpcode (before behind : List String) (i j k l : Nat) :
    (gapOpcode i j k l).flatMap (ofOpcode before behind) =
      (Rectangle.slice before i k).map (⟨.removed, ·⟩)
        ++ (Rectangle.slice behind j l).map (⟨.added, ·⟩) := by
  unfold gapOpcode
  by_cases hi : i < k
  · by_cases hj : j < l
    · rw [if_pos hi, if_pos hj, List.flatMap_singleton]
      rfl
    · rw [if_pos hi, if_neg hj, List.flatMap_singleton, slice_of_le (Nat.not_lt.1 hj)]
      exact (List.append_nil _).symm
  · rw [if_neg hi, slice_of_le (Nat.not_lt.1 hi)]
    by_cases hj : j < l
    · rw [if_pos hj, List.flatMap_singleton]
      rfl
    · rw [if_neg hj, slice_of_le (Nat.not_lt.1 hj)]
      rfl

theorem flatMap_blockOpcode (before behind : List String) (b : Block) :
    (blockOpcode b).flatMap (ofOpcode before behind) =
      (Rectangle.slice before b.left (b.left + b.size)).map (⟨.kept, ·⟩) := by
  unfold blockOpcode
  by_cases hsize : b.size = 0
  · rw [if_pos hsize, hsize, Nat.add_zero, slice_self]
    rfl
  · rw [if_neg hsize, List.flatMap_singleton]
    rfl

/-! ## What is added is not followed by what is removed -/

/-- Whether a token of the second polarity may come right behind one of the
first. -/
def MayFollow (p q : Polarity) : Prop :=
  ¬(p = .added ∧ q = .removed)

/-- Each token may follow the one before it. -/
def IsOrdered (ts : TokenSequence) : Prop :=
  ts.IsChain fun t u => MayFollow t.polarity u.polarity

theorem IsOrdered.map_append {p : Polarity} {ts : TokenSequence} (h : IsOrdered ts)
    (hself : MayFollow p p) (hhead : ∀ t ∈ ts.head?, MayFollow p t.polarity)
    (words : List String) : IsOrdered (words.map (Token.mk p ·) ++ ts) := by
  induction words with
  | nil => exact h
  | cons word words ih =>
      refine List.isChain_cons.2 ⟨fun t ht => ?_, ih⟩
      cases words with
      | nil => exact hhead t ht
      | cons word' words =>
          obtain rfl : ⟨p, word'⟩ = t := by simpa using ht
          exact hself

/-- What is removed and what is added, before tokens that do not begin with a
removed one. -/
theorem IsOrdered.gap {ts : TokenSequence} (h : IsOrdered ts)
    (hhead : ∀ t ∈ ts.head?, t.polarity ≠ .removed) (words words' : List String) :
    IsOrdered (words.map (Token.mk .removed ·) ++ words'.map (Token.mk .added ·) ++ ts) := by
  have hadded : IsOrdered (words'.map (Token.mk .added ·) ++ ts) :=
    h.map_append (by simp [MayFollow]) (fun t ht hboth => hhead t ht hboth.2) words'
  rw [List.append_assoc]
  exact hadded.map_append (by simp [MayFollow]) (by simp [MayFollow]) words

theorem isOrdered_scriptFrom {i j k l : Nat} {bs : List Block} (h : Path before behind i j bs k l) :
    IsOrdered ((scriptFrom k l i j bs).flatMap (ofOpcode before behind)) := by
  induction h with
  | nil =>
      rw [scriptFrom, flatMap_gapOpcode, ← List.append_nil (_ ++ _)]
      exact IsOrdered.gap .nil (by simp) _ _
  | @cons i j k l b bs _ _ hsize hrun _ ih =>
      rw [scriptFrom, List.flatMap_append, List.flatMap_append, flatMap_gapOpcode,
        flatMap_blockOpcode, List.append_assoc]
      have hlen : (Rectangle.slice before b.left (b.left + b.size)).length = b.size := by
        rw [length_slice hrun.left_le, Nat.add_sub_cancel_left]
      have hblock := ih.map_append (p := .kept) (by simp [MayFollow]) (by simp [MayFollow])
        (Rectangle.slice before b.left (b.left + b.size))
      refine hblock.gap ?_ _ _
      cases hslice : Rectangle.slice before b.left (b.left + b.size) with
      | nil =>
          rw [hslice] at hlen
          exact absurd hlen.symm hsize
      | cons word words => simp

theorem isOrdered_ofTokens (before behind : List String) : IsOrdered (ofTokens before behind) :=
  isOrdered_scriptFrom (path_matchingBlocks before behind)

theorem exists_addToken_eq (t : Token) (ts : TokenSequence) :
    ∃ text rest, addToken t ts = ⟨t.polarity, text⟩ :: rest := by
  cases ts with
  | nil => exact ⟨t.text, [], rfl⟩
  | cons u ts =>
      rw [addToken]
      split
      · exact ⟨_, _, rfl⟩
      · exact ⟨t.text, u :: ts, rfl⟩

theorem IsOrdered.fuse {ts : TokenSequence} (h : IsOrdered ts) : IsOrdered (fuse ts) := by
  induction ts with
  | nil => exact h
  | cons t ts ih =>
      obtain ⟨hhead, hrest⟩ := List.isChain_cons.1 h
      refine isChain_addToken (ih hrest) fun u hu _ => ?_
      cases ts with
      | nil => cases hu
      | cons w ts =>
          -- What is fused behind the token begins with the polarity that was there before.
          have hfused : u ∈ (addToken w (TokenDiff.fuse ts)).head? := hu
          obtain ⟨text, rest, heq⟩ := exists_addToken_eq w (TokenDiff.fuse ts)
          rw [heq, List.head?_cons, Option.mem_some_iff] at hfused
          rw [← hfused]
          exact hhead w rfl

/-! ## Both sides are spelled out -/

/-- The words that a token of some polarity stands for on one side. -/
def wordsOn (side : Projection) (p : Polarity) (words : List String) : List String :=
  if side.includes p then words else []

theorem wordsOn_append (side : Projection) (p : Polarity) (words words' : List String) :
    wordsOn side p (words ++ words') = wordsOn side p words ++ wordsOn side p words' := by
  unfold wordsOn
  split
  · rfl
  · rfl

/-- Two lists of words are cut into runs that are not empty, and each token of a
diff is what one of them spells out: a run that both sides have if it is kept, and
one of the left or of the right side if it is removed or added. -/
inductive Spells : List String → List String → TokenSequence → Prop where
  | nil : Spells [] [] []
  | cons {p : Polarity} {words before behind : List String} {ts : TokenSequence} : words ≠ [] →
      Spells before behind ts →
      Spells (wordsOn .trigger p words ++ before) (wordsOn .change p words ++ behind)
        (⟨p, String.join words⟩ :: ts)

theorem Spells.map_append {ts : TokenSequence} (h : Spells before behind ts) (p : Polarity)
    (words : List String) :
    Spells (wordsOn .trigger p words ++ before) (wordsOn .change p words ++ behind)
      (words.map (Token.mk p ·) ++ ts) := by
  induction words with
  | nil => simpa [wordsOn] using h
  | cons word words ih =>
      have hword : String.join [word] = word := by simp
      rw [← List.singleton_append, wordsOn_append, wordsOn_append, List.append_assoc,
        List.append_assoc]
      nth_rewrite 3 [← hword]
      exact .cons (List.cons_ne_nil word []) ih

theorem Spells.addToken {ts : TokenSequence} (h : Spells before behind ts) {p : Polarity}
    {words : List String} (hwords : words ≠ []) :
    Spells (wordsOn .trigger p words ++ before) (wordsOn .change p words ++ behind)
      (addToken ⟨p, String.join words⟩ ts) := by
  cases h with
  | nil => exact .cons hwords .nil
  | @cons q words' before behind ts hwords' h =>
      rw [TokenDiff.addToken]
      split
      · next heq =>
          obtain rfl : p = q := heq
          rw [← List.append_assoc, ← List.append_assoc, ← wordsOn_append, ← wordsOn_append,
            ← String.join_append]
          exact .cons (by simp [hwords]) h
      · exact .cons hwords (.cons hwords' h)

theorem Spells.fuse {ts : TokenSequence} (h : Spells before behind ts) :
    Spells before behind (fuse ts) := by
  induction h with
  | nil => exact .nil
  | cons hwords _ ih => exact ih.addToken hwords

theorem Spells.gap {i j k l : Nat} {ts : TokenSequence} (hi : i ≤ k) (hj : j ≤ l)
    (h : Spells (before.drop k) (behind.drop l) ts) :
    Spells (before.drop i) (behind.drop j)
      ((gapOpcode i j k l).flatMap (ofOpcode before behind) ++ ts) := by
  have hadded : Spells (before.drop k) (Rectangle.slice behind j l ++ behind.drop l) _ :=
    h.map_append .added (Rectangle.slice behind j l)
  have hremoved : Spells (Rectangle.slice before i k ++ before.drop k) _ _ :=
    hadded.map_append .removed (Rectangle.slice before i k)
  rw [slice_append_drop before hi] at hremoved
  rw [flatMap_gapOpcode, List.append_assoc, ← slice_append_drop behind hj]
  exact hremoved

theorem Spells.block {b : Block} {ts : TokenSequence}
    (hrun : IsRun before behind b.left b.right b.size)
    (h : Spells (before.drop (b.left + b.size)) (behind.drop (b.right + b.size)) ts) :
    Spells (before.drop b.left) (behind.drop b.right)
      ((blockOpcode b).flatMap (ofOpcode before behind) ++ ts) := by
  have hkept := h.map_append .kept (Rectangle.slice before b.left (b.left + b.size))
  rw [flatMap_blockOpcode, ← slice_append_drop before (Nat.le_add_right b.left b.size),
    ← slice_append_drop behind (Nat.le_add_right b.right b.size), ← hrun.slice_eq]
  exact hkept

theorem spells_scriptFrom {i j k l : Nat} {bs : List Block} (h : Path before behind i j bs k l)
    (hk : before.drop k = []) (hl : behind.drop l = []) :
    Spells (before.drop i) (behind.drop j)
      ((scriptFrom k l i j bs).flatMap (ofOpcode before behind)) := by
  induction h with
  | nil hi hj =>
      rw [scriptFrom, ← List.append_nil (List.flatMap _ _)]
      refine Spells.gap hi hj ?_
      rw [hk, hl]
      exact .nil
  | cons hleft hright _ hrun _ ih =>
      rw [scriptFrom, List.flatMap_append, List.flatMap_append, List.append_assoc]
      exact ((ih hk hl).block hrun).gap hleft hright

theorem spells_ofTokens (before behind : List String) :
    Spells before behind (ofTokens before behind) :=
  spells_scriptFrom (path_matchingBlocks before behind) List.drop_length List.drop_length

theorem spells_fusedDiff (before behind : List String) :
    Spells before behind (fusedDiff before behind) :=
  (spells_ofTokens before behind).fuse

/-- Neighbours in a fused diff have different polarities, no added token is
followed by a removed one, and the tokens spell out both sides, run by run. -/
theorem fusedDiff_shape (before behind : List String) :
    (fusedDiff before behind).IsChain (fun t u => t.polarity ≠ u.polarity) ∧
      (fusedDiff before behind).IsChain
        (fun t u => ¬(t.polarity = .added ∧ u.polarity = .removed)) ∧
      Spells before behind (fusedDiff before behind) :=
  ⟨isChain_fuse _, (isOrdered_ofTokens before behind).fuse, spells_fusedDiff before behind⟩

end EditMining.TokenDiff
