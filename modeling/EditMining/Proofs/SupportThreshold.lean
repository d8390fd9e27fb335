import EditMining.Proofs.ReportingOrder

/-!
# Raising the support threshold only filters

A miner with a higher threshold walks a smaller tree: whole branches are not
entered, and the frames on its stack are others. What it reports is still the
list of the lower threshold with the rarer patterns taken out, in the same order.

Which patterns grow out of a frame is known from their supports (`mem_grown_iff`),
so the members agree: a branch that is not entered holds no frequent pattern,
because a pattern has no more support than what it grew out of. The order does
not depend on the threshold either. It is the one of `Precedes`, which speaks of
the corpus alone, and there is only one such order.
-/

namespace EditMining

namespace Mining

variable {corpus : List TokenSequence} {low high : Nat}

theorem nodup_grown (hpos : 0 < low) (ts : List Token) :
    (grown low (Frame.ofTokens corpus ts)).Nodup :=
  (nodup_tokens_grown hpos ts).of_map _

theorem mem_grown_of_le (hpos : 0 < low) (hle : low ≤ high) {ts : List Token} {q : Pattern} :
    q ∈ grown high (Frame.ofTokens corpus ts) ↔
      q ∈ grown low (Frame.ofTokens corpus ts) ∧ (q.tokens = ts ∨ high ≤ q.support) := by
  rw [mem_grown_iff hpos, mem_grown_iff (Nat.lt_of_lt_of_le hpos hle)]
  constructor
  · intro h
    obtain ⟨us, rfl, hus⟩ := h
    rcases hus with rfl | hus
    · exact ⟨⟨[], rfl, .inl rfl⟩, .inl (List.append_nil ts)⟩
    · exact ⟨⟨us, rfl, .inr (Nat.le_trans hle hus)⟩, .inr hus⟩
  · intro h
    obtain ⟨⟨us, rfl, -⟩, hus⟩ := h
    refine ⟨us, rfl, hus.imp_left fun heq => ?_⟩
    simpa using heq

/-- The subtree of a frame under a higher threshold: the frame is reported
whatever its support, and below it the frequent patterns are. -/
theorem grown_eq_filter (corpus : List TokenSequence) (hpos : 0 < low) (hle : low ≤ high)
    (ts : List Token) :
    grown high (Frame.ofTokens corpus ts) =
      (grown low (Frame.ofTokens corpus ts)).filter
        fun q => q.tokens = ts ∨ high ≤ q.support := by
  have hpos' : 0 < high := Nat.lt_of_lt_of_le hpos hle
  have horder : ∀ {n : Nat}, 0 < n → (grown n (Frame.ofTokens corpus ts)).Pairwise
      fun p q => Precedes corpus p.tokens q.tokens :=
    fun hn => List.pairwise_map.1 (pairwise_precedes_grown hn ts)
  refine eq_of_perm_of_pairwise_precedes ?_ (horder hpos') ((horder hpos).filter _)
  rw [List.perm_ext_iff_of_nodup (nodup_grown hpos' ts) ((nodup_grown hpos ts).filter _)]
  intro q
  rw [mem_grown_of_le hpos hle, List.mem_filter, decide_eq_true_eq]

end Mining

open Mining

/-- Of two miners that look at the same sequences, the one with the higher
threshold reports what the other one does, less the patterns that have not
enough support for it, and puts the same sequences aside. -/
theorem Miner.mine_eq_filter_of_le {m m' : Miner} (hlength : m'.maxLength = m.maxLength)
    (hle : m.minSupport ≤ m'.minSupport) (corpus : List TokenSequence) :
    (m'.mine corpus).patterns =
        (m.mine corpus).patterns.filter (fun p => m'.minSupport ≤ p.support) ∧
      (m'.mine corpus).oversized = (m.mine corpus).oversized := by
  have hminable : m'.isMinable = m.isMinable := by
    funext s
    rw [isMinable, isMinable, hlength]
  have hcorpus : m'.minable corpus = m.minable corpus := by
    rw [minable, minable, hminable]
  constructor
  · have hgrown := grown_eq_filter (m.minable corpus) m.minSupport_pos hle []
    rw [m.grown_root, ← hcorpus, m'.grown_root, hcorpus, List.filter_cons_of_pos (by simp),
      List.cons.injEq] at hgrown
    rw [hgrown.2]
    refine List.filter_congr fun p hp => ?_
    obtain ⟨hne, -, -⟩ := (mem_patterns_mine m).1 hp
    simp [hne]
  · rw [mine, mine, hminable]

/-- The first two words are frequent enough for both miners, the third one only
for the first; the last sequence is too long. -/
theorem Miner.mine_eq_filter_of_le_three :
    let two : Miner := ⟨2, 4, by decide⟩
    let three : Miner := ⟨3, 4, by decide⟩
    let a : Token := ⟨.removed, "a"⟩
    let b : Token := ⟨.added, "b"⟩
    let c : Token := ⟨.kept, "c"⟩
    let corpus : List TokenSequence := [[a, b, c], [a, b], [c, a, b], [c, a, a, b, b]]
    (three.maxLength = two.maxLength ∧ two.minSupport ≤ three.minSupport) ∧
      (two.mine corpus).patterns = [⟨[b], 3⟩, ⟨[a], 3⟩, ⟨[a, b], 3⟩, ⟨[c], 2⟩] ∧
      (three.mine corpus).patterns = [⟨[b], 3⟩, ⟨[a], 3⟩, ⟨[a, b], 3⟩] ∧
      (three.mine corpus).oversized = [[c, a, a, b, b]] := by
  intro two three a b c corpus
  have hlength : three.maxLength = two.maxLength := rfl
  have hle : two.minSupport ≤ three.minSupport := by decide
  have htwo : two.mine corpus =
      ⟨[⟨[b], 3⟩, ⟨[a], 3⟩, ⟨[a, b], 3⟩, ⟨[c], 2⟩], [[c, a, a, b, b]]⟩ := by cbv
  obtain ⟨hpatterns, hoversized⟩ := mine_eq_filter_of_le hlength hle corpus
  rw [htwo] at hpatterns hoversized
  exact ⟨⟨hlength, hle⟩, congrArg (·.patterns) htwo, hpatterns, hoversized⟩

end EditMining
