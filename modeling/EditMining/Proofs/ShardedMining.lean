import EditMining.Proofs.AcceptedConfigurations
import EditMining.Proofs.Merge
import EditMining.Proofs.Mining

/-!
# Mining by shards refines mining all at once

Shards are mined apart and their patterns merged. What the merged list says
about some tokens is compared here with what the corpora say together.

A shard reports a change pattern exactly when the shard alone supports it
often enough, so its share in the merged support is all of the shard's support
or nothing (`Miner.totalSupport_changes`). The merged support is the sum of these
shares. It can fall short of the support in all corpora together, since what
a shard drops is lost, but by less than the threshold for each shard: a
pattern that `n` shards support more than `n * (m - 1)` times in total reaches
`m` in one of them. When one occurrence is enough nothing is dropped, and
merging the shards is the same as mining everything as one shard.
-/

namespace EditMining

open Mining

/-- The change patterns of a corpus. -/
def Miner.changes (m : Miner) (corpus : List TokenSequence) : List Pattern :=
  changePatterns (m.mine corpus).patterns

/-- The change patterns of all shards, merged. -/
def Miner.mergedChanges (m : Miner) (shards : List (String × List TokenSequence)) : List Pattern :=
  mergePatterns (shards.flatMap fun s => m.changes s.2)

/-- What is found in all shards, merged. -/
def Pipeline.mineShards (p : Pipeline) (shards : List (String × List TokenSequence)) :
    Result (List Pattern) := do
  let mined ← shards.mapM fun s => p.mineCorpus s.1 s.2
  .ok (mergePatterns (mined.flatMap ShardOutcome.patterns))

def Miner.support (m : Miner) (corpus : List TokenSequence) (ts : List Token) : Nat :=
  supportIn (m.minable corpus) ts

/-- More than one token, and not only kept ones. -/
def IsChange (ts : List Token) : Prop :=
  2 ≤ ts.length ∧ ∃ t ∈ ts, t.polarity ≠ .kept

theorem isChangePattern_iff {q : Pattern} : q.isChangePattern = true ↔ IsChange q.tokens := by
  rw [Pattern.isChangePattern, Bool.and_eq_true, decide_eq_true_eq, Pattern.hasEdit,
    List.any_eq_true]
  simp only [decide_eq_true_eq]
  rfl

namespace Miner

variable {m : Miner}

theorem support_flatMap (m : Miner) (shards : List (String × List TokenSequence))
    (ts : List Token) :
    m.support (shards.flatMap Prod.snd) ts = (shards.map fun s => m.support s.2 ts).sum := by
  rw [support, minable, List.filter_flatMap, supportIn_flatMap]
  rfl

/-! ## One shard -/

theorem mem_changes {corpus : List TokenSequence} {q : Pattern} :
    q ∈ m.changes corpus ↔
      IsChange q.tokens ∧ q.support = m.support corpus q.tokens ∧
        m.minSupport ≤ q.support := by
  rw [changes, changePatterns, List.mem_filter, isChangePattern_iff, m.mem_patterns_mine]
  constructor
  · rintro ⟨⟨-, hsupport, hfrequent⟩, hchange⟩
    exact ⟨hchange, hsupport, hfrequent⟩
  · rintro ⟨hchange, hsupport, hfrequent⟩
    refine ⟨⟨?_, hsupport, hfrequent⟩, hchange⟩
    rintro hnil
    rw [IsChange, hnil] at hchange
    exact absurd hchange.1 (by decide)

theorem nodup_tokens_changes (corpus : List TokenSequence) :
    ((m.changes corpus).map Pattern.tokens).Nodup :=
  ((List.filter_sublist).map Pattern.tokens).nodup (m.nodup_tokens_mine corpus)

theorem mem_tokens_changes {corpus : List TokenSequence} {ts : List Token} :
    ts ∈ (m.changes corpus).map Pattern.tokens ↔
      IsChange ts ∧ m.minSupport ≤ m.support corpus ts := by
  rw [List.mem_map]
  constructor
  · rintro ⟨q, hq, rfl⟩
    obtain ⟨hchange, hsupport, hfrequent⟩ := mem_changes.1 hq
    exact ⟨hchange, hsupport ▸ hfrequent⟩
  · rintro ⟨hchange, hfrequent⟩
    exact ⟨⟨ts, m.support corpus ts⟩, mem_changes.2 ⟨hchange, rfl, hfrequent⟩,
      rfl⟩

/-- A shard's share in the merged support of a change is all or nothing. -/
theorem totalSupport_changes {corpus : List TokenSequence} {ts : List Token}
    (hchange : IsChange ts) :
    totalSupport (m.changes corpus) ts =
      if m.minSupport ≤ m.support corpus ts then m.support corpus ts else 0 := by
  split
  · next hfrequent =>
      exact totalSupport_of_mem (p := ⟨ts, m.support corpus ts⟩)
        (nodup_tokens_changes corpus)
        (mem_changes.2 ⟨hchange, rfl, hfrequent⟩)
  · next hrare =>
      exact totalSupport_eq_zero fun h => hrare (mem_tokens_changes.1 h).2

/-! ## All shards -/

variable {shards : List (String × List TokenSequence)} {ts : List Token}

theorem mem_tokens_mergedChanges :
    ts ∈ (m.mergedChanges shards).map Pattern.tokens ↔
      IsChange ts ∧ ∃ s ∈ shards, m.minSupport ≤ m.support s.2 ts := by
  rw [mergedChanges, mem_tokens_mergePatterns, List.map_flatMap, List.mem_flatMap]
  constructor
  · rintro ⟨s, hs, hts⟩
    obtain ⟨hchange, hfrequent⟩ := mem_tokens_changes.1 hts
    exact ⟨hchange, s, hs, hfrequent⟩
  · rintro ⟨hchange, s, hs, hfrequent⟩
    exact ⟨s, hs, mem_tokens_changes.2 ⟨hchange, hfrequent⟩⟩

theorem totalSupport_mergedChanges (hchange : IsChange ts) :
    totalSupport (shards.flatMap fun s => m.changes s.2) ts =
      ((shards.filter fun s => m.minSupport ≤ m.support s.2 ts).map
        fun s => m.support s.2 ts).sum := by
  rw [totalSupport_flatMap]
  simp only [totalSupport_changes hchange]
  induction shards with
  | nil => rfl
  | cons s rest ih =>
      rw [List.map_cons, List.sum_cons, ih, List.filter_cons]
      by_cases h : m.minSupport ≤ m.support s.2 ts
      · simp [h]
      · simp [h]

theorem support_of_mem_mergedChanges {q : Pattern} (hq : q ∈ m.mergedChanges shards) :
    q.support = ((shards.filter fun s => m.minSupport ≤ m.support s.2 q.tokens).map
      fun s => m.support s.2 q.tokens).sum := by
  have hchange := (mem_tokens_mergedChanges.1 (List.mem_map_of_mem hq)).1
  rw [← totalSupport_mergedChanges hchange]
  exact (mem_mergePatterns.1 hq).2

theorem support_flatMap_le_of_rare
    (h : ∀ s ∈ shards, m.support s.2 ts < m.minSupport) :
    m.support (shards.flatMap Prod.snd) ts ≤ shards.length * (m.minSupport - 1) := by
  rw [m.support_flatMap]
  induction shards with
  | nil => simp
  | cons s rest ih =>
      have hs := h s List.mem_cons_self
      have hrest := ih fun s hs => h s (List.mem_cons_of_mem _ hs)
      rw [List.map_cons, List.sum_cons, List.length_cons, Nat.succ_mul]
      omega

/-- More support than all shards together can fall short of is enough in one of
them. -/
theorem exists_frequent_shard
    (h : shards.length * (m.minSupport - 1) < m.support (shards.flatMap Prod.snd) ts) :
    ∃ s ∈ shards, m.minSupport ≤ m.support s.2 ts := by
  by_contra hrare
  refine Nat.not_le_of_lt h (support_flatMap_le_of_rare fun s hs => ?_)
  exact Nat.lt_of_not_le fun hfrequent => hrare ⟨s, hs, hfrequent⟩

theorem support_le_support_flatMap {s : String × List TokenSequence} (hs : s ∈ shards) :
    m.support s.2 ts ≤ m.support (shards.flatMap Prod.snd) ts := by
  rw [m.support_flatMap]
  exact List.le_sum_of_mem (List.mem_map.2 ⟨s, hs, rfl⟩)

theorem totalSupport_mergedChanges_of_one (hone : m.minSupport = 1) (hchange : IsChange ts) :
    totalSupport (shards.flatMap fun s => m.changes s.2) ts =
      m.support (shards.flatMap Prod.snd) ts := by
  rw [totalSupport_flatMap, m.support_flatMap]
  congr 1
  refine List.map_congr_left fun s _ => ?_
  rw [totalSupport_changes hchange, hone]
  split
  · rfl
  · omega

theorem mem_tokens_mergedChanges_of_one (hone : m.minSupport = 1) :
    ts ∈ (m.mergedChanges shards).map Pattern.tokens ↔
      IsChange ts ∧ 1 ≤ m.support (shards.flatMap Prod.snd) ts := by
  rw [mem_tokens_mergedChanges]
  refine and_congr_right fun _ => ?_
  constructor
  · rintro ⟨s, hs, hpos⟩
    rw [hone] at hpos
    exact Nat.le_trans hpos (support_le_support_flatMap hs)
  · intro hpos
    refine exists_frequent_shard ?_
    rwa [hone, Nat.sub_self, Nat.mul_zero]

theorem mergedChanges_eq_of_one (hone : m.minSupport = 1) :
    m.mergedChanges shards = mergePatterns (m.changes (shards.flatMap Prod.snd)) := by
  have htokens : ∀ ts,
      ts ∈ (shards.flatMap fun s => m.changes s.2).map Pattern.tokens ↔
        ts ∈ (m.changes (shards.flatMap Prod.snd)).map Pattern.tokens := by
    intro ts
    rw [← mem_tokens_mergePatterns, ← mergedChanges, mem_tokens_mergedChanges_of_one hone,
      mem_tokens_changes, hone]
  refine mergePatterns_congr htokens fun ts => ?_
  by_cases hchange : IsChange ts
  · rw [totalSupport_mergedChanges_of_one hone hchange, totalSupport_changes hchange, hone]
    split
    · rfl
    · omega
  · have hnot : ts ∉ (m.changes (shards.flatMap Prod.snd)).map Pattern.tokens :=
      fun h => hchange (mem_tokens_changes.1 h).1
    rw [totalSupport_eq_zero hnot, totalSupport_eq_zero (mt (htokens ts).1 hnot)]

end Miner

/-! ## The refinement -/

namespace Pipeline

variable {p : Pipeline} {m : Miner}

theorem mineShards_eq (hm : p.miner = .ok m) (shards : List (String × List TokenSequence)) :
    p.mineShards shards = .ok (m.mergedChanges shards) := by
  have hmined : (fun s : String × List TokenSequence => p.mineCorpus s.1 s.2) =
      fun s => pure (.ofMining s.1 s.2 (m.mine s.2)) := funext fun s => mineCorpus_eq hm s.1 s.2
  rw [mineShards, hmined, List.mapM_pure, Miner.mergedChanges]
  refine congrArg (fun ps => Except.ok (mergePatterns ps)) ?_
  rw [List.flatMap_map]
  rfl

/-- With a threshold that is not zero all shards can be mined. The merged list has a
token list exactly when it is a change that some shard alone supports often enough; its
support is the sum over these shards, so no more than in all corpora together. More
support in all corpora than the shards can drop puts a change into the list, and with a
threshold of one the list is that of all corpora mined as one shard. -/
theorem mineShards_refines (p : Pipeline) (hpos : 0 < p.configuration.mining.minSupport)
    (shards : List (String × List TokenSequence)) :
    ∃ m merged, p.miner = .ok m ∧ m.minSupport = p.configuration.mining.minSupport ∧
      m.maxLength = p.configuration.sequencing.maxSequenceTokens ∧
      p.mineShards shards = .ok merged ∧
      (merged.map Pattern.tokens).Nodup ∧
      (∀ ts, ts ∈ merged.map Pattern.tokens ↔
        IsChange ts ∧ ∃ s ∈ shards, m.minSupport ≤ m.support s.2 ts) ∧
      (∀ q ∈ merged,
        q.support =
          ((shards.filter fun s => m.minSupport ≤ m.support s.2 q.tokens).map
            fun s => m.support s.2 q.tokens).sum ∧
        q.support ≤ m.support (shards.flatMap Prod.snd) q.tokens) ∧
      (∀ ts, IsChange ts →
        shards.length * (m.minSupport - 1) < m.support (shards.flatMap Prod.snd) ts →
        ts ∈ merged.map Pattern.tokens) ∧
      (m.minSupport = 1 → ∀ shard, ∃ whole,
        p.mineCorpus shard (shards.flatMap Prod.snd) = .ok whole ∧
          merged = mergePatterns whole.patterns) := by
  have hm := miner_eq_ok hpos
  refine ⟨_, _, hm, rfl, rfl, mineShards_eq hm shards, nodup_tokens_mergePatterns _,
    fun ts => Miner.mem_tokens_mergedChanges, fun q hq => ?_, fun ts hchange hlt => ?_,
    fun hone shard => ⟨_, mineCorpus_eq hm shard _, Miner.mergedChanges_eq_of_one hone⟩⟩
  · have hsum := Miner.support_of_mem_mergedChanges hq
    refine ⟨hsum, ?_⟩
    rw [hsum, Miner.support_flatMap]
    exact sum_filter_le _ _ shards
  · exact Miner.mem_tokens_mergedChanges.2 ⟨hchange, Miner.exists_frequent_shard hlt⟩

/-- Of one shard with an edit and one with the same edit twice, the edit is found with
support three. -/
theorem mineShards_refines_two_years :
    let p : Pipeline := ⟨{ Configuration.default with mining := ⟨1⟩ }, ⟨[]⟩, .python,
      ⟨.ofGrammars ⟨fun _ => .error "no grammar"⟩, .overlapping⟩⟩
    let edit : TokenSequence := [⟨.removed, "a"⟩, ⟨.added, "b"⟩]
    let shards := [("2019", [edit]), ("2020", [edit, edit])]
    0 < p.configuration.mining.minSupport ∧
      ∃ m merged, p.miner = .ok m ∧ p.mineShards shards = .ok merged ∧
        IsChange edit ∧ 2 * (1 - 1) < m.support (shards.flatMap Prod.snd) edit ∧
        ⟨edit, 3⟩ ∈ merged ∧
        ∃ whole, p.mineCorpus "all" [edit, edit, edit] = .ok whole ∧
          merged = mergePatterns whole.patterns := by
  intro p edit shards
  have hpos : 0 < p.configuration.mining.minSupport := by decide
  obtain ⟨m, merged, hm, -, -, hmerged, -, -, hsum, hpigeonhole, hone⟩ :=
    mineShards_refines p hpos shards
  have hchange : IsChange edit := ⟨by decide, ⟨.added, "b"⟩, by decide, by decide⟩
  obtain rfl : m = ⟨1, 15, by decide⟩ := Except.ok.inj (hm.symm.trans (miner_eq_ok hpos))
  have hlt : 2 * (1 - 1) < Miner.support ⟨1, 15, by decide⟩ (shards.flatMap Prod.snd) edit := by
    decide
  obtain ⟨q, hq, htokens⟩ := List.mem_map.1 (hpigeonhole edit hchange hlt)
  have hthree : q.support = 3 := by
    rw [(hsum q hq).1, htokens]
    decide
  have hedit : q = ⟨edit, 3⟩ := by rw [← htokens, ← hthree]
  exact ⟨hpos, _, merged, hm, hmerged, hchange, hlt, hedit ▸ hq, hone rfl "all"⟩

end Pipeline

end EditMining
