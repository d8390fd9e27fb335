import EditMining.Proofs.OrderIndependence
import EditMining.Proofs.ShardBounds
import EditMining.Proofs.ShardPartition
import EditMining.Proofs.ShardStore

/-!
# Shards on their way into files

What is mined shard by shard is put down under the ids of the shards, and later read,
merged and mined again. So it matters here what can be said of the outcomes apart from
the records they come from: their ids are all different and lead out of no directory,
their patterns are those of their sequences as one corpus, and no support exceeds the
number of sequences, alone or merged (`support_lt_of_mem_mergeShards`).
-/

namespace EditMining

/-! ## Shards and their names -/

namespace Shard

/-- No id of a shard leads out of a directory. -/
theorem separator_notMem_of_mem_ids {sharding : Sharding} {records : List Record} {id : String}
    (h : id ∈ ids sharding records) : '/' ∉ id.toList := by
  obtain ⟨r, -, rfl⟩ := mem_ids.1 h
  cases sharding with
  | single =>
      show '/' ∉ singleId.toList
      decide
  | byYear =>
      rw [idOf]
      cases r.year with
      | none => decide
      | some year => exact notMem_yearId (by decide) (by decide) year

end Shard

/-! ## What mining gives -/

namespace Pipeline

variable {σ : Type} {f : Language → Hunk → Result StructuralDiff} {o : Oracle σ} {p : Pipeline}
  {m : Miner} {records : List Record} {outcomes : List ShardOutcome} {s s' : σ}

theorem minedShards_forgets_memory (ho : o.AnswersBy f) (m : Miner) (records : List Record)
    (s s' : σ) :
    ((p.minedShards m o records).run s).1 = ((p.minedShards m o records).run s').1 := by
  rw [minedShards_run_fst ho m records s s, minedShards_run_fst ho m records s' s]

theorem map_shard_minedShards (p : Pipeline) (m : Miner) (o : Oracle σ) (records : List Record)
    (s : σ) :
    ((p.minedShards m o records).run s).1.map ShardOutcome.shard =
      Shard.ids p.configuration.performance.sharding records :=
  (outcomes_of_shards p m o _ s).1.trans (Shard.map_id_partition _ records)

theorem nodup_shard_minedShards (p : Pipeline) (m : Miner) (o : Oracle σ) (records : List Record)
    (s : σ) : (((p.minedShards m o records).run s).1.map ShardOutcome.shard).Nodup := by
  rw [map_shard_minedShards, ← Shard.map_id_partition]
  exact (Shard.isOrdered_partition _ records).nodup_ids

theorem separator_notMem_of_mem_minedShards {outcome : ShardOutcome}
    (h : outcome ∈ ((p.minedShards m o records).run s).1) : '/' ∉ outcome.shard.toList := by
  have hid : outcome.shard ∈ ((p.minedShards m o records).run s).1.map ShardOutcome.shard :=
    List.mem_map_of_mem h
  rw [map_shard_minedShards] at hid
  exact Shard.separator_notMem_of_mem_ids hid

/-- The patterns of a shard are those of its sequences. -/
theorem patterns_of_mem_minedShards {outcome : ShardOutcome}
    (h : outcome ∈ ((p.minedShards m o records).run s).1) :
    outcome.patterns = m.changes outcome.sequences := by
  obtain ⟨shard, t, rfl⟩ := (outcomes_of_shards p m o _ s).2 outcome h
  rfl

theorem mergeShards_eq_mergePatterns (hids : (outcomes.map ShardOutcome.shard).Nodup) :
    mergeShards outcomes = mergePatterns (outcomes.flatMap ShardOutcome.patterns) := by
  have hfound : ((outcomes.map found).map (·.1)).Nodup := by
    rw [List.map_map]
    exact hids
  rw [mergeShards_eq, ShardStore.merged_foldl_insert hfound, List.flatMap_map]
  rfl

theorem mergeShards_singleton (o : ShardOutcome) : mergeShards [o] = mergePatterns o.patterns :=
  congrArg mergePatterns (List.append_nil o.patterns)

theorem support_le_length (m : Miner) (corpus : List TokenSequence) (ts : List Token) :
    m.support corpus ts ≤ corpus.length :=
  Nat.le_trans List.countP_le_length (List.length_filter_le _ _)

theorem support_le_of_mem_mergedChanges {shards : List (String × List TokenSequence)}
    {q : Pattern} (hq : q ∈ m.mergedChanges shards) :
    q.support ≤ (shards.flatMap Prod.snd).length := by
  have hshares : q.support ≤ (shards.map fun shard => m.support shard.2 q.tokens).sum := by
    rw [Miner.support_of_mem_mergedChanges hq]
    exact Mining.sum_filter_le _ _ shards
  rw [← m.support_flatMap] at hshares
  exact Nat.le_trans hshares (support_le_length _ _ _)

/-- Supports fit a word if the number of sequences does. -/
theorem support_lt_of_mem_mergeShards
    (hcount : (((p.minedShards m o records).run s).1.flatMap ShardOutcome.sequences).length <
      Decimal.wordLimit) :
    ∀ q ∈ mergeShards ((p.minedShards m o records).run s).1, q.support < Decimal.wordLimit := by
  intro q hq
  have hshards : mergeShards ((p.minedShards m o records).run s).1 =
      m.mergedChanges (((p.minedShards m o records).run s).1.map fun outcome =>
        (outcome.shard, outcome.sequences)) := by
    rw [mergeShards_eq_mergePatterns (nodup_shard_minedShards p m o records s),
      Miner.mergedChanges, List.flatMap_map]
    exact congrArg mergePatterns
      (List.flatMap_congr fun outcome houtcome => patterns_of_mem_minedShards houtcome)
  rw [hshards] at hq
  have hle := support_le_of_mem_mergedChanges hq
  rw [List.flatMap_map] at hle
  exact Nat.lt_of_le_of_lt hle hcount

theorem support_lt_of_mem_minedShards {outcome : ShardOutcome}
    (houtcome : outcome ∈ ((p.minedShards m o records).run s).1)
    (hcount : (((p.minedShards m o records).run s).1.flatMap ShardOutcome.sequences).length <
      Decimal.wordLimit) :
    ∀ q ∈ outcome.patterns, q.support < Decimal.wordLimit := by
  intro q hq
  rw [patterns_of_mem_minedShards houtcome] at hq
  obtain ⟨-, hsupport, -⟩ := Miner.mem_changes.1 hq
  have hshard : outcome.sequences.length ≤
      (((p.minedShards m o records).run s).1.flatMap ShardOutcome.sequences).length := by
    rw [List.length_flatMap]
    exact List.le_sum_of_mem (List.mem_map_of_mem houtcome)
  rw [hsupport]
  exact Nat.lt_of_le_of_lt (Nat.le_trans (support_le_length _ _ _) hshard) hcount

end Pipeline

end EditMining
