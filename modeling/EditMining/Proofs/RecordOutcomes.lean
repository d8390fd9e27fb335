import EditMining.Proofs.AcceptedConfigurations
import EditMining.Proofs.CountingInPlace

/-!
# Records one by one

The records of a shard share one tally and one list of sequences, which grow as the
work goes on, and it ends at the first failure that is not confined to a hunk. What
comes of it is told here by what becomes of each record on its own, with a tally that
begins at zero (`Pipeline.recordOutcome`): the sequences are put together, the tallies
are added, and of the failures the first one counts
(`Pipeline.sequenceRecords_eq`, `Pipeline.mineShard_eq`).

That this is so rests on two facts about the shared tally. What a hunk adds to it does
not depend on what there was (`Pipeline.handedOn_sequenceHunk_countOn`), and a hunk that
fails adds nothing (`Pipeline.isAtomic_sequenceHunk`).
-/

namespace EditMining

variable {σ : Type}

/-! ## Tallies -/

namespace Tally

theorem ext {s t : Tally} (h₁ : s.oversizedHunks = t.oversizedHunks)
    (h₂ : s.untokenizable = t.untokenizable) (h₃ : s.oversizedSequences = t.oversizedSequences) :
    s = t := by
  cases s
  cases t
  simp_all

theorem add_zero (t : Tally) : t + .zero = t := rfl

theorem zero_add (t : Tally) : .zero + t = t :=
  ext (Nat.zero_add _) (Nat.zero_add _) (Nat.zero_add _)

theorem add_assoc (s t u : Tally) : s + t + u = s + (t + u) :=
  ext (Nat.add_assoc _ _ _) (Nat.add_assoc _ _ _) (Nat.add_assoc _ _ _)

/-- What is counted for a list of hunks or records, each on its own. -/
def sum (ts : List Tally) : Tally :=
  ts.foldr (· + ·) .zero

theorem sum_cons (t : Tally) (ts : List Tally) : sum (t :: ts) = t + sum ts := rfl

/-- The same result, counted on from a tally. -/
def countOn {α : Type} (t : Tally) (made : α × Tally) : α × Tally :=
  (made.1, t + made.2)

end Tally

/-! What a hunk counts is added to what there was. -/

namespace Sequencing

theorem sequencedPair_countOn (s : SequencingSettings) (tk : Tokenizer) (pair : Hunk)
    (t : Tally) : sequencedPair s tk pair t = t.countOn (sequencedPair s tk pair .zero) := by
  rw [sequencedPair, sequencedPair]
  split
  · rfl
  · split
    · rfl
    · split <;> rfl

theorem sequencedPairs_countOn (s : SequencingSettings) (tk : Tokenizer) (pairs : List Hunk)
    (t : Tally) : sequencedPairs s tk pairs t = t.countOn (sequencedPairs s tk pairs .zero) := by
  induction pairs generalizing t with
  | nil => rfl
  | cons pair rest ih =>
      rw [sequencedPairs, sequencedPairs, sequencedPair_countOn s tk pair t]
      dsimp only [Tally.countOn]
      rw [ih (t + _), ih (sequencedPair s tk pair .zero).2]
      exact Prod.ext rfl (Tally.add_assoc _ _ _)

theorem handedOn_splitHunk_countOn (s : SequencingSettings) (o : Oracle σ) (l : Language)
    (h : Hunk) (t : Tally) :
    (splitHunk s o l h).handedOn t = t.countOn <$> (splitHunk s o l h).handedOn .zero := by
  rw [handedOn_splitHunk, handedOn_splitHunk]
  split
  · rfl
  · rw [map_bind]
    rfl

end Sequencing

namespace Pipeline

theorem handedOn_sequenceHunk_countOn (p : Pipeline) (o : Oracle σ) (tk : Tokenizer) (h : Hunk)
    (t : Tally) :
    (p.sequenceHunk o tk h).handedOn t =
      t.countOn <$> (p.sequenceHunk o tk h).handedOn .zero := by
  have habstract : (p.abstractWithinCeiling o tk h).handedOn t =
      t.countOn <$> (p.abstractWithinCeiling o tk h).handedOn .zero := by
    rw [handedOn_abstractWithinCeiling, handedOn_abstractWithinCeiling]
    split
    · rfl
    · rw [map_bind]
      rfl
  have hcut : (p.cutHunk o tk h).handedOn t =
      t.countOn <$> (p.cutHunk o tk h).handedOn .zero := by
    rw [handedOn_cutHunk, handedOn_cutHunk, habstract, map_bind, bind_map_left]
    refine bind_congr fun made => ?_
    obtain ⟨_ | a, u⟩ := made
    · rfl
    · show (Sequencing.splitHunk _ o _ a).handedOn (t + u) =
        t.countOn <$> (Sequencing.splitHunk _ o _ a).handedOn u
      rw [Sequencing.handedOn_splitHunk_countOn, Sequencing.handedOn_splitHunk_countOn _ _ _ _ u,
        Functor.map_map]
      refine congrArg (· <$> _) (funext fun made => ?_)
      exact Prod.ext rfl (Tally.add_assoc _ _ _)
  rw [handedOn_sequenceHunk, handedOn_sequenceHunk, hcut, map_bind, bind_map_left]
  refine bind_congr fun made => congrArg pure ?_
  show Sequencing.sequencedPairs _ tk made.1 (t + made.2) =
    t.countOn (Sequencing.sequencedPairs _ tk made.1 made.2)
  rw [Sequencing.sequencedPairs_countOn, Sequencing.sequencedPairs_countOn _ _ _ made.2]
  exact Prod.ext rfl (Tally.add_assoc _ _ _)

/-- With any tally a hunk comes to the same as with none; it adds what it counts, if it
does not fail. -/
theorem runFrom_sequenceHunk (p : Pipeline) (o : Oracle σ) (tk : Tokenizer) (h : Hunk)
    (t : Tally) (s : σ) :
    (p.sequenceHunk o tk h).runFrom t s =
      match ((p.sequenceHunk o tk h).handedOn .zero).run.run s with
      | (.ok (produced, counted), s') => ((.ok produced, t + counted), s')
      | (.error e, s') => ((.error e, t), s') := by
  have hcounted := congrArg (fun x => x.run.run s) (p.handedOn_sequenceHunk_countOn o tk h t)
  rw [ExceptT.run_map, StateT.run_map] at hcounted
  cases hrun : (p.sequenceHunk o tk h).runFrom t s with
  | mk made s' =>
      obtain ⟨result, t'⟩ := made
      cases hzero : ((p.sequenceHunk o tk h).handedOn .zero).run.run s with
      | mk result' s'' =>
          rw [hzero] at hcounted
          cases result with
          | ok produced =>
              rw [CountingSession.run_handedOn_of_ok hrun] at hcounted
              cases result' with
              | ok made =>
                  cases hcounted
                  rfl
              | error e => cases hcounted
          | error e =>
              rw [CountingSession.run_handedOn_of_error hrun] at hcounted
              rw [p.isAtomic_sequenceHunk o tk h t s e t' s' hrun]
              cases result' with
              | ok made => cases hcounted
              | error e' =>
                  cases hcounted
                  rfl

end Pipeline

/-! ## What becomes of a record -/

/-- What became of one record. -/
inductive RecordOutcome where
  | emptySide
  | unsupported
  | skipped (e : Error)
  | failed (e : Error)
  | sequenced (sequences : List TokenSequence) (tally : Tally)
  deriving DecidableEq, Inhabited, Repr

namespace RecordOutcome

def sequences : RecordOutcome → List TokenSequence
  | .sequenced ss _ => ss
  | _ => []

def tally : RecordOutcome → Tally
  | .sequenced _ t => t
  | _ => .zero

/-- The failure that ends the shard of the record. -/
def failure? : RecordOutcome → Option Error
  | .failed e => some e
  | _ => none

def isEmptySide : RecordOutcome → Bool
  | .emptySide => true
  | _ => false

def isUnsupported : RecordOutcome → Bool
  | .unsupported => true
  | _ => false

def isSkipped : RecordOutcome → Bool
  | .skipped _ => true
  | _ => false

/-- The outcome for a record whose hunk was worked on. -/
def ofResult : Result (List TokenSequence × Tally) → RecordOutcome
  | .ok (ss, t) => .sequenced ss t
  | .error e => if e.isHunkLocal then .skipped e else .failed e

end RecordOutcome

/-- The tallies of a shard of some size, given what became of the records up to
where the work ended. -/
def ShardStats.ofOutcomes (records : Nat) (outcomes : List RecordOutcome)
    (oversizedSequences : Nat) : ShardStats where
  records := records
  emptySides := outcomes.countP RecordOutcome.isEmptySide
  unsupported := outcomes.countP RecordOutcome.isUnsupported
  skippedHunks := outcomes.countP RecordOutcome.isSkipped
  sequencing := Tally.sum (outcomes.map RecordOutcome.tally)
  oversizedSequences := oversizedSequences

namespace Pipeline

/-- The tokenizer for the code of a record, if the record is worked on. -/
def tokenizerFor? (p : Pipeline) (r : Record) : Option Tokenizer :=
  (p.languageOf r).bind fun l => (p.tools.tokenizers.get l.key).toOption

/-- What becomes of a record on its own. -/
def recordOutcome (p : Pipeline) (o : Oracle σ) (r : Record) : StateM σ RecordOutcome :=
  if r.hunk.hasEmptySide then pure .emptySide
  else
    match p.tokenizerFor? r with
    | none => pure .unsupported
    | some tk => do
        let result ← ((p.sequenceHunk o tk r.hunk).handedOn .zero).run
        pure (.ofResult result)

/-- What becomes of some records, up to the first one that fails. -/
def recordOutcomes (p : Pipeline) (o : Oracle σ) : List Record → StateM σ (List RecordOutcome)
  | [] => pure []
  | r :: rest => do
      let outcome ← p.recordOutcome o r
      if outcome.failure?.isSome then pure [outcome]
      else
        let more ← p.recordOutcomes o rest
        pure (outcome :: more)

end Pipeline

/-! ## The work on a shard -/

namespace ShardWork

/-- The work behind one record more. -/
def add (w : ShardWork) : RecordOutcome → ShardWork
  | .emptySide => w.countEmptySide
  | .unsupported => w.countUnsupported
  | .skipped _ => w.countSkipped
  | .failed e => { w with failure := some e.message }
  | .sequenced ss t =>
      { w.withTally (w.stats.sequencing + t) with sequences := w.sequences ++ ss }

/-- The work behind some records more, of which the last one may have failed. -/
def after (w : ShardWork) (outcomes : List RecordOutcome) : ShardWork where
  stats :=
    { w.stats with
      emptySides := w.stats.emptySides + outcomes.countP RecordOutcome.isEmptySide
      unsupported := w.stats.unsupported + outcomes.countP RecordOutcome.isUnsupported
      skippedHunks := w.stats.skippedHunks + outcomes.countP RecordOutcome.isSkipped
      sequencing := w.stats.sequencing + Tally.sum (outcomes.map RecordOutcome.tally) }
  sequences := w.sequences ++ outcomes.flatMap RecordOutcome.sequences
  failure := (outcomes.findSome? RecordOutcome.failure?).map Error.message

theorem after_nil {w : ShardWork} (hw : w.failure = none) : w.after [] = w := by
  obtain ⟨stats, sequences, failure⟩ := w
  subst hw
  simp [after, Tally.sum, Tally.add_zero]

theorem after_cons {outcome : RecordOutcome} (houtcome : outcome.failure? = none)
    (w : ShardWork) (outcomes : List RecordOutcome) :
    w.after (outcome :: outcomes) = (w.add outcome).after outcomes := by
  cases outcome with
  | failed e => nomatch houtcome
  | emptySide | unsupported | skipped e | sequenced ss t =>
      simp [-List.map_findSome?, after, add, countEmptySide, countUnsupported, countSkipped,
        withTally, Tally.sum_cons, Tally.zero_add, Tally.add_assoc, Nat.add_assoc, Nat.add_comm 1,
        List.countP_cons, List.findSome?_cons, RecordOutcome.isEmptySide,
        RecordOutcome.isUnsupported, RecordOutcome.isSkipped, RecordOutcome.tally,
        RecordOutcome.sequences, RecordOutcome.failure?]

theorem after_failed (w : ShardWork) (e : Error) :
    w.after [.failed e] = w.add (.failed e) := by
  simp [after, add, Tally.sum, Tally.add_zero, RecordOutcome.isEmptySide,
    RecordOutcome.isUnsupported, RecordOutcome.isSkipped, RecordOutcome.tally,
    RecordOutcome.sequences, RecordOutcome.failure?]

theorem failure_add {w : ShardWork} {outcome : RecordOutcome} (hw : w.failure = none)
    (houtcome : outcome.failure? = none) : (w.add outcome).failure = none := by
  cases outcome with
  | failed e => nomatch houtcome
  | emptySide | unsupported | skipped e | sequenced ss t => exact hw

end ShardWork

/-- The shared tally is the sum of what the records count on their own. -/
theorem ShardWork.after_start (records : Nat) (outcomes : List RecordOutcome) :
    (start records).after outcomes =
      ⟨.ofOutcomes records outcomes 0, outcomes.flatMap RecordOutcome.sequences,
        (outcomes.findSome? RecordOutcome.failure?).map Error.message⟩ := by
  simp [after, start, ShardStats.start, ShardStats.ofOutcomes, Tally.zero_add]

namespace Pipeline

/-- A record changes the work by what becomes of it on its own. -/
theorem sequenceRecords_cons (p : Pipeline) (o : Oracle σ) (r : Record) (rest : List Record)
    (w : ShardWork) :
    p.sequenceRecords o (r :: rest) w = (do
      let outcome ← p.recordOutcome o r
      if outcome.failure?.isSome then pure (w.add outcome)
      else p.sequenceRecords o rest (w.add outcome)) := by
  rw [sequenceRecords, recordOutcome, tokenizerFor?]
  split
  · rfl
  · cases p.languageOf r with
    | none => rfl
    | some l =>
        dsimp only [Option.bind_some]
        cases p.tools.tokenizers.get l.key with
        | error e => rfl
        | ok tk =>
            refine StateT.ext fun s => ?_
            have hrun := runFrom_sequenceHunk p o tk r.hunk w.stats.sequencing s
            rw [CountingSession.runFrom] at hrun
            dsimp only [Except.toOption]
            simp only [StateT.run_bind, hrun]
            cases ((p.sequenceHunk o tk r.hunk).handedOn .zero).run.run s with
            | mk result s' =>
                cases result with
                | ok made => rfl
                | error e =>
                    show StateT.run (if e.isHunkLocal = true then
                          p.sequenceRecords o rest w.countSkipped
                        else pure { w with failure := some e.message }) s' =
                      StateT.run (if (RecordOutcome.ofResult (.error e)).failure?.isSome = true then
                          pure (w.add (.ofResult (.error e)))
                        else p.sequenceRecords o rest (w.add (.ofResult (.error e)))) s'
                    rw [RecordOutcome.ofResult]
                    cases e.isHunkLocal <;> rfl

/-- The work on some records is made of what becomes of each of them on its own, up to
the first one that fails. -/
theorem sequenceRecords_eq (p : Pipeline) (o : Oracle σ) (rs : List Record) {w : ShardWork}
    (hw : w.failure = none) :
    p.sequenceRecords o rs w = (do
      let outcomes ← p.recordOutcomes o rs
      pure (w.after outcomes)) := by
  induction rs generalizing w with
  | nil => exact congrArg pure (ShardWork.after_nil hw).symm
  | cons r rest ih =>
      rw [sequenceRecords_cons, recordOutcomes, bind_assoc]
      refine bind_congr fun outcome => ?_
      cases houtcome : outcome.failure? with
      | some e =>
          cases outcome with
          | failed e' => exact congrArg pure (w.after_failed e').symm
          | emptySide | unsupported | skipped e | sequenced ss t => nomatch houtcome
      | none =>
          rw [if_neg (by simp), if_neg (by simp), ih (ShardWork.failure_add hw houtcome),
            bind_assoc]
          exact bind_congr fun more => congrArg pure (ShardWork.after_cons houtcome w more).symm

end Pipeline

/-! ## Mining a shard -/

/-- The outcome of a shard, given what became of its records. -/
def ShardOutcome.ofOutcomes (m : Miner) (shard : Shard) (outcomes : List RecordOutcome) :
    ShardOutcome :=
  let corpus := outcomes.flatMap RecordOutcome.sequences
  let mined := ofMining shard.id corpus (m.mine corpus)
  { mined with
    stats := .ofOutcomes shard.records.length outcomes mined.stats.oversizedSequences
    failure := (outcomes.findSome? RecordOutcome.failure?).map Error.message }

/-- Work that does not fail, shard by shard. -/
theorem mapM_lift {α β : Type} (f : α → StateM σ β) (xs : List α) :
    (xs.mapM fun x => (ExceptT.lift (f x) : Session σ β)) = ExceptT.lift (xs.mapM f) := by
  induction xs with
  | nil => rfl
  | cons x rest ih =>
      rw [List.mapM_cons, List.mapM_cons, ih]
      rfl

namespace Pipeline

variable {p : Pipeline} {m : Miner}

/-- Mining a shard, record by record. -/
def minedBy (p : Pipeline) (m : Miner) (o : Oracle σ) (shard : Shard) : StateM σ ShardOutcome := do
  let outcomes ← p.recordOutcomes o shard.records
  pure (.ofOutcomes m shard outcomes)

/-- Once there is a miner no shard fails to be mined. -/
theorem mineShard_eq (hm : p.miner = .ok m) (o : Oracle σ) (shard : Shard) :
    p.mineShard o shard = ExceptT.lift (p.minedBy m o shard) := by
  refine ExceptT.ext ?_
  rw [mineShard, ExceptT.run_mk, sequenceRecords_eq p o shard.records rfl, bind_assoc,
    ExceptT.run_lift, minedBy, map_bind]
  refine bind_congr fun outcomes => ?_
  rw [pure_bind, mineCorpus_eq hm, ShardWork.after_start]
  rfl

/-- Mining the records shard by shard. -/
def minedShards (p : Pipeline) (m : Miner) (o : Oracle σ) (records : List Record) :
    StateM σ (List ShardOutcome) :=
  (Shard.partition p.configuration.performance.sharding records).mapM (p.minedBy m o)

theorem mine_eq (hm : p.miner = .ok m) (o : Oracle σ) (records : List Record) :
    p.mine o records = ExceptT.lift (p.minedShards m o records) := by
  rw [mine, minedShards, ← mapM_lift]
  exact congrArg (List.mapM · _) (funext fun shard => mineShard_eq hm o shard)

theorem mine_run_fst (hm : p.miner = .ok m) (o : Oracle σ) (records : List Record) (s : σ) :
    ((p.mine o records).run.run s).1 = .ok ((p.minedShards m o records).run s).1 := by
  rw [mine_eq hm]
  rfl

/-- Records that make up one shard. -/
theorem minedShards_run_fst_of_one (m : Miner) (o : Oracle σ) {records : List Record}
    {shard : Shard}
    (h : Shard.partition p.configuration.performance.sharding records = [shard]) (s : σ) :
    ((p.minedShards m o records).run s).1 =
      [.ofOutcomes m shard ((p.recordOutcomes o shard.records).run s).1] := by
  rw [minedShards, h]
  rfl

/-! ## Held-out records -/

theorem prepareRecord_eq (p : Pipeline) (o : Oracle σ) (r : Record) :
    p.prepareRecord o r =
      if r.hunk.hasEmptySide then pure []
      else
        (match p.tokenizerFor? r with
        | none => pure []
        | some tk => do
            match ← ((p.cutHunk o tk r.hunk).handedOn .zero).run with
            | .ok (pairs, _) => pure (pairs.filterMap (compactPair? tk))
            | .error _ => pure []) := by
  rw [prepareRecord, tokenizerFor?]
  split
  · rfl
  · cases p.languageOf r with
    | none => rfl
    | some l =>
        dsimp only [Option.bind_some]
        cases p.tools.tokenizers.get l.key with
        | error e => rfl
        | ok tk =>
            refine StateT.ext fun s => ?_
            dsimp only [Except.toOption]
            simp only [StateT.run_bind, CountingSession.run_handedOn, CountingSession.runFrom]
            cases ((p.cutHunk o tk r.hunk).run.run .zero).run s with
            | mk made s' =>
                obtain ⟨result, t⟩ := made
                cases result <;> rfl

/-! ## Whole runs -/

/-- All that a run gives is made of the shards and of what is filtered. -/
def Run.ofFiltered (shards : List ShardOutcome) (filtered : List ScoredPattern × FilterReport) :
    Run :=
  ⟨shards, mergeShards shards, filtered.1, filtered.2⟩

/-- Once there is a miner, a run fails only where filtering does. -/
theorem run_run_fst (hm : p.miner = .ok m) (o : Oracle σ) (training heldOut : List Record)
    (s : σ) :
    ((p.run o training heldOut).run.run s).1 =
      let shards := (p.minedShards m o training).run s
      (((p.filter o (mergeShards shards.1) heldOut).run.run shards.2).1).map
        (Run.ofFiltered shards.1) := by
  have hmine : (p.mine o training).run.run s =
      (.ok ((p.minedShards m o training).run s).1, ((p.minedShards m o training).run s).2) := by
    rw [mine_eq hm]
    rfl
  rw [run, run_bind_of_ok hmine]
  exact map_run_fst (p.filter o _ heldOut) (Run.ofFiltered _) _

theorem shards_of_run (hm : p.miner = .ok m) {o : Oracle σ} {training heldOut : List Record}
    {s : σ} {r : Run} (h : ((p.run o training heldOut).run.run s).1 = .ok r) :
    r.shards = ((p.minedShards m o training).run s).1 ∧ r.merged = mergeShards r.shards := by
  rw [run_run_fst hm] at h
  dsimp only at h
  cases hfilter : ((p.filter o (mergeShards ((p.minedShards m o training).run s).1) heldOut).run.run
      ((p.minedShards m o training).run s).2).1 with
  | error e =>
      rw [hfilter] at h
      nomatch h
  | ok filtered =>
      rw [hfilter] at h
      cases h
      exact ⟨rfl, rfl⟩

end Pipeline

end EditMining
