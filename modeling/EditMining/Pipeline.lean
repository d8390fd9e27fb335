import EditMining.Abstraction
import EditMining.Configuration.Validity
import EditMining.Mining
import EditMining.Shard.Store

/-!
# The pipeline

A pipeline holds all that the stages of a mining run need: a valid
configuration, the reserved names, the language of code whose file is not known,
and tools that are given (`Tools`): how code is split into tokens, and how texts are
searched.

A hunk on its way to patterns is abstracted and then cut into pairs. The same
pairs are used twice: those of the training records are diffed and mined, and
those of the held-out records become the texts that patterns are measured on, so
what is found in the ones can be recognised in the others.

The records of a shard are worked on one after the other, with one tally for all of
them. A record whose hunk fails for a reason confined to it is skipped. Any other
failure ends its shard: what came before is still mined, and the outcome says
why it is partial.
-/

namespace EditMining

/-- What is known of the files that a configuration names. -/
structure FileView where
  holds : String → Bool
  read : String → Except StorageFault String

/-- What a pipeline works with beside its own means. -/
structure Tools where
  tokenizers : Tokenizers
  matcher : Matcher

structure Pipeline where
  configuration : Configuration
  reserved : ReservedNames
  defaultLanguage : Language
  tools : Tools

/-- What happened to the records of a shard. -/
structure ShardStats where
  records : Nat
  emptySides : Nat
  unsupported : Nat
  skippedHunks : Nat
  sequencing : Tally
  oversizedSequences : Nat
  deriving DecidableEq, Inhabited, Repr

/-- Nothing has happened to so many records. -/
def ShardStats.start (records : Nat) : ShardStats where
  records := records
  emptySides := 0
  unsupported := 0
  skippedHunks := 0
  sequencing := .zero
  oversizedSequences := 0

/-- What mining a shard gives. -/
structure ShardOutcome where
  shard : String
  sequences : List TokenSequence
  patterns : List Pattern
  oversized : List TokenSequence
  stats : ShardStats
  /-- Why the shard was not finished. -/
  failure : Option String
  deriving DecidableEq, Inhabited, Repr

/-- What mining a corpus gives, as a shard without records. -/
def ShardOutcome.ofMining (shard : String) (corpus : List TokenSequence) (mined : MiningOutcome) :
    ShardOutcome where
  shard := shard
  sequences := corpus
  patterns := changePatterns mined.patterns
  oversized := mined.oversized
  stats := { ShardStats.start 0 with oversizedSequences := mined.oversized.length }
  failure := none

/-- What has come of the records of a shard so far. -/
structure ShardWork where
  stats : ShardStats
  sequences : List TokenSequence
  /-- Why there is no more to come. -/
  failure : Option String
  deriving DecidableEq, Inhabited, Repr

namespace ShardWork

/-- Nothing has come of so many records. -/
def start (records : Nat) : ShardWork :=
  ⟨.start records, [], none⟩

/-- One record more without code on one of its sides. -/
def countEmptySide (w : ShardWork) : ShardWork :=
  { w with stats := { w.stats with emptySides := w.stats.emptySides + 1 } }

/-- One record more in a language that is not known. -/
def countUnsupported (w : ShardWork) : ShardWork :=
  { w with stats := { w.stats with unsupported := w.stats.unsupported + 1 } }

/-- One record more that is skipped. -/
def countSkipped (w : ShardWork) : ShardWork :=
  { w with stats := { w.stats with skippedHunks := w.stats.skippedHunks + 1 } }

/-- The same, with another tally. -/
def withTally (w : ShardWork) (t : Tally) : ShardWork :=
  { w with stats := { w.stats with sequencing := t } }

end ShardWork

namespace Pipeline

/-- The pipeline for a configuration. -/
def create (files : FileView) (tools : Tools) (c : Configuration) : Result Pipeline := do
  c.validate files.holds
  let reserved ← ReservedNames.ofSettings files.read c.abstraction
  match Language.ofName? c.sequencing.language with
  | none =>
      .error
        (.config ("Unknown language: " ++ c.sequencing.language) (some "sequencing.language"))
  | some l => .ok ⟨c, reserved, l, tools⟩

/-- The language of a record: that of its file, or the default one where the
file is not known. -/
def languageOf (p : Pipeline) (r : Record) : Option Language :=
  match r.fileName with
  | some name => Language.ofPath? name
  | none => some p.defaultLanguage

variable {σ : Type}

/-- Abstract a hunk; one with too many lines is counted instead. -/
def abstractWithinCeiling (p : Pipeline) (o : Oracle σ) (tk : Tokenizer) (h : Hunk) :
    CountingSession σ (Option Hunk) :=
  if p.configuration.sequencing.maxHunkLines < h.maxSideLength then do
    modify fun t => { t with oversizedHunks := t.oversizedHunks + 1 }
    pure none
  else do
    let a ← CountingSession.lift (Abstraction.abstractHunk o p.reserved
      p.configuration.abstraction.normalizesFunctionNames tk h)
    pure (some a.hunk)

/-- The sequences of a hunk. -/
def sequenceHunk (p : Pipeline) (o : Oracle σ) (tk : Tokenizer) (h : Hunk) :
    CountingSession σ (List TokenSequence) := do
  match ← p.abstractWithinCeiling o tk h with
  | none => pure []
  | some a => Sequencing.sequenceHunk p.configuration.sequencing o tk a

/-! ## Training -/

/-- Sequence the records of a shard, up to the first one that fails for a reason not
confined to it. -/
def sequenceRecords (p : Pipeline) (o : Oracle σ) : List Record → ShardWork → StateM σ ShardWork
  | [], w => pure w
  | r :: rest, w =>
      if r.hunk.hasEmptySide then p.sequenceRecords o rest w.countEmptySide
      else
        match p.languageOf r with
        | none => p.sequenceRecords o rest w.countUnsupported
        | some l =>
            match p.tools.tokenizers.get l.key with
            | .error _ => p.sequenceRecords o rest w.countUnsupported
            | .ok tk => do
                let (result, t) ← (p.sequenceHunk o tk r.hunk).run.run w.stats.sequencing
                let w := w.withTally t
                match result with
                | .ok produced =>
                    p.sequenceRecords o rest { w with sequences := w.sequences ++ produced }
                | .error e =>
                    if e.isHunkLocal then p.sequenceRecords o rest w.countSkipped
                    else pure { w with failure := some e.message }

/-- What mines the sequences of a shard. -/
def miner (p : Pipeline) : Result Miner :=
  Miner.create p.configuration.mining.minSupport p.configuration.sequencing.maxSequenceTokens

/-- Mine a corpus as one shard. -/
def mineCorpus (p : Pipeline) (shard : String) (corpus : List TokenSequence) :
    Result ShardOutcome := do
  let miner ← p.miner
  .ok (.ofMining shard corpus (miner.mine corpus))

/-- Sequence the records of a shard and mine them. -/
def mineShard (p : Pipeline) (o : Oracle σ) (shard : Shard) : Session σ ShardOutcome :=
  ExceptT.mk do
    let w ← p.sequenceRecords o shard.records (.start shard.records.length)
    pure do
      let mined ← p.mineCorpus shard.id w.sequences
      .ok
        { mined with
          stats := { w.stats with oversizedSequences := mined.stats.oversizedSequences }
          failure := w.failure }

/-- Mine some records shard by shard. -/
def mine (p : Pipeline) (o : Oracle σ) (records : List Record) :
    Session σ (List ShardOutcome) :=
  (Shard.partition p.configuration.performance.sharding records).mapM (p.mineShard o)

/-! ## Held-out records -/

/-- The tokens of each line without anything between them, line by line, so that
no token is found across the end of a line. -/
def compactLines (tk : Tokenizer) (lines : List String) : Result String :=
  (lines.mapM tk.compact).map Text.joinLines

/-- A pair as a text on each side, if both split into tokens. -/
def compactPair? (tk : Tokenizer) (pair : Hunk) : Option HeldOutHunk :=
  match compactLines tk pair.condition, compactLines tk pair.consequent with
  | .ok condition, .ok consequent => some ⟨condition, consequent⟩
  | _, _ => none

/-- The pairs that a hunk is cut into once it is abstracted. -/
def cutHunk (p : Pipeline) (o : Oracle σ) (tk : Tokenizer) (h : Hunk) :
    CountingSession σ (List Hunk) := do
  match ← p.abstractWithinCeiling o tk h with
  | none => pure []
  | some a => Sequencing.splitHunk p.configuration.sequencing o tk.language a

/-- The texts that one record gives; a record that fails gives none. What is counted
on the way is not kept. -/
def prepareRecord (p : Pipeline) (o : Oracle σ) (r : Record) : StateM σ (List HeldOutHunk) :=
  if r.hunk.hasEmptySide then pure []
  else
    match p.languageOf r with
    | none => pure []
    | some l =>
        match p.tools.tokenizers.get l.key with
        | .error _ => pure []
        | .ok tk => do
            match (← (p.cutHunk o tk r.hunk).run.run .zero).1 with
            | .ok pairs => pure (pairs.filterMap (compactPair? tk))
            | .error _ => pure []

/-- The texts that patterns are measured on. -/
def prepareHeldOut (p : Pipeline) (o : Oracle σ) (records : List Record) :
    StateM σ (List HeldOutHunk) := do
  let prepared ← records.mapM (p.prepareRecord o)
  pure prepared.flatten

/-- Filter patterns by how they do on held-out records. -/
def filter (p : Pipeline) (o : Oracle σ) (patterns : List Pattern) (heldOut : List Record) :
    Session σ (List ScoredPattern × FilterReport) :=
  ExceptT.mk do
    let heldOut ← p.prepareHeldOut o heldOut
    pure (Filter.run p.tools.matcher p.configuration.filter heldOut patterns)

/-! ## Whole runs -/

/-- All that a run gives. -/
structure Run where
  shards : List ShardOutcome
  merged : List Pattern
  artifact : List ScoredPattern
  report : FilterReport
  deriving Inhabited

/-- The patterns of all shards together. -/
def mergeShards (outcomes : List ShardOutcome) : List Pattern :=
  (outcomes.foldl (fun store outcome => store.insert outcome.shard outcome.patterns)
    ShardStore.empty).merged

/-- Mine the training records, and filter what is found by the held-out ones. -/
def run (p : Pipeline) (o : Oracle σ) (training heldOut : List Record) : Session σ Run := do
  let shards ← p.mine o training
  let merged := mergeShards shards
  let (artifact, report) ← p.filter o merged heldOut
  pure ⟨shards, merged, artifact, report⟩

/-- How far the work on some shards is each time one of them is finished: what
is said, and which share of the shards is done. -/
def progress (outcomes : List ShardOutcome) : List (String × Float) :=
  let total := (max outcomes.length 1).toUInt64.toFloat
  outcomes.zipIdx.map fun (outcome, k) =>
    ("shard " ++ outcome.shard, (k + 1).toUInt64.toFloat / total)

end Pipeline

end EditMining
