import EditMining.Language.Lexer
import EditMining.Proofs.RecordOutcomes
import EditMining.Proofs.ShardedMining
import EditMining.Proofs.TokenDiff

/-!
# What a shard produces is within bounds

A configuration that passes its checks makes a pipeline whose miner can be made
(`exists_miner_of_create`). From then on nothing fails: an oracle may answer whatever it
likes, or not at all, a tokenizer may be missing, and mining every shard gives an outcome.

The ceiling on the length of a sequence is enforced where sequences are made.
The miner puts longer ones aside, so it puts none aside, and a pattern is no
longer than a sequence that contains it. What is shown of each stage holds of
whatever it returns, for any memory of the oracle (`Returns`); hence it holds of
shards that are mined one after the other as of shards that are mined at once.
-/

namespace EditMining

/-- What a configuration promises of a sequence. -/
structure TokenSequence.WithinBounds (maxLength : Nat) (ts : TokenSequence) : Prop where
  nonempty : 1 ≤ ts.length
  length_le : ts.length ≤ maxLength
  alternating : ts.IsChain fun t u => t.polarity ≠ u.polarity

/-- What a configuration promises of a pattern of a shard with some number of
sequences. -/
structure Pattern.WithinBounds (c : Configuration) (sequences : Nat) (q : Pattern) : Prop where
  two_le_length : 2 ≤ q.tokens.length
  length_le : q.tokens.length ≤ c.sequencing.maxSequenceTokens
  edits : ∃ t ∈ q.tokens, t.polarity ≠ .kept
  minSupport_le : c.mining.minSupport ≤ q.support
  support_le : q.support ≤ sequences

/-- What a configuration promises of a shard. -/
structure ShardOutcome.WithinBounds (c : Configuration) (outcome : ShardOutcome) : Prop where
  sequences : ∀ ts ∈ outcome.sequences,
    TokenSequence.WithinBounds c.sequencing.maxSequenceTokens ts
  oversized : outcome.oversized = []
  oversizedSequences : outcome.stats.oversizedSequences = 0
  patterns : ∀ q ∈ outcome.patterns, q.WithinBounds c outcome.sequences.length

/-! ## Sequences -/

variable {σ : Type} {o : Oracle σ}

namespace Sequencing

variable {st : SequencingSettings} {tk : Tokenizer}

theorem withinBounds_of_sequencedPair {pair : Hunk} {t : Tally} {ts : TokenSequence}
    (h : (sequencedPair st tk pair t).1 = some ts) :
    TokenSequence.WithinBounds st.maxSequenceTokens ts := by
  rw [sequencedPair] at h
  cases hdiff : tokenDiff tk pair with
  | error e =>
      rw [hdiff] at h
      cases h
  | ok us =>
      simp only [hdiff] at h
      split at h
      · cases h
      · next hnonempty =>
          split at h
          · cases h
          · next hshort =>
              cases h
              obtain ⟨before, -, hrest⟩ := exists_of_bind_eq_ok hdiff
              obtain ⟨behind, -, hfused⟩ := exists_of_bind_eq_ok hrest
              cases hfused
              refine ⟨List.length_pos_of_ne_nil fun hnil => hnonempty ?_, Nat.le_of_not_lt hshort,
                TokenDiff.isChain_fuse _⟩
              rw [hnil]
              rfl

theorem withinBounds_of_mem_sequencedPairs {pairs : List Hunk} {t : Tally} {ts : TokenSequence}
    (h : ts ∈ (sequencedPairs st tk pairs t).1) :
    TokenSequence.WithinBounds st.maxSequenceTokens ts := by
  induction pairs generalizing t with
  | nil => nomatch h
  | cons pair rest ih =>
      rw [sequencedPairs] at h
      rcases List.mem_append.1 h with h | h
      · exact withinBounds_of_sequencedPair (Option.mem_toList.1 h)
      · exact ih h

end Sequencing

namespace Pipeline

variable {p : Pipeline} {ts : TokenSequence}

theorem returns_sequenceHunk (tk : Tokenizer) (h : Hunk) (t : Tally) :
    Returns (fun made => ∀ ts ∈ made.1,
        TokenSequence.WithinBounds p.configuration.sequencing.maxSequenceTokens ts)
      ((p.sequenceHunk o tk h).handedOn t) := by
  rw [handedOn_sequenceHunk]
  exact Returns.bind (Q := fun _ => True) (fun _ _ _ => trivial) fun _ _ =>
    Returns.pure fun _ hts => Sequencing.withinBounds_of_mem_sequencedPairs hts

theorem withinBounds_of_mem_recordOutcome {r : Record} {s : σ}
    (h : ts ∈ ((p.recordOutcome o r).run s).1.sequences) :
    TokenSequence.WithinBounds p.configuration.sequencing.maxSequenceTokens ts := by
  rw [recordOutcome] at h
  split at h
  · cases h
  · split at h
    · cases h
    · next tk _ =>
        have hresult := returns_sequenceHunk (p := p) (o := o) tk r.hunk .zero s
        change ts ∈ (RecordOutcome.ofResult
          (((p.sequenceHunk o tk r.hunk).handedOn .zero).run.run s).1).sequences at h
        cases hmade : (((p.sequenceHunk o tk r.hunk).handedOn .zero).run.run s).1 with
        | ok made =>
            rw [hmade] at h
            exact hresult made hmade ts h
        | error e =>
            rw [hmade, RecordOutcome.ofResult] at h
            split at h <;> cases h

theorem withinBounds_of_mem_recordOutcomes {rs : List Record} {s : σ}
    (h : ts ∈ ((p.recordOutcomes o rs).run s).1.flatMap RecordOutcome.sequences) :
    TokenSequence.WithinBounds p.configuration.sequencing.maxSequenceTokens ts := by
  induction rs generalizing s with
  | nil => nomatch h
  | cons r rest ih =>
      have hrun : ((p.recordOutcomes o (r :: rest)).run s).1 =
          if ((p.recordOutcome o r).run s).1.failure?.isSome then [((p.recordOutcome o r).run s).1]
          else ((p.recordOutcome o r).run s).1 ::
            ((p.recordOutcomes o rest).run ((p.recordOutcome o r).run s).2).1 := by
        rw [recordOutcomes]
        show ((if ((p.recordOutcome o r).run s).1.failure?.isSome then _ else _ :
          StateM σ (List RecordOutcome)).run _).1 = _
        split <;> rfl
      rw [hrun] at h
      split at h
      · -- A record that fails is the last one of its shard.
        rw [List.flatMap_cons, List.flatMap_nil, List.append_nil] at h
        exact withinBounds_of_mem_recordOutcome h
      · rw [List.flatMap_cons, List.mem_append] at h
        rcases h with h | h
        · exact withinBounds_of_mem_recordOutcome h
        · exact ih h

/-! ## Shards -/

/-- Sequences within bounds are all mined, and so their patterns are within bounds
too. -/
theorem withinBounds_ofMining {m : Miner} (hm : p.miner = .ok m) {shard : String}
    {corpus : List TokenSequence}
    (h : ∀ ts ∈ corpus,
      TokenSequence.WithinBounds p.configuration.sequencing.maxSequenceTokens ts) :
    (ShardOutcome.ofMining shard corpus (m.mine corpus)).WithinBounds p.configuration := by
  obtain ⟨hminSupport, hmaxLength⟩ := limits_of_miner hm
  have hminable : ∀ ts ∈ corpus, m.isMinable ts = true := by
    intro ts hts
    rw [Miner.isMinable, hmaxLength]
    exact decide_eq_true (h ts hts).length_le
  have hoversized : (m.mine corpus).oversized = [] := by
    refine List.filter_eq_nil_iff.2 fun ts hts => ?_
    rw [hminable ts hts]
    exact Bool.false_ne_true
  refine ⟨h, hoversized, congrArg List.length hoversized, fun q hq => ?_⟩
  obtain ⟨hchange, hsupport, hfrequent⟩ := Miner.mem_changes.1 hq
  rw [Miner.support, Miner.minable, List.filter_eq_self.2 hminable] at hsupport
  have hpos : 0 < Mining.supportIn corpus q.tokens :=
    hsupport ▸ Nat.lt_of_lt_of_le m.minSupport_pos hfrequent
  obtain ⟨ts, hts, hsublist⟩ := Mining.supportIn_pos.1 hpos
  exact ⟨hchange.1, Nat.le_trans hsublist.length_le (h ts hts).length_le, hchange.2,
    hminSupport ▸ hfrequent, hsupport ▸ List.countP_le_length⟩

theorem withinBounds_minedBy {m : Miner} (hm : p.miner = .ok m) (shard : Shard) (s : σ) :
    ((p.minedBy m o shard).run s).1.WithinBounds p.configuration := by
  have hcorpus : (ShardOutcome.ofMining shard.id
      (((p.recordOutcomes o shard.records).run s).1.flatMap RecordOutcome.sequences)
      (m.mine _)).WithinBounds p.configuration :=
    withinBounds_ofMining hm fun ts hts => withinBounds_of_mem_recordOutcomes hts
  exact ⟨hcorpus.sequences, hcorpus.oversized, hcorpus.oversizedSequences, hcorpus.patterns⟩

/-- Each shard has one outcome, with some memory of the oracle. -/
theorem outcomes_of_shards (p : Pipeline) (m : Miner) (o : Oracle σ) (shards : List Shard)
    (s : σ) :
    ((shards.mapM (p.minedBy m o)).run s).1.map ShardOutcome.shard = shards.map Shard.id ∧
      ∀ outcome ∈ ((shards.mapM (p.minedBy m o)).run s).1,
        ∃ shard t, outcome = ((p.minedBy m o shard).run t).1 := by
  induction shards generalizing s with
  | nil => exact ⟨rfl, fun _ houtcome => (nomatch houtcome)⟩
  | cons shard rest ih =>
      have hrun : (((shard :: rest).mapM (p.minedBy m o)).run s).1 =
          ((p.minedBy m o shard).run s).1 ::
            ((rest.mapM (p.minedBy m o)).run ((p.minedBy m o shard).run s).2).1 := by
        rw [List.mapM_cons]
        rfl
      obtain ⟨hids, houtcomes⟩ := ih ((p.minedBy m o shard).run s).2
      rw [hrun]
      refine ⟨?_, fun outcome houtcome => ?_⟩
      · rw [List.map_cons, hids, List.map_cons]
        rfl
      · rcases List.mem_cons.1 houtcome with rfl | houtcome
        · exact ⟨shard, s, rfl⟩
        · exact houtcomes outcome houtcome

/-- With a configuration that is accepted, any tools, any oracle, and any records, every
shard is mined, and its outcome is within bounds. No tokenizer is looked up under a name
that is not known. -/
theorem mine_within_bounds {files : FileView} {tools : Tools} {c : Configuration}
    (hp : create files tools c = .ok p) (o : Oracle σ) (records : List Record) (s : σ) :
    ∃ outcomes, ((p.mine o records).run.run s).1 = .ok outcomes ∧
      outcomes.map ShardOutcome.shard = Shard.ids c.performance.sharding records ∧
      (∀ outcome ∈ outcomes, outcome.WithinBounds c) ∧
      ∀ r ∈ records, ∀ l, p.languageOf r = some l → Language.find l.key = .ok l := by
  obtain ⟨m, hm⟩ := exists_miner_of_create hp
  obtain ⟨-, rfl, -⟩ := parts_of_create hp
  obtain ⟨hids, houtcomes⟩ := outcomes_of_shards p m o
    (Shard.partition p.configuration.performance.sharding records) s
  refine ⟨((p.minedShards m o records).run s).1, mine_run_fst hm o records s, hids.trans ?_,
    fun outcome houtcome => ?_, fun _ _ l _ => l.find_key⟩
  · rw [Shard.partition, List.map_map]
    exact List.map_id _
  · obtain ⟨shard, t, rfl⟩ := houtcomes outcome houtcome
    exact withinBounds_minedBy hm shard t

/-- An oracle that breaks down at one of three questions. -/
def moody : Oracle Nat where
  answer _ _ calls :=
    (if calls % 3 = 1 then .error (.oracle "no answer" none none) else .ok ⟨[], []⟩, calls + 1)

/-- The second of three records is skipped; what the others give is mined. -/
theorem mine_within_bounds_of_moody :
    let files : FileView := ⟨fun _ => false, fun _ => .error .notFound⟩
    let tools : Tools := ⟨.lexical, .overlapping⟩
    let p : Pipeline := ⟨.default, .add .builtin [], .python, tools⟩
    let edit : Record := ⟨none, none, ⟨["i = 1"], ["i = 2"]⟩⟩
    create files tools .default = .ok p ∧
      ∃ outcome, ((p.mine moody [edit, edit, edit]).run.run 0).1 = .ok [outcome] ∧
        outcome.WithinBounds .default ∧ outcome.stats.skippedHunks = 1 ∧
        outcome.patterns =
          [⟨[⟨.removed, "1"⟩, ⟨.added, "2"⟩], 2⟩, ⟨[⟨.kept, "i="⟩, ⟨.added, "2"⟩], 2⟩,
            ⟨[⟨.kept, "i="⟩, ⟨.removed, "1"⟩], 2⟩,
            ⟨[⟨.kept, "i="⟩, ⟨.removed, "1"⟩, ⟨.added, "2"⟩], 2⟩] := by
  intro files tools p edit
  have hp : create files tools .default = .ok p := create_eq_ok rfl rfl (by decide)
  have hm : p.miner = .ok ⟨2, 15, by decide⟩ := rfl
  obtain ⟨outcomes, hmine, -, hbounds, -⟩ := mine_within_bounds hp moody [edit, edit, edit] 0
  have hshards : Shard.partition .byYear [edit, edit, edit] =
      [⟨"unknown", [edit, edit, edit]⟩] := by
    cbv
  have hrecords : ((p.recordOutcomes moody [edit, edit, edit]).run 0).1 =
      [.sequenced [[⟨.kept, "i="⟩, ⟨.removed, "1"⟩, ⟨.added, "2"⟩]] .zero,
        .skipped (.oracle "no answer" none none),
        .sequenced [[⟨.kept, "i="⟩, ⟨.removed, "1"⟩, ⟨.added, "2"⟩]] .zero] := by decide +kernel
  have houtcomes : outcomes = [.ofOutcomes ⟨2, 15, by decide⟩ ⟨"unknown", [edit, edit, edit]⟩
      ((p.recordOutcomes moody [edit, edit, edit]).run 0).1] := by
    rw [mine_run_fst hm] at hmine
    exact (Except.ok.inj hmine).symm.trans (minedShards_run_fst_of_one (p := p) _ _ hshards 0)
  subst houtcomes
  refine ⟨hp, _, hmine, hbounds _ (List.mem_singleton_self _), ?_, ?_⟩
  · rw [hrecords]
    rfl
  · rw [hrecords]
    cbv

end Pipeline

end EditMining
