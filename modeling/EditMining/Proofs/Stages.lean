import EditMining.Proofs.MinedShards
import EditMining.Proofs.Preparation

/-!
# Mining, merging and filtering one by one

A run mines, merges and filters without putting anything down; the same can be done
by one command after the other, with files between them. Both ways come to the same
documents (`stages_agree_with_run`).

* **In memory or on files.** What is written is read back, supports being no more
  than there are sequences (`support_lt_of_mem_mergeShards`).

* **By id or by path.** Shards are stored under their ids, and files of patterns
  under their paths. Neither shows in what is merged, nor does it matter how often
  a file is listed (`ShardStore.merged_of_keyed`).

* **Records or sequences.** A shard's patterns are those of its sequences as one
  corpus, so they are mined again from the sequences that were written.

* **Before or after.** Mining changes the files that it writes and no others, so
  what a later command reads is what the run has read.
-/

namespace EditMining

open FileTree (KeepsOutside)

/-- A list of scored patterns as it is written. -/
def ScoredPattern.document (artifact : List ScoredPattern) : Json :=
  .array (artifact.map toJson)

/-! ## The commands -/

namespace CommandLine

/-- What was asked of the oracle before makes no difference to what is filtered. -/
theorem filter_forgets_memory {σ : Type} {f : Language → Hunk → Result StructuralDiff}
    {o : Oracle σ} {p : Pipeline} (ho : o.AnswersBy f) (ps : List Pattern) (records : List Record)
    (s s' : σ) :
    ((p.filter o ps records).run.run s).1 = ((p.filter o ps records).run.run s').1 :=
  Pipeline.filter_perm ho (List.Perm.refl records) ps s s'

variable {σ : Type} {t : FileTree} {outputs : String → Prop} {oracle : OracleSettings → Oracle σ}
  {tools : Tools} {answers : OracleSettings → Language → Hunk → Result StructuralDiff}
  {overrides : MiningOverrides} {filterOverrides : FilterOverrides} {p : Pipeline} {m : Miner}

/-- A workplace on the files of a tree. -/
def onFiles (oracle : OracleSettings → Oracle σ) (tools : Tools) :
    Workplace σ (StateT σ (StateM FileTree)) :=
  ⟨files σ, oracle, tools⟩

/-- The paths that a run writes to. -/
def IsRunOutput (out path : String) : Prop :=
  IsMiningOutput out path ∨ path = Path.join out "fixes.json"

theorem Ends.discard {α : Type} {x : FileWork σ α} {Q : α → FileTree → Prop}
    {P : Unit → FileTree → Prop} (hx : Ends outputs x t Q) (h : ∀ a t', Q a t' → P () t') :
    Ends outputs (discard x) t P := by
  have hdiscard : (Functor.discard x : FileWork σ Unit) = x >>= fun _ => Pure.pure () :=
    (bind_pure_comp (fun _ => ()) x).symm
  rw [hdiscard]
  exact hx.bind fun a t' hQ => Ends.pure (h a t' hQ)

/-- Mining, given what the source gives. -/
theorem ends_mine {source : MiningSource} {outcomes : List ShardOutcome} {out : String}
    (hp : pipelineFrom t tools overrides id = some p)
    (hsource : Ends (IsMiningOutput out) (mineSource (onFiles oracle tools) p source) t
      fun given t' => given = outcomes ∧ t' = t)
    (hids : (outcomes.map ShardOutcome.shard).Nodup)
    (hnames : ∀ outcome ∈ outcomes, '/' ∉ outcome.shard.toList) (dumpsSequences : Bool) :
    Ends (IsMiningOutput out)
        (mine (onFiles oracle tools) source out dumpsSequences overrides) t fun _ t' =>
      HasShards t' out dumpsSequences outcomes ∧
        KeepsOutside (IsMiningPlace (t.placeOf out)) t t' := by
  refine ends_prepared hp (hsource.bind ?_)
  intro given t' hgiven
  obtain ⟨rfl, rfl⟩ := hgiven
  refine (ends_print (P := fun _ t'' => t'' = t') _ rfl).bind ?_
  rintro - t'' rfl
  refine ((ends_writeShards out dumpsSequences hids hnames).discard
    (P := fun _ t₂ => HasShards t₂ out dumpsSequences given ∧
      KeepsOutside (IsMiningPlace (t''.placeOf out)) t'' t₂)
    fun merged t₂ h => h.2).bind ?_
  intro _ t₂ h
  exact ends_warn _ h

theorem ends_mine_records (ho : ∀ settings, (oracle settings).AnswersBy (answers settings))
    (hp : pipelineFrom t tools overrides id = some p) (hm : p.miner = .ok m) {training : String}
    {records : List Record} (hrecords : recordsFrom t training = some records) (memory : σ)
    (out : String) (dumpsSequences : Bool) :
    let outcomes := ((p.minedShards m (oracle p.configuration.oracle) records).run memory).1
    Ends (IsMiningOutput out)
        (mine (onFiles oracle tools) (.records training) out dumpsSequences overrides) t fun _ t' =>
      HasShards t' out dumpsSequences outcomes ∧
        KeepsOutside (IsMiningPlace (t.placeOf out)) t t' := by
  intro outcomes
  refine ends_mine hp ?_ (Pipeline.nodup_shard_minedShards p m _ records memory)
    (fun outcome houtcome => Pipeline.separator_notMem_of_mem_minedShards houtcome) dumpsSequences
  obtain ⟨text, hread, hdecode⟩ := valueFrom_eq_some hrecords
  refine (ends_readRecords (P := fun given t' => given = records ∧ t' = t) hread hdecode
    ⟨rfl, rfl⟩).bind ?_
  rintro given t' ⟨rfl, rfl⟩
  have hmined : ∀ memory', ((p.mine (oracle p.configuration.oracle) given).run.run memory').1 =
      .ok outcomes := by
    intro memory'
    rw [Pipeline.mine_run_fst hm,
      Pipeline.minedShards_forgets_memory (ho _) m given memory' memory]
  exact ends_consult hmined ⟨rfl, rfl⟩

theorem ends_mine_sequences (hp : pipelineFrom t tools overrides id = some p)
    (hm : p.miner = .ok m) {path : String} {corpus : List TokenSequence}
    (hread : t.read path = .ok (Corpus.toJson corpus).pretty) (out : String)
    (dumpsSequences : Bool) :
    Ends (IsMiningOutput out)
        (mine (onFiles oracle tools) (.sequences path) out dumpsSequences overrides) t fun _ t' =>
      HasShards t' out dumpsSequences [.ofMining Shard.singleId corpus (m.mine corpus)] := by
  have hids : ([ShardOutcome.ofMining Shard.singleId corpus (m.mine corpus)].map
      ShardOutcome.shard).Nodup := List.nodup_singleton _
  refine (ends_mine hp ?_ hids ?_ dumpsSequences).mono fun _ _ h => h.1
  · refine Ends.bind (Q := fun given t' => given = corpus ∧ t' = t) ?_ ?_
    · show Ends _ (attemptDuring _ ((files σ).readCorpus path)) t _
      rw [Storage.readCorpus_beside]
      exact ends_attemptDuring _ (run_readCorpus hread) ⟨rfl, rfl⟩
    · rintro given t' ⟨rfl, rfl⟩
      refine (ends_accept (P := fun outcome t'' =>
        outcome = .ofMining Shard.singleId given (m.mine given) ∧ t'' = t')
        (Pipeline.mineCorpus_eq hm Shard.singleId given) ⟨rfl, rfl⟩).bind ?_
      rintro outcome t'' ⟨rfl, rfl⟩
      exact Ends.pure ⟨rfl, rfl⟩
  · intro outcome houtcome
    rw [List.mem_singleton.1 houtcome]
    show '/' ∉ Shard.singleId.toList
    decide

/-- Files are stored by their paths, one after the other. -/
theorem ends_merge (patterns : String → List Pattern) {inputs : List String}
    (hinputs : ∀ path ∈ inputs, t.read path = .ok (Pattern.document (patterns path)).pretty ∧
      ∀ q ∈ patterns path, q.support < Decimal.wordLimit) (out : String) :
    Ends (· = out) (merge (onFiles oracle tools) inputs out) t fun _ t' =>
      t'.read out = .ok (Pattern.document (ShardStore.keyed patterns inputs).merged).pretty := by
  have hstored : ∀ store, Ends (· = out) (inputs.foldlM (fun (store : ShardStore) path => do
      let ps ← attemptDuring ("Failed to read patterns from " ++ path)
        ((onFiles oracle tools).storage.readPatterns path)
      pure (store.insert path ps)) store : FileWork σ ShardStore) t fun store' t' =>
        store' = inputs.foldl (fun s path => s.insert path (patterns path)) store ∧ t' = t := by
    induction inputs with
    | nil => exact fun store => Ends.pure ⟨rfl, rfl⟩
    | cons path rest ih =>
        intro store
        obtain ⟨hread, hcounts⟩ := hinputs path List.mem_cons_self
        have hone : Ends (· = out) (attemptDuring ("Failed to read patterns from " ++ path)
            ((files σ).readPatterns path) : FileWork σ (List Pattern)) t fun ps t' =>
              ps = patterns path ∧ t' = t := by
          rw [Storage.readPatterns, Storage.readJson_beside]
          exact ends_attemptDuring _ (run_readPatterns hread hcounts) ⟨rfl, rfl⟩
        have hinserted := hone.bind fun ps t' h => Ends.pure (P := fun store' t' =>
          store' = store.insert path (patterns path) ∧ t' = t) (a := store.insert path ps)
          ⟨by rw [h.1], h.2⟩
        refine hinserted.bind ?_
        rintro store' t' ⟨rfl, rfl⟩
        exact ih (fun other hother => hinputs other (List.mem_cons_of_mem path hother)) _
  refine (hstored ShardStore.empty).bind ?_
  rintro store t' ⟨rfl, rfl⟩
  have hwritten : Ends (· = out) (attempt ((files σ).writePatterns out
      (ShardStore.keyed patterns inputs).merged) : FileWork σ Unit) t' fun _ t'' =>
        t''.read out = .ok (Pattern.document (ShardStore.keyed patterns inputs).merged).pretty :=
    ends_writeJson _ rfl fun t'' hread _ => hread
  refine hwritten.bind ?_
  intro _ t'' hread
  exact ends_print _ hread

theorem ends_writeArtifact (path : String) (artifact : List ScoredPattern) (report : FilterReport) :
    Ends (· = path) (writeArtifact (onFiles oracle tools) path artifact report) t fun _ t' =>
      t'.read path = .ok (ScoredPattern.document artifact).pretty ∧
        KeepsOutside (· = t.placeOf path) t t' := by
  have hwritten : Ends (· = path) (attempt ((files σ).writeScoredPatterns path artifact) :
      FileWork σ Unit) t fun _ t' =>
        t'.read path = .ok (ScoredPattern.document artifact).pretty ∧
          KeepsOutside (· = t.placeOf path) t t' :=
    ends_writeJson _ rfl fun t' hread hkeeps => ⟨hread, hkeeps⟩
  refine hwritten.bind ?_
  intro _ t' h
  exact ends_print _ h

theorem ends_filter (ho : ∀ settings, (oracle settings).AnswersBy (answers settings))
    (hp : pipelineFrom t tools overrides filterOverrides.apply = some p) {path heldOut : String}
    {ps : List Pattern} {held : List Record}
    (hpatterns : t.read path = .ok (Pattern.document ps).pretty)
    (hcounts : ∀ q ∈ ps, q.support < Decimal.wordLimit)
    (hheldOut : recordsFrom t heldOut = some held) {memory : σ}
    {filtered : List ScoredPattern × FilterReport}
    (hfiltered : ((p.filter (oracle p.configuration.oracle) ps held).run.run memory).1 =
      .ok filtered) (out : String) :
    Ends (· = out)
        (filter (onFiles oracle tools) path heldOut out overrides filterOverrides) t fun _ t' =>
      t'.read out = .ok (ScoredPattern.document filtered.1).pretty := by
  refine ends_prepared hp ?_
  have hread : Ends (· = out) (attempt ((files σ).readPatterns path) : FileWork σ (List Pattern)) t
      fun given t' => given = ps ∧ t' = t := by
    rw [Storage.readPatterns, Storage.readJson_beside]
    exact ends_attempt (run_readPatterns hpatterns hcounts) ⟨rfl, rfl⟩
  refine hread.bind ?_
  rintro given t' ⟨rfl, rfl⟩
  obtain ⟨text, htext, hdecode⟩ := valueFrom_eq_some hheldOut
  refine (ends_readRecords (P := fun records t'' => records = held ∧ t'' = t') htext hdecode
    ⟨rfl, rfl⟩).bind ?_
  rintro records t'' ⟨rfl, rfl⟩
  refine (ends_consult (P := fun made t₁ => made = filtered ∧ t₁ = t'') (fun memory' =>
    (filter_forgets_memory (ho _) given records memory' memory).trans hfiltered)
    ⟨rfl, rfl⟩).bind ?_
  rintro made t₁ ⟨rfl, rfl⟩
  exact (ends_writeArtifact out made.1 made.2).mono fun _ _ h => h.1

/-- A run ends as its writing does: that of the shards, and then that of the artifact. -/
theorem ends_run_of (ho : ∀ settings, (oracle settings).AnswersBy (answers settings))
    (hp : pipelineFrom t tools overrides filterOverrides.apply = some p)
    (hm : p.miner = .ok m) {training heldOut : String} {records held : List Record}
    (hrecords : recordsFrom t training = some records)
    (hheldOut : recordsFrom t heldOut = some held) {memory memory' : σ}
    {shards : List ShardOutcome} {filtered : List ScoredPattern × FilterReport}
    (hshards : ((p.minedShards m (oracle p.configuration.oracle) records).run memory).1 = shards)
    (hfiltered : ((p.filter (oracle p.configuration.oracle) (Pipeline.mergeShards shards)
      held).run.run memory').1 = .ok filtered)
    {out : String} {dumpsSequences : Bool} {Q : FileTree → Prop} {P : Unit → FileTree → Prop}
    (hwritten : Ends outputs (writeShards (files σ) out dumpsSequences shards) t fun merged t' =>
      merged = Pipeline.mergeShards shards ∧ Q t')
    (hartifact : ∀ t', Q t' → Ends outputs (writeArtifact (onFiles oracle tools)
      (Path.join out "fixes.json") filtered.1 filtered.2) t' P) :
    Ends outputs (run (onFiles oracle tools) training heldOut out dumpsSequences overrides
      filterOverrides) t P := by
  refine ends_prepared hp ?_
  obtain ⟨text, htext, hdecode⟩ := valueFrom_eq_some hrecords
  refine (ends_readRecords (P := fun given t' => given = records ∧ t' = t) htext hdecode
    ⟨rfl, rfl⟩).bind ?_
  rintro given t' ⟨rfl, rfl⟩
  obtain ⟨text', htext', hdecode'⟩ := valueFrom_eq_some hheldOut
  refine (ends_readRecords (P := fun given' t'' => given' = held ∧ t'' = t') htext' hdecode'
    ⟨rfl, rfl⟩).bind ?_
  rintro given' t'' ⟨rfl, rfl⟩
  have hmined : ∀ memory₁, ((p.mine (oracle p.configuration.oracle) given).run.run memory₁).1 =
      .ok shards := by
    intro memory₁
    rw [Pipeline.mine_run_fst hm,
      Pipeline.minedShards_forgets_memory (ho _) m given memory₁ memory, hshards]
  refine (ends_consult (P := fun outcomes t₁ => outcomes = shards ∧ t₁ = t'') hmined
    ⟨rfl, rfl⟩).bind ?_
  rintro outcomes t₁ ⟨rfl, rfl⟩
  refine (ends_print (P := fun _ t₂ => t₂ = t₁) _ rfl).bind ?_
  rintro - t₂ rfl
  refine hwritten.bind ?_
  rintro merged t₃ ⟨rfl, hQ⟩
  refine (ends_consult (P := fun made t₄ => made = filtered ∧ t₄ = t₃) (fun memory₁ =>
    (filter_forgets_memory (ho _) _ given' memory₁ memory').trans hfiltered)
    ⟨rfl, rfl⟩).bind ?_
  rintro made t₄ ⟨rfl, rfl⟩
  exact (hartifact t₄ hQ).bind fun _ _ h => ends_warn _ h

theorem ends_run (ho : ∀ settings, (oracle settings).AnswersBy (answers settings))
    (hp : pipelineFrom t tools overrides filterOverrides.apply = some p)
    (hm : p.miner = .ok m) {training heldOut : String} {records held : List Record}
    (hrecords : recordsFrom t training = some records)
    (hheldOut : recordsFrom t heldOut = some held) {memory memory' : σ}
    {shards : List ShardOutcome} {filtered : List ScoredPattern × FilterReport}
    (hshards : ((p.minedShards m (oracle p.configuration.oracle) records).run memory).1 = shards)
    (hfiltered : ((p.filter (oracle p.configuration.oracle) (Pipeline.mergeShards shards)
      held).run.run memory').1 = .ok filtered) (out : String) (dumpsSequences : Bool) :
    Ends (IsRunOutput out)
        (run (onFiles oracle tools) training heldOut out dumpsSequences overrides filterOverrides)
        t fun _ t' =>
      t'.read (Path.join out "patterns.json") =
          .ok (Pattern.document (Pipeline.mergeShards shards)).pretty ∧
        t'.read (Path.join out "fixes.json") =
          .ok (ScoredPattern.document filtered.1).pretty := by
  have hnodup := Pipeline.nodup_shard_minedShards p m (oracle p.configuration.oracle) records memory
  have hnames : ∀ outcome ∈ shards, '/' ∉ outcome.shard.toList := by
    rw [← hshards]
    exact fun outcome houtcome => Pipeline.separator_notMem_of_mem_minedShards houtcome
  rw [hshards] at hnodup
  refine ends_run_of ho hp hm hrecords hheldOut hshards hfiltered
    (Q := fun t' => HasShards t' out dumpsSequences shards)
    (((ends_writeShards out dumpsSequences hnodup hnames).widen fun _ => .inl).mono
      fun _ _ h => ⟨h.1, h.2.1⟩) fun t' hwritten => ?_
  refine ((ends_writeArtifact (Path.join out "fixes.json") filtered.1 filtered.2).widen
    fun _ => .inr).mono ?_
  rintro - t'' ⟨hfixes, hkeeps⟩
  refine ⟨hkeeps.read hwritten.patterns ?_, hfixes⟩
  rw [placeOf_patterns, t'.placeOf_join ⟨by decide, by decide, by decide, by decide⟩]
  simp

/-! ## The stages and the run -/

/-- Merging the files of the shards gives what mining has merged. -/
theorem ends_merge_shards {outcomes : List ShardOutcome} {out : String} {dumpsSequences : Bool}
    (hshards : HasShards t out dumpsSequences outcomes)
    (hids : (outcomes.map ShardOutcome.shard).Nodup)
    (hcounts : ∀ o ∈ outcomes, ∀ q ∈ o.patterns, q.support < Decimal.wordLimit)
    {inputs : List String}
    (hinputs : ∀ path, path ∈ inputs ↔ ∃ o ∈ outcomes, path = shardFile out "shards" o.shard)
    (path : String) :
    Ends (· = path) (merge (onFiles oracle tools) inputs path) t fun _ t' =>
      t'.read path = .ok (Pattern.document (Pipeline.mergeShards outcomes)).pretty := by
  let patterns : String → List Pattern := fun path =>
    (valueFrom t path (Json.decode (Json.asList Pattern.ofJson?))).getD []
  have hpatterns : ∀ o ∈ outcomes, patterns (shardFile out "shards" o.shard) = o.patterns := by
    intro o ho
    show (valueFrom t _ _).getD [] = o.patterns
    rw [valueFrom_of_read (hshards.shards o ho).patterns, decode_patterns (hcounts o ho)]
    rfl
  have hnodup : ((outcomes.map ShardOutcome.shard).map (shardFile out "shards")).Nodup :=
    hids.map (shardFile_injective out "shards")
  have hmem : ∀ path, path ∈ (outcomes.map ShardOutcome.shard).map (shardFile out "shards") ↔
      path ∈ inputs := by
    intro path
    rw [hinputs, List.map_map, List.mem_map]
    simp only [Function.comp_apply, eq_comm]
  refine (ends_merge patterns ?_ path).mono ?_
  · intro path hpath
    obtain ⟨o, ho, rfl⟩ := (hinputs path).1 hpath
    rw [hpatterns o ho]
    exact ⟨(hshards.shards o ho).patterns, hcounts o ho⟩
  · intro _ t' hread
    rw [hread, ShardStore.merged_of_keyed patterns hnodup hmem,
      Pipeline.mergeShards_eq_mergePatterns hids, List.map_map, List.flatMap_map]
    refine congrArg (fun ps => Except.ok (Pattern.document (mergePatterns ps)).pretty) ?_
    exact List.flatMap_congr hpatterns

/-- A run and its stages, one after the other, come to the same documents. Mining
the same records writes the patterns that the run writes; filtering these writes
the same fixes; merging the files of the shards, in any order and however often
each is listed, writes the same patterns, and so does mining again, from the
sequences of the only shard. A later command is to find the held-out records and
the settings that the run has found; it does unless mining has written over them. -/
theorem stages_agree_with_run
    (ho : ∀ settings, (oracle settings).AnswersBy (answers settings)) {p' : Pipeline}
    (hmining : pipelineFrom t tools overrides id = some p)
    (hfiltering : pipelineFrom t tools overrides filterOverrides.apply = some p')
    {training heldOut : String} {records held : List Record}
    (hrecords : recordsFrom t training = some records)
    (hheldOut : recordsFrom t heldOut = some held) (memory : σ)
    (hmined : ∀ shards,
      ((p.mine (oracle p.configuration.oracle) records).run.run memory).1 = .ok shards →
        (shards.flatMap ShardOutcome.sequences).length < Decimal.wordLimit ∧
          ∀ q ∈ Filter.maximal p'.configuration.filter (Pipeline.mergeShards shards),
            tools.matcher.BuildsFor q)
    (out : String) (dumpsSequences : Bool) :
    ∃ r, ((p'.run (oracle p'.configuration.oracle) records held).run.run memory).1 = .ok r ∧
      let w := onFiles oracle tools
      let patterns := (Pattern.document r.merged).pretty
      let fixes := (ScoredPattern.document r.artifact).pretty
      let spares := fun path => ¬ IsMiningPlace (t.placeOf out) (t.placeOf path)
      Ends (IsRunOutput out)
          (run w training heldOut out dumpsSequences overrides filterOverrides) t (fun _ t' =>
        t'.read (Path.join out "patterns.json") = .ok patterns ∧
          t'.read (Path.join out "fixes.json") = .ok fixes) ∧
      Ends (IsMiningOutput out)
          (mine w (.records training) out dumpsSequences overrides) t fun _ t' =>
        t'.read (Path.join out "patterns.json") = .ok patterns ∧
        (recordsFrom t' heldOut = some held →
          pipelineFrom t' tools overrides filterOverrides.apply = some p' → ∀ destination,
          Ends (· = destination)
              (filter w (Path.join out "patterns.json") heldOut destination overrides
                filterOverrides) t' fun _ t'' =>
            t''.read destination = .ok fixes) ∧
        (∀ inputs destination,
          (∀ path, path ∈ inputs ↔ ∃ o ∈ r.shards, path = shardFile out "shards" o.shard) →
          Ends (· = destination) (merge w inputs destination) t' fun _ t'' =>
            t''.read destination = .ok patterns) ∧
        (dumpsSequences = true → pipelineFrom t' tools overrides id = some p →
          ∀ o, r.shards = [o] → ∀ out' dumpsSequences',
            Ends (IsMiningOutput out')
                (mine w (.sequences (shardFile out "sequences" o.shard)) out' dumpsSequences'
                  overrides) t' fun _ t'' =>
              t''.read (Path.join out' "patterns.json") = .ok patterns) ∧
        (spares heldOut → recordsFrom t' heldOut = some held) ∧
        ((∀ path ∈ settingFiles overrides p, spares path) →
          pipelineFrom t' tools overrides id = some p ∧
            pipelineFrom t' tools overrides filterOverrides.apply = some p') := by
  -- The run mines with settings for filtering that mining does not look at.
  obtain ⟨filterSettings, rfl⟩ : ∃ s, p' = p.withFilter s :=
    ⟨_, pipelineFrom_filter hmining hfiltering⟩
  obtain ⟨c, -, hcreate⟩ := pipelineFrom_eq_some hmining
  obtain ⟨m, hm⟩ := Pipeline.exists_miner_of_create hcreate
  have hm' : (p.withFilter filterSettings).miner = .ok m := hm
  obtain ⟨shards, hshards⟩ : ∃ shards,
      ((p.minedShards m (oracle p.configuration.oracle) records).run memory).1 = shards := ⟨_, rfl⟩
  have hmine : ((p.mine (oracle p.configuration.oracle) records).run.run memory).1 =
      .ok shards := by
    rw [Pipeline.mine_run_fst hm, hshards]
  have hshards' : (((p.withFilter filterSettings).minedShards m (oracle p.configuration.oracle)
      records).run memory).1 = shards := by
    have hboth := Pipeline.mine_run_fst hm' (oracle p.configuration.oracle) records memory
    rw [p.mine_withFilter filterSettings, hmine] at hboth
    exact (Except.ok.inj hboth).symm
  obtain ⟨hcount, hbuilds⟩ := hmined shards hmine
  obtain ⟨-, -, -, -, rfl⟩ := Pipeline.parts_of_create hcreate
  obtain ⟨filtered, hfiltered⟩ := Pipeline.exists_filter_eq_ok
    (p := p.withFilter filterSettings) _ hbuilds (oracle p.configuration.oracle) held
    (((p.withFilter filterSettings).minedShards m (oracle p.configuration.oracle)
      records).run memory).2
  refine ⟨.ofFiltered shards filtered, ?_, ends_run ho hfiltering hm' hrecords hheldOut hshards'
    hfiltered out dumpsSequences, ?_⟩
  · show (((p.withFilter filterSettings).run (oracle p.configuration.oracle) records held).run.run
      memory).1 = _
    rw [Pipeline.run_run_fst hm']
    dsimp only
    rw [hshards', hfiltered]
    rfl
  refine (ends_mine_records ho hmining hm hrecords memory out dumpsSequences).mono ?_
  rw [hshards]
  rintro - t' ⟨hwritten, hkeeps⟩
  have hnodup := Pipeline.nodup_shard_minedShards p m (oracle p.configuration.oracle) records memory
  rw [hshards] at hnodup
  rw [← hshards] at hcount
  refine ⟨hwritten.patterns, ?_, ?_, ?_, ?_, ?_⟩
  · intro hheldOut' hsettings destination
    have hcounts := Pipeline.support_lt_of_mem_mergeShards hcount
    rw [hshards] at hcounts
    exact ends_filter ho hsettings hwritten.patterns hcounts hheldOut' hfiltered destination
  · intro inputs destination hinputs
    refine ends_merge_shards hwritten hnodup ?_ hinputs destination
    exact fun o ho => Pipeline.support_lt_of_mem_minedShards (hshards ▸ ho) hcount
  · intro hdumps hsettings o honly out' dumpsSequences'
    change shards = [o] at honly
    have ho : o ∈ shards := honly ▸ List.mem_singleton_self o
    refine (ends_mine_sequences hsettings hm ((hwritten.shards o ho).sequences hdumps) out'
      dumpsSequences').mono ?_
    intro _ t'' hagain
    have hpatterns : o.patterns = m.changes o.sequences :=
      Pipeline.patterns_of_mem_minedShards (hshards ▸ ho)
    have hmerged : Pipeline.mergeShards
        [.ofMining Shard.singleId o.sequences (m.mine o.sequences)] =
          Pipeline.mergeShards shards := by
      rw [honly, Pipeline.mergeShards_singleton, Pipeline.mergeShards_singleton, hpatterns]
      rfl
    rw [hagain.patterns, hmerged]
    rfl
  · exact valueFrom_kept hheldOut hkeeps
  · exact fun hapart =>
      ⟨pipelineFrom_kept hmining hkeeps hapart, pipelineFrom_kept hfiltering hkeeps hapart⟩

/-! ## One record from beginning to end -/

/-- What ends without a refusal ends as it should. -/
theorem Ends.of_unrefused {α : Type} {x : FileWork σ α} {P : α → FileTree → Prop}
    (hx : Ends outputs x t P) (h : Ends (fun _ => False) x t fun _ _ => True) :
    Ends (fun _ => False) x t P := by
  intro transcript memory
  have hended := hx transcript memory
  have hunrefused := h transcript memory
  dsimp only at hended hunrefused ⊢
  split at hended
  · exact hended
  · next hfailed =>
      rw [hfailed] at hunrefused
      obtain ⟨_, _, hnone, -⟩ := hunrefused
      exact hnone.elim

/-- A record to mine and to measure on. -/
def countedUp : Record :=
  ⟨none, none, ⟨["i = 1"], ["i = 2"]⟩⟩

/-- The tokens of the edit. -/
def countedUpTokens : TokenSequence :=
  [⟨.kept, "i="⟩, ⟨.removed, "1"⟩, ⟨.added, "2"⟩]

/-- The change patterns of the edit. -/
def countedUpPatterns : List Pattern :=
  [⟨[⟨.removed, "1"⟩, ⟨.added, "2"⟩], 1⟩, ⟨[⟨.kept, "i="⟩, ⟨.added, "2"⟩], 1⟩,
    ⟨[⟨.kept, "i="⟩, ⟨.removed, "1"⟩], 1⟩, ⟨countedUpTokens, 1⟩]

/-- The outcome of a shard that has no other record. -/
def countedUpOutcome : ShardOutcome where
  shard := "unknown"
  sequences := [countedUpTokens]
  patterns := countedUpPatterns
  oversized := []
  stats := .start 1
  failure := none

/-- A tree with a file of training records and one of held-out records. -/
def treeOfRecords : FileTree where
  workingDirectory := []
  entries :=
    [(["training.json"], .file (Json.array [countedUp.toJson]).pretty),
      (["held-out.json"], .file (Json.array [countedUp.toJson]).pretty)]

def onceIsEnough : MiningOverrides :=
  ⟨none, some 1, none, none, none⟩

def onceIsKept : FilterOverrides :=
  ⟨none, some 1⟩

def lexicalTools : Tools :=
  ⟨.lexical, .overlapping⟩

def eagerPipeline : Pipeline where
  configuration := onceIsEnough.apply .default
  reserved := ReservedNames.builtin.add []
  defaultLanguage := .python
  tools := lexicalTools

def knowsNothing : OracleSettings → Oracle Nat :=
  fun _ => .ofFunction fun _ _ => .ok ⟨[], []⟩

theorem recordsFrom_treeOfRecords (path : String)
    (h : treeOfRecords.read path = .ok (Json.array [countedUp.toJson]).pretty) :
    recordsFrom treeOfRecords path = some [countedUp] := by
  rw [recordsFrom, valueFrom_of_read h, Json.decode_pretty _ rfl]
  rfl

/-- The same pipeline, keeping what it finds once. -/
def eagerRun : Pipeline :=
  eagerPipeline.withFilter (onceIsKept.apply eagerPipeline.configuration).filter

theorem minedShards_eagerRun :
    ((eagerRun.minedShards ⟨1, 15, by decide⟩ (knowsNothing eagerRun.configuration.oracle)
      [countedUp]).run 0).1 = [countedUpOutcome] := by
  have hshards : Shard.partition .byYear [countedUp] = [⟨"unknown", [countedUp]⟩] := by cbv
  have houtcomes : ((eagerRun.recordOutcomes (knowsNothing eagerRun.configuration.oracle)
      [countedUp]).run 0).1 = [.sequenced [countedUpTokens] .zero] := by decide +kernel
  rw [Pipeline.minedShards_run_fst_of_one _ _ hshards, houtcomes, List.cons.injEq]
  refine ⟨(ShardOutcome.mk.injEq ..).mpr ⟨rfl, rfl, ?_, rfl, rfl, rfl⟩, rfl⟩
  cbv

theorem mergeShards_countedUpOutcome :
    Pipeline.mergeShards [countedUpOutcome] = countedUpPatterns := by
  cbv

/-- The last of the patterns contains all others. -/
theorem filter_eagerRun :
    ∃ report, ((eagerRun.filter (knowsNothing eagerRun.configuration.oracle)
      (Pipeline.mergeShards [countedUpOutcome]) [countedUp]).run.run 0).1 =
        .ok ([⟨⟨countedUpTokens, 1⟩, 1.0⟩], report) := by
  have hheldOut : ((eagerRun.prepareHeldOut (knowsNothing eagerRun.configuration.oracle)
      [countedUp]).run 0).1 = [⟨"i=1", "i=2"⟩] := by decide +kernel
  have hmaximal : Filter.maximal eagerRun.configuration.filter countedUpPatterns =
      [⟨countedUpTokens, 1⟩] := by decide +kernel
  have haccepted : eagerRun.configuration.filter.accepts
      (Filter.scored [⟨"i=1", "i=2"⟩] ⟨countedUpTokens, 1⟩) = true := by decide +kernel
  have hvalue : (Confidence.exact ⟨countedUpTokens, 1⟩ [⟨"i=1", "i=2"⟩]).value = 1.0 := by
    decide +kernel
  have hrun := Filter.run_eq_ok eagerRun.configuration.filter [⟨"i=1", "i=2"⟩] countedUpPatterns
    fun q _ => Confidence.evaluate_eq_ok isExact_overlapping (buildsFor_overlapping q) _
  rw [Filter.artifact_of_one hmaximal haccepted, Filter.scored, hvalue] at hrun
  refine ⟨Filter.report eagerRun.configuration.filter [⟨"i=1", "i=2"⟩] countedUpPatterns, ?_⟩
  rw [Pipeline.filter_run_fst, hheldOut, mergeShards_countedUpOutcome]
  exact hrun

/-- The tree with one document more, if it takes it. -/
def treeWith (t : FileTree) (path : String) (v : Json) : FileTree :=
  ((FileTree.storage.writeJson path v).run t).2

theorem ends_writeJson_of_run {path : String} {v : Json}
    (hrun : ((FileTree.storage.writeJson path v).run t).1 = .ok ()) :
    Ends outputs (attempt ((files σ).writeJson path v)) t fun _ t' => t' = treeWith t path v := by
  rw [Storage.writeJson_beside]
  exact ends_attempt (Prod.ext hrun rfl) rfl

def treeOfShard : FileTree :=
  treeWith treeOfRecords "out/shards/unknown.json" (Pattern.document countedUpPatterns)

def treeOfSequences : FileTree :=
  treeWith treeOfShard "out/sequences/unknown.json" (Corpus.toJson [countedUpTokens])

def treeOfPatterns : FileTree :=
  treeWith treeOfSequences "out/patterns.json" (Pattern.document countedUpPatterns)

/-- The files of the only shard are written, and then the merged patterns. -/
theorem unrefused_writeShards :
    Ends (fun _ => False) (writeShards (files σ) "out" true [countedUpOutcome]) treeOfRecords
      fun merged t' => merged = Pipeline.mergeShards [countedUpOutcome] ∧ t' = treeOfPatterns := by
  have hpatterns : Ends (fun _ => False) (attempt ((files σ).writePatterns
      (shardFile "out" "shards" "unknown") countedUpPatterns)) treeOfRecords
      fun _ t' => t' = treeOfShard := ends_writeJson_of_run (by decide +kernel)
  have hsequences : Ends (fun _ => False) (attempt ((files σ).writeCorpus
      (shardFile "out" "sequences" "unknown") [countedUpTokens])) treeOfShard
      fun _ t' => t' = treeOfSequences := ends_writeJson_of_run (by decide +kernel)
  have hmerged : Ends (fun _ => False) (attempt ((files σ).writePatterns
      (Path.join "out" "patterns.json") (Pipeline.mergeShards [countedUpOutcome])))
      treeOfSequences fun _ t' => t' = treeOfPatterns := by
    rw [mergeShards_countedUpOutcome]
    exact ends_writeJson_of_run (by decide +kernel)
  have hshard : Ends (fun _ => False) ([countedUpOutcome].forM (writeShard (files σ) "out" true))
      treeOfRecords fun _ t' => t' = treeOfSequences := by
    refine Ends.bind (hpatterns.bind ?_) fun _ _ h => Ends.pure h
    rintro - _ rfl
    exact hsequences.bind fun _ _ h => Ends.pure h
  refine hshard.bind ?_
  rintro - _ rfl
  refine hmerged.bind fun _ t' h => ?_
  exact (ends_print _ h).bind fun _ _ h => Ends.pure ⟨rfl, h⟩

theorem unrefused_run_eagerRun :
    Ends (fun _ => False)
      (run (onFiles knowsNothing lexicalTools) "training.json" "held-out.json" "out" true
        onceIsEnough onceIsKept) treeOfRecords fun _ _ => True := by
  obtain ⟨report, hfiltered⟩ := filter_eagerRun
  refine ends_run_of (fun _ => Oracle.answersBy_ofFunction _) (p := eagerRun) rfl
    (m := ⟨1, 15, by decide⟩) rfl (recordsFrom_treeOfRecords "training.json" rfl)
    (recordsFrom_treeOfRecords "held-out.json" rfl) minedShards_eagerRun hfiltered
    unrefused_writeShards ?_
  rintro t' rfl
  have hfixes : Ends (fun _ => False) (attempt ((files Nat).writeScoredPatterns
      (Path.join "out" "fixes.json") [⟨⟨countedUpTokens, 1⟩, 1.0⟩])) treeOfPatterns
      fun _ _ => True :=
    (ends_writeJson_of_run (by decide +kernel)).mono fun _ _ _ => trivial
  exact hfixes.bind fun _ _ h => ends_print _ h

/-- The run is refused nothing, and its files hold the four patterns and the one fix. -/
theorem stages_agree_with_run_on_one_record :
    let p := eagerPipeline
    let p' := eagerRun
    let w := onFiles knowsNothing lexicalTools
    let patterns := (Pattern.document countedUpPatterns).pretty
    let fixes := (ScoredPattern.document [⟨⟨countedUpTokens, 1⟩, 1.0⟩]).pretty
    pipelineFrom treeOfRecords lexicalTools onceIsEnough id = some p ∧
      pipelineFrom treeOfRecords lexicalTools onceIsEnough onceIsKept.apply = some p' ∧
      recordsFrom treeOfRecords "training.json" = some [countedUp] ∧
      recordsFrom treeOfRecords "held-out.json" = some [countedUp] ∧
      Ends (fun _ => False)
          (run w "training.json" "held-out.json" "out" true onceIsEnough onceIsKept) treeOfRecords
        (fun _ t' => t'.read (Path.join "out" "patterns.json") = .ok patterns ∧
          t'.read (Path.join "out" "fixes.json") = .ok fixes) ∧
      Ends (IsMiningOutput "out")
          (mine w (.records "training.json") "out" true onceIsEnough) treeOfRecords fun _ t' =>
        t'.read (Path.join "out" "patterns.json") = .ok patterns ∧
        Ends (· = "fixes.json")
          (filter w (Path.join "out" "patterns.json") "held-out.json" "fixes.json" onceIsEnough
            onceIsKept) t' (fun _ t'' => t''.read "fixes.json" = .ok fixes) ∧
        Ends (· = "merged.json")
          (merge w [shardFile "out" "shards" "unknown", shardFile "out" "shards" "unknown"]
            "merged.json") t' (fun _ t'' => t''.read "merged.json" = .ok patterns) ∧
        Ends (IsMiningOutput "again")
            (mine w (.sequences (shardFile "out" "sequences" "unknown")) "again" false
              onceIsEnough) t' fun _ t'' =>
          t''.read (Path.join "again" "patterns.json") = .ok patterns := by
  intro p p' w patterns fixes
  have hanswers : ∀ settings, (knowsNothing settings).AnswersBy fun _ _ => .ok ⟨[], []⟩ :=
    fun _ => Oracle.answersBy_ofFunction _
  have hmining : pipelineFrom treeOfRecords lexicalTools onceIsEnough id = some p := rfl
  have hfiltering : pipelineFrom treeOfRecords lexicalTools onceIsEnough onceIsKept.apply =
      some p' := rfl
  have htraining := recordsFrom_treeOfRecords "training.json" rfl
  have hheldOut := recordsFrom_treeOfRecords "held-out.json" rfl
  have hm : p'.miner = .ok ⟨1, 15, by decide⟩ := rfl
  have hmined : ∀ shards, ((p.mine (knowsNothing p.configuration.oracle) [countedUp]).run.run 0).1 =
      .ok shards → (shards.flatMap ShardOutcome.sequences).length < Decimal.wordLimit ∧
        ∀ q ∈ Filter.maximal p'.configuration.filter (Pipeline.mergeShards shards),
          lexicalTools.matcher.BuildsFor q := by
    intro shards hshards
    have hboth := Pipeline.mine_run_fst hm (knowsNothing p.configuration.oracle) [countedUp] 0
    rw [show p'.mine _ _ = _ from p.mine_withFilter _ _ _, hshards] at hboth
    cases hboth.trans (congrArg Except.ok minedShards_eagerRun)
    exact ⟨by decide, fun q _ => buildsFor_overlapping q⟩
  obtain ⟨r, hr, hrun, hmine⟩ := stages_agree_with_run hanswers hmining hfiltering htraining
    hheldOut 0 hmined "out" true
  obtain ⟨report, hfiltered⟩ := filter_eagerRun
  have hwhole : ((p'.run (knowsNothing p'.configuration.oracle) [countedUp] [countedUp]).run.run
      0).1 = .ok (.ofFiltered [countedUpOutcome] ([⟨⟨countedUpTokens, 1⟩, 1.0⟩], report)) := by
    rw [Pipeline.run_run_fst hm]
    dsimp only
    rw [minedShards_eagerRun, filter_forgets_memory (hanswers _) _ _ _ 0, hfiltered]
    rfl
  cases hr.symm.trans hwhole
  dsimp only [Pipeline.Run.ofFiltered] at hrun hmine
  rw [mergeShards_countedUpOutcome] at hrun hmine
  have hapart : ¬ IsMiningPlace ["out"] ["held-out.json"] := by
    intro h
    rcases h with h | ⟨id, kind, hkind, h⟩
    · exact absurd h (by decide)
    · exact absurd (congrArg List.length h) (by simp)
  refine ⟨hmining, hfiltering, htraining, hheldOut, hrun.of_unrefused unrefused_run_eagerRun,
    hmine.mono ?_⟩
  rintro - t' ⟨hpatterns, hfilter, hmerge, hagain, hrecords, hsettings⟩
  obtain ⟨hmining', hfiltering'⟩ := hsettings fun path hpath => nomatch hpath
  refine ⟨hpatterns, hfilter (hrecords hapart) hfiltering' "fixes.json",
    hmerge _ "merged.json" ?_, hagain rfl hmining' countedUpOutcome rfl "again" false⟩
  intro path
  simp [countedUpOutcome]

end CommandLine

end EditMining
