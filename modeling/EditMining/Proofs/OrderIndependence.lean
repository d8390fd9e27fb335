import EditMining.Language.Lexer
import EditMining.Proofs.Filtering
import EditMining.Proofs.PipelineSessions
import EditMining.Proofs.ShardedMining

/-!
# The order of the input does not show

Neither the order of the training records nor that of the held-out records
changes what a run reports. The stages are followed from the records on.

* **Records.** As long as no failure ends a shard, what becomes of a record
  does not depend on the others, so a shuffled shard gives its outcomes in
  shuffled order (`recordOutcomes_eq_map`).

* **Shards.** The ids are sorted, so they come out the same; a shard's records
  are shuffled (`ids_perm`).

* **Patterns.** Mining depends on supports alone, and these do not depend on
  the order of the corpus. So every shard's patterns are the same list, and
  so is what is merged from them.

* **Filtering.** The held-out records enter only through counts.

Nothing is asked of the tokenizers but that they are functions, and nothing of the
matcher: where it cannot build a search, the run fails alike in any order.
-/

namespace EditMining

variable {σ : Type} {f : Language → Hunk → Result StructuralDiff} {o : Oracle σ}

/-! ## Records -/

/-- What becomes of the records up to the first failure, if all were worked
on. -/
def upToFailure : List RecordOutcome → List RecordOutcome
  | [] => []
  | x :: rest => if x.failure?.isSome then [x] else x :: upToFailure rest

theorem upToFailure_eq_self {xs : List RecordOutcome} (h : ∀ x ∈ xs, x.failure? = none) :
    upToFailure xs = xs := by
  induction xs with
  | nil => rfl
  | cons x rest ih =>
      have hx : x.failure?.isSome = false := by
        rw [h x List.mem_cons_self]
        rfl
      rw [upToFailure, hx, ih fun y hy => h y (List.mem_cons_of_mem _ hy)]
      rfl

namespace Pipeline

variable {p : Pipeline}

/-- Records are worked on one by one, and the first failure ends it. -/
theorem recordOutcomes_run_fst (ho : o.AnswersBy f) (rs : List Record) (s t : σ) :
    ((p.recordOutcomes o rs).run s).1 =
      upToFailure (rs.map fun r => ((p.recordOutcome o r).run t).1) := by
  induction rs generalizing s with
  | nil => rfl
  | cons r rest ih =>
      have hfirst := sameValue_recordOutcome (p := p) ho ho r s t
      rw [List.map_cons, upToFailure, ← hfirst, ← ih ((p.recordOutcome o r).run s).2]
      show ((if ((p.recordOutcome o r).run s).1.failure?.isSome = true then _ else _ :
        StateM σ (List RecordOutcome)).run _).1 = _
      split
      · rfl
      · rfl

theorem failure?_recordOutcome (ho : o.AnswersBy f)
    (hlocal : ∀ l h e, f l h = .error e → e.isHunkLocal = true) (r : Record) (s : σ) :
    ((p.recordOutcome o r).run s).1.failure? = none := by
  rw [recordOutcome]
  split
  · rfl
  · split
    · rfl
    · next tk _ =>
        have hfails := failsWith_sequenceHunk (p := p) ho hlocal tk r.hunk .zero s
        show (RecordOutcome.ofResult
          (((p.sequenceHunk o tk r.hunk).handedOn .zero).run.run s).1).failure? = none
        cases hresult : (((p.sequenceHunk o tk r.hunk).handedOn .zero).run.run s).1 with
        | ok made => rfl
        | error e =>
            rw [RecordOutcome.ofResult, hfails e hresult]
            rfl

theorem recordOutcomes_eq_map (ho : o.AnswersBy f)
    (hlocal : ∀ l h e, f l h = .error e → e.isHunkLocal = true) (rs : List Record) (s t : σ) :
    ((p.recordOutcomes o rs).run s).1 = rs.map fun r => ((p.recordOutcome o r).run t).1 := by
  rw [recordOutcomes_run_fst ho rs s t]
  refine upToFailure_eq_self fun x hx => ?_
  obtain ⟨r, -, rfl⟩ := List.mem_map.1 hx
  exact failure?_recordOutcome ho hlocal r t

end Pipeline

/-! ## Shards -/

theorem distinct_perm {α : Type} [DecidableEq α] {xs ys : List α} (h : xs.Perm ys) :
    (distinct xs).Perm (distinct ys) := by
  refine (List.perm_ext_iff_of_nodup (nodup_distinct xs) (nodup_distinct ys)).2 fun x => ?_
  rw [mem_distinct, mem_distinct]
  exact h.mem_iff

theorem Shard.ids_perm {sharding : Sharding} {rs rs' : List Record} (h : rs.Perm rs') :
    ids sharding rs = ids sharding rs' :=
  mergeSort_isLE_eq_of_perm (distinct_perm (h.map _))

namespace Pipeline

variable {p : Pipeline}

theorem minedShards_run_fst (ho : o.AnswersBy f) (m : Miner) (rs : List Record) (s t : σ) :
    ((p.minedShards m o rs).run s).1 =
      (Shard.ids p.configuration.performance.sharding rs).map fun id =>
        ((p.minedBy m o (.withId p.configuration.performance.sharding rs id)).run t).1 := by
  rw [minedShards, mapM_run_fst (fun shard => sameValue_minedBy ho ho m shard) _ s t,
    Shard.partition, List.map_map]
  rfl

/-! ## Patterns -/

theorem patterns_minedBy_perm (ho : o.AnswersBy f)
    (hlocal : ∀ l h e, f l h = .error e → e.isHunkLocal = true) (m : Miner)
    {shard shard' : Shard} (h : shard.records.Perm shard'.records) (s t : σ) :
    ((p.minedBy m o shard).run s).1.patterns = ((p.minedBy m o shard').run t).1.patterns := by
  have hsequences :
      (((p.recordOutcomes o shard.records).run s).1.flatMap RecordOutcome.sequences).Perm
        (((p.recordOutcomes o shard'.records).run t).1.flatMap RecordOutcome.sequences) := by
    rw [recordOutcomes_eq_map ho hlocal _ s s, recordOutcomes_eq_map ho hlocal _ t s]
    exact (h.map _).flatMap_right _
  exact congrArg changePatterns (m.patterns_mine_perm hsequences)

def found (outcome : ShardOutcome) : String × List Pattern :=
  (outcome.shard, outcome.patterns)

theorem found_minedShards_perm (ho : o.AnswersBy f)
    (hlocal : ∀ l h e, f l h = .error e → e.isHunkLocal = true) (m : Miner)
    {rs rs' : List Record} (h : rs.Perm rs') (s t : σ) :
    ((p.minedShards m o rs).run s).1.map found = ((p.minedShards m o rs').run t).1.map found := by
  rw [minedShards_run_fst ho m rs s s, minedShards_run_fst ho m rs' t t, Shard.ids_perm h,
    List.map_map, List.map_map]
  refine List.map_congr_left fun id _ => ?_
  exact Prod.ext rfl (patterns_minedBy_perm ho hlocal m (h.filter _) s t)

theorem mergeShards_eq (outcomes : List ShardOutcome) :
    mergeShards outcomes =
      ((outcomes.map found).foldl (fun store entry => store.insert entry.1 entry.2)
        ShardStore.empty).merged := by
  rw [List.foldl_map]
  rfl

end Pipeline

/-! ## Filtering -/

theorem Confidence.count_perm {triggers changes : HeldOutHunk → Bool}
    {heldOut heldOut' : List HeldOutHunk} (h : heldOut.Perm heldOut') :
    count triggers changes heldOut = count triggers changes heldOut' := by
  rw [count, count, (h.filter _).length_eq, ((h.filter _).filter _).length_eq]

theorem Confidence.evaluate_perm (m : Matcher) {heldOut heldOut' : List HeldOutHunk}
    (h : heldOut.Perm heldOut') (q : Pattern) : evaluate m q heldOut = evaluate m q heldOut' := by
  rw [evaluate, evaluate]
  simp only [count_perm h]

theorem Filter.run_perm (m : Matcher) {heldOut heldOut' : List HeldOutHunk}
    (h : heldOut.Perm heldOut') (settings : FilterSettings) (qs : List Pattern) :
    run m settings heldOut qs = run m settings heldOut' qs := by
  have hscore : score m heldOut = score m heldOut' := by
    funext q
    rw [score, score, Confidence.evaluate_perm m h]
  rw [run, run, hscore]

namespace Pipeline

variable {p : Pipeline}

theorem prepareHeldOut_perm (ho : o.AnswersBy f) {rs rs' : List Record} (h : rs.Perm rs')
    (s t : σ) :
    (((p.prepareHeldOut o rs).run s).1).Perm ((p.prepareHeldOut o rs').run t).1 := by
  have hloop := mapM_run_fst fun r => sameValue_prepareRecord (p := p) ho ho r
  show (((rs.mapM (p.prepareRecord o)).run s).1.flatten).Perm
    ((rs'.mapM (p.prepareRecord o)).run t).1.flatten
  rw [hloop rs s s, hloop rs' t s]
  exact (h.map _).flatten

theorem filter_run_fst (p : Pipeline) (o : Oracle σ) (qs : List Pattern) (rs : List Record)
    (s : σ) :
    ((p.filter o qs rs).run.run s).1 =
      Filter.run p.tools.matcher p.configuration.filter ((p.prepareHeldOut o rs).run s).1 qs := rfl

theorem filter_perm (ho : o.AnswersBy f) {rs rs' : List Record} (h : rs.Perm rs')
    (qs : List Pattern) (s t : σ) :
    ((p.filter o qs rs).run.run s).1 = ((p.filter o qs rs').run.run t).1 := by
  rw [filter_run_fst, filter_run_fst]
  exact Filter.run_perm p.tools.matcher (prepareHeldOut_perm ho h s t) p.configuration.filter qs

/-- Filtering succeeds if the searches for the patterns that reach it can be built. -/
theorem exists_filter_eq_ok (qs : List Pattern)
    (hbuilds : ∀ q ∈ Filter.maximal p.configuration.filter qs, p.tools.matcher.BuildsFor q)
    (o : Oracle σ) (rs : List Record) (s : σ) :
    ∃ filtered, ((p.filter o qs rs).run.run s).1 = .ok filtered := by
  cases hfilter : ((p.filter o qs rs).run.run s).1 with
  | ok filtered => exact ⟨filtered, rfl⟩
  | error e =>
      obtain ⟨q, hmaximal, hq⟩ := Filter.exists_of_run_eq_error hfilter
      obtain ⟨side, reason, hrefused, -⟩ := Confidence.exists_of_evaluate_eq_error hq
      obtain ⟨search, hbuilt⟩ := hbuilds q hmaximal side
      cases hbuilt.symm.trans hrefused

/-! ## Whole runs -/

/-- What a run reports: what is found in each shard, the merged list, the artifact and
the counts. -/
def reported (r : Run) :
    List (String × List Pattern) × List Pattern × List ScoredPattern × FilterReport :=
  (r.shards.map fun outcome => (outcome.shard, outcome.patterns), r.merged, r.artifact, r.report)

/-- However the training and the held-out records are ordered, and whatever the
oracle remembers, a run finds the same patterns in every shard, merges the same
list, keeps the same artifact and reports the same counts. It does not fail if the
matcher can build all searches, and where it fails it fails alike. -/
theorem run_forgets_order {files : FileView} {tools : Tools} {c : Configuration}
    (hp : create files tools c = .ok p) (ho : o.AnswersBy f)
    (hlocal : ∀ l h e, f l h = .error e → e.isHunkLocal = true)
    {training training' heldOut heldOut' : List Record} (htraining : training.Perm training')
    (hheldOut : heldOut.Perm heldOut') (s s' : σ) :
    ((p.run o training heldOut).run.run s).1.map reported =
        ((p.run o training' heldOut').run.run s').1.map reported ∧
      ((∀ q, tools.matcher.BuildsFor q) →
        ∃ r, ((p.run o training heldOut).run.run s).1 = .ok r) := by
  obtain ⟨m, hm⟩ := exists_miner_of_create hp
  obtain ⟨-, -, -, -, rfl⟩ := parts_of_create hp
  have hfound := found_minedShards_perm (p := p) ho hlocal m htraining s s'
  have hmerged : mergeShards ((p.minedShards m o training).run s).1 =
      mergeShards ((p.minedShards m o training').run s').1 := by
    rw [mergeShards_eq, mergeShards_eq, hfound]
  rw [run_run_fst hm, run_run_fst hm]
  dsimp only
  constructor
  · rw [hmerged, filter_perm ho hheldOut _ _ ((p.minedShards m o training').run s').2]
    cases ((p.filter o _ heldOut').run.run ((p.minedShards m o training').run s').2).1 with
    | error e => rfl
    | ok filtered =>
        refine congrArg Except.ok ?_
        exact Prod.ext hfound (Prod.ext hmerged rfl)
  · intro hbuilds
    obtain ⟨filtered, hfiltered⟩ := exists_filter_eq_ok
      (mergeShards ((p.minedShards m o training).run s).1) (fun q _ => hbuilds q) o heldOut
      ((p.minedShards m o training).run s).2
    exact ⟨_, by rw [hfiltered]; rfl⟩

/-- An oracle that matches nothing, and has no answer for one language. -/
def matchNothing : Language → Hunk → Result StructuralDiff
  | .typeScript, _ => .error (.oracle "no answer" none none)
  | _, _ => .ok ⟨[], []⟩

/-- The edit is found in two of three records, in whatever order these come. -/
theorem run_forgets_order_of_swap :
    let files : FileView := ⟨fun _ => false, fun _ => .error .notFound⟩
    let p : Pipeline := ⟨.default, .add .builtin [], .python, ⟨.lexical, .overlapping⟩⟩
    let a : Record := ⟨some "a.py", none, ⟨["i = 1"], ["i = 2"]⟩⟩
    let b : Record := ⟨some "b.ts", none, ⟨["let y = 1"], ["let y = 2"]⟩⟩
    create files ⟨.lexical, .overlapping⟩ .default = .ok p ∧
      [a, b, a].Perm [b, a, a] ∧ [a, b].Perm [b, a] ∧
      ∃ r r', ((p.run (.ofFunction matchNothing) [a, b, a] [a, b]).run.run 0).1 = .ok r ∧
        ((p.run (.ofFunction matchNothing) [b, a, a] [b, a]).run.run 7).1 = .ok r' ∧
        reported r = reported r' ∧
        r.merged =
          [⟨[⟨.removed, "1"⟩, ⟨.added, "2"⟩], 2⟩, ⟨[⟨.kept, "i="⟩, ⟨.added, "2"⟩], 2⟩,
            ⟨[⟨.kept, "i="⟩, ⟨.removed, "1"⟩], 2⟩,
            ⟨[⟨.kept, "i="⟩, ⟨.removed, "1"⟩, ⟨.added, "2"⟩], 2⟩] := by
  intro files p a b
  have hp : create files ⟨.lexical, .overlapping⟩ .default = .ok p :=
    create_eq_ok rfl rfl (by decide)
  have hlocal : ∀ l h e, matchNothing l h = .error e → e.isHunkLocal = true := by
    intro l h e he
    rw [matchNothing.eq_def] at he
    split at he
    · cases he
      rfl
    · cases he
  have htraining : [a, b, a].Perm [b, a, a] := List.Perm.swap b a [a]
  have hheldOut : [a, b].Perm [b, a] := List.Perm.swap b a []
  obtain ⟨hsame, hbuilds⟩ := run_forgets_order hp (Oracle.answersBy_ofFunction matchNothing)
    hlocal htraining hheldOut 0 7
  obtain ⟨r, hr⟩ := hbuilds buildsFor_overlapping
  rw [hr] at hsame
  cases hr' : ((p.run (.ofFunction matchNothing) [b, a, a] [b, a]).run.run 7).1 with
  | error e =>
      rw [hr'] at hsame
      nomatch hsame
  | ok r' =>
      rw [hr'] at hsame
      refine ⟨hp, htraining, hheldOut, r, r', hr, rfl, Except.ok.inj hsame, ?_⟩
      -- What the records come to is evaluated, and then what is mined in it.
      have hm : p.miner = .ok ⟨2, 15, by decide⟩ := rfl
      have hshards : Shard.partition .byYear [a, b, a] = [⟨"unknown", [a, b, a]⟩] := by cbv
      have houtcomes : ((p.recordOutcomes (.ofFunction matchNothing) [a, b, a]).run 0).1 =
          [.sequenced [[⟨.kept, "i="⟩, ⟨.removed, "1"⟩, ⟨.added, "2"⟩]] .zero,
            .skipped (.oracle "no answer" none none),
            .sequenced [[⟨.kept, "i="⟩, ⟨.removed, "1"⟩, ⟨.added, "2"⟩]] .zero] := by
        decide +kernel
      obtain ⟨hmined, hmerged⟩ := shards_of_run hm hr
      rw [hmerged, hmined, minedShards_run_fst_of_one (p := p) _ _ hshards, houtcomes]
      cbv

end Pipeline

end EditMining
