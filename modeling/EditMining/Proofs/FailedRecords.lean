import EditMining.Proofs.OrderIndependence

/-!
# Failures are contained

A record's hunk can fail in either of its questions to the oracle, and its
failure can be confined to it or not. Whatever happens, the outcome of a shard
is a function of what becomes of its records one by one (`mined_eq`):
the list of these outcomes is cut behind the first failure that is not
confined, and sequences and tallies are read off what is left.

Two small facts carry everything else. A failed record, like a skipped one,
brings neither sequences nor tallies with it, so the one at which a shard ends
can be put aside (`ofOutcomes_failed`), and a skipped one shows in its own
counter only (`ofOutcomes_skipped`).

Each record is looked at on its own here, with a tally that begins at zero. That one
tally for all of them counts the same is `sequenceRecords_eq`.
-/

namespace EditMining

variable {σ : Type} {f : Language → Hunk → Result StructuralDiff} {o : Oracle σ}

/-! ## Outcomes up to a failure -/

theorem upToFailure_append {xs : List RecordOutcome} (h : ∀ x ∈ xs, x.failure? = none)
    (ys : List RecordOutcome) : upToFailure (xs ++ ys) = xs ++ upToFailure ys := by
  induction xs with
  | nil => rfl
  | cons x rest ih =>
      have hx : x.failure?.isSome = false := by
        rw [h x List.mem_cons_self]
        rfl
      rw [List.cons_append, upToFailure, hx, ih fun y hy => h y (List.mem_cons_of_mem _ hy)]
      rfl

theorem upToFailure_singleton (x : RecordOutcome) : upToFailure [x] = [x] := by
  rw [upToFailure]
  split <;> rfl

theorem findSome?_upToFailure (xs : List RecordOutcome) :
    (upToFailure xs).findSome? RecordOutcome.failure? = xs.findSome? RecordOutcome.failure? := by
  induction xs with
  | nil => rfl
  | cons x rest ih => cases x <;> first | rfl | exact ih

theorem flatMap_sequences_upToFailure (xs : List RecordOutcome) :
    (upToFailure xs).flatMap RecordOutcome.sequences =
      (xs.takeWhile fun x => x.failure?.isNone).flatMap RecordOutcome.sequences := by
  induction xs with
  | nil => rfl
  | cons x rest ih =>
      cases x with
      | failed e => rfl
      | emptySide | unsupported | skipped e => exact ih
      | sequenced ss t => exact congrArg (ss ++ ·) ih

/-! ## Outcomes that differ by a record -/

/-- The same outcome with one record more, which is skipped. -/
def ShardOutcome.withSkipped (m : ShardOutcome) : ShardOutcome :=
  { m with
    stats := { m.stats with
      records := m.stats.records + 1
      skippedHunks := m.stats.skippedHunks + 1 } }

/-- The same outcome, but of so many records and ended by a failure. -/
def ShardOutcome.failedWith (m : ShardOutcome) (records : Nat) (e : Error) : ShardOutcome :=
  { m with
    stats := { m.stats with records := records }
    failure := some e.message }

namespace Pipeline

variable {p : Pipeline}

/-! ## One record -/

/-- What becomes of a record. -/
def outcomeOf (p : Pipeline) (o : Oracle σ) (s : σ) (r : Record) : RecordOutcome :=
  ((p.recordOutcome o r).run s).1

/-- Why the hunk of a record fails, if it is worked on and fails. -/
def errorOf? (p : Pipeline) (o : Oracle σ) (s : σ) (r : Record) : Option Error :=
  if r.hunk.hasEmptySide then none
  else
    match p.tokenizerFor? r with
    | none => none
    | some tk =>
        match ((p.sequenceHunk o tk r.hunk).runFrom .zero s).1.1 with
        | .ok _ => none
        | .error e => some e

/-- A record whose failure is not confined to it. -/
def isFatal (p : Pipeline) (o : Oracle σ) (s : σ) (r : Record) : Bool :=
  (p.errorOf? o s r).any fun e => !e.isHunkLocal

/-- A record that is worked on and does not fail. -/
def isSequenced (p : Pipeline) (o : Oracle σ) (s : σ) (r : Record) : Bool :=
  !r.hunk.hasEmptySide && (p.tokenizerFor? r).isSome && (p.errorOf? o s r).isNone

/-- The ways a record can go, told by its error and by whether it was worked
on. -/
theorem outcomeOf_cases (p : Pipeline) (o : Oracle σ) (s : σ) (r : Record) :
    (p.errorOf? o s r = none ∧ p.isSequenced o s r = false ∧
        (p.outcomeOf o s r = .emptySide ∨ p.outcomeOf o s r = .unsupported)) ∨
      (p.errorOf? o s r = none ∧ p.isSequenced o s r = true ∧
        ∃ ss t, p.outcomeOf o s r = .sequenced ss t) ∨
      ∃ e, p.errorOf? o s r = some e ∧ p.isSequenced o s r = false ∧
        p.outcomeOf o s r = if e.isHunkLocal then .skipped e else .failed e := by
  rw [isSequenced, outcomeOf, errorOf?, recordOutcome]
  by_cases hempty : r.hunk.hasEmptySide = true
  · rw [if_pos hempty, if_pos hempty, hempty]
    exact .inl ⟨rfl, rfl, .inl rfl⟩
  rw [if_neg hempty, if_neg hempty, Bool.eq_false_iff.2 hempty]
  cases htokenizer : p.tokenizerFor? r with
  | none => exact .inl ⟨rfl, rfl, .inr rfl⟩
  | some tk =>
      refine .inr ?_
      have houtcome : ((do
          let result ← ((p.sequenceHunk o tk r.hunk).handedOn .zero).run
          pure (.ofResult result) : StateM σ RecordOutcome).run s).1 =
          .ofResult (((p.sequenceHunk o tk r.hunk).handedOn .zero).run.run s).1 := rfl
      dsimp only
      rw [houtcome]
      cases hrun : (p.sequenceHunk o tk r.hunk).runFrom .zero s with
      | mk made s' =>
          obtain ⟨result, t⟩ := made
          cases result with
          | ok ss =>
              rw [CountingSession.run_handedOn_of_ok hrun]
              exact .inl ⟨rfl, rfl, ss, t, rfl⟩
          | error e =>
              rw [CountingSession.run_handedOn_of_error hrun]
              exact .inr ⟨e, rfl, rfl, rfl⟩

theorem outcomeOf_skipped {s : σ} {r : Record} {e : Error} (h : p.errorOf? o s r = some e)
    (hlocal : e.isHunkLocal = true) : p.outcomeOf o s r = .skipped e := by
  rcases outcomeOf_cases p o s r with ⟨hnone, -⟩ | ⟨hnone, -⟩ | ⟨e', he', -, houtcome⟩
  · rw [h] at hnone
    nomatch hnone
  · rw [h] at hnone
    nomatch hnone
  · rw [houtcome, ← Option.some.inj (h.symm.trans he'), if_pos hlocal]

theorem outcomeOf_failed {s : σ} {r : Record} {e : Error} (h : p.errorOf? o s r = some e)
    (hlocal : e.isHunkLocal = false) : p.outcomeOf o s r = .failed e := by
  rcases outcomeOf_cases p o s r with ⟨hnone, -⟩ | ⟨hnone, -⟩ | ⟨e', he', -, houtcome⟩
  · rw [h] at hnone
    nomatch hnone
  · rw [h] at hnone
    nomatch hnone
  · rw [houtcome, ← Option.some.inj (h.symm.trans he'), hlocal]
    rfl

theorem isSome_failure?_outcomeOf (p : Pipeline) (o : Oracle σ) (s : σ) (r : Record) :
    (p.outcomeOf o s r).failure?.isSome = p.isFatal o s r := by
  rw [isFatal]
  rcases outcomeOf_cases p o s r with ⟨hnone, -, houtcome | houtcome⟩ |
    ⟨hnone, -, ss, t, houtcome⟩ | ⟨e, he, -, houtcome⟩
  · rw [hnone, houtcome]
    rfl
  · rw [hnone, houtcome]
    rfl
  · rw [hnone, houtcome]
    rfl
  · rw [he, houtcome]
    cases hlocal : e.isHunkLocal <;> simp [RecordOutcome.failure?, hlocal]

theorem failure?_outcomeOf {s : σ} {r : Record} (h : p.isFatal o s r = false) :
    (p.outcomeOf o s r).failure? = none := by
  rw [← isSome_failure?_outcomeOf] at h
  exact Option.isSome_eq_false_iff.1 h |> Option.isNone_iff_eq_none.1

theorem isSequenced_eq (p : Pipeline) (o : Oracle σ) (s : σ) (r : Record)
    (h : p.isFatal o s r = false) :
    p.isSequenced o s r = !((p.outcomeOf o s r).isEmptySide ||
      (p.outcomeOf o s r).isUnsupported || (p.outcomeOf o s r).isSkipped) := by
  rcases outcomeOf_cases p o s r with ⟨-, hworked, houtcome | houtcome⟩ |
    ⟨-, hworked, ss, t, houtcome⟩ | ⟨e, he, hworked, houtcome⟩
  · rw [hworked, houtcome]
    rfl
  · rw [hworked, houtcome]
    rfl
  · rw [hworked, houtcome]
    rfl
  · rw [isFatal, he] at h
    have hlocal : e.isHunkLocal = true := by simpa using h
    rw [hworked, houtcome, if_pos hlocal]
    rfl

/-! ## One shard -/

/-- What mining some records as one shard gives, by a miner. -/
def mined (p : Pipeline) (m : Miner) (o : Oracle σ) (s : σ) (id : String) (rs : List Record) :
    ShardOutcome :=
  ((p.minedBy m o ⟨id, rs⟩).run s).1

theorem mined_eq (ho : o.AnswersBy f) (m : Miner) (id : String) (rs : List Record) (s : σ) :
    p.mined m o s id rs = .ofOutcomes m ⟨id, rs⟩ (upToFailure (rs.map (p.outcomeOf o s))) :=
  congrArg (ShardOutcome.ofOutcomes m ⟨id, rs⟩) (recordOutcomes_run_fst ho rs s s)

theorem sequences_ofOutcomes (m : Miner) (shard : Shard) (xs : List RecordOutcome) :
    (ShardOutcome.ofOutcomes m shard xs).sequences = xs.flatMap RecordOutcome.sequences :=
  rfl

/-- One skipped record among others shows in its own counter only. -/
theorem ofOutcomes_skipped (m : Miner) (id : String) (rs : List Record) {rs' : List Record}
    (hrs : rs'.length = rs.length + 1) (xs ys : List RecordOutcome) (e : Error) :
    ShardOutcome.ofOutcomes m ⟨id, rs'⟩ (xs ++ .skipped e :: ys) =
      (ShardOutcome.ofOutcomes m ⟨id, rs⟩ (xs ++ ys)).withSkipped := by
  have hsequences : (xs ++ .skipped e :: ys).flatMap RecordOutcome.sequences =
      (xs ++ ys).flatMap RecordOutcome.sequences := by
    rw [List.flatMap_append, List.flatMap_append]
    rfl
  have htally : Tally.sum ((xs ++ .skipped e :: ys).map RecordOutcome.tally) =
      Tally.sum ((xs ++ ys).map RecordOutcome.tally) := by
    rw [Tally.sum, Tally.sum, List.map_append, List.map_append, List.foldr_append,
      List.foldr_append, List.map_cons, List.foldr_cons]
    exact congrArg (List.foldr _ · _) (Tally.zero_add _)
  have hfailure : (xs ++ .skipped e :: ys).findSome? RecordOutcome.failure? =
      (xs ++ ys).findSome? RecordOutcome.failure? := by
    rw [List.findSome?_append, List.findSome?_append]
    rfl
  simp only [ShardOutcome.withSkipped, ShardOutcome.ofOutcomes, ShardStats.ofOutcomes,
    hsequences, htally, hfailure, hrs]
  simp [List.countP_append, List.countP_cons, RecordOutcome.isEmptySide,
    RecordOutcome.isUnsupported, RecordOutcome.isSkipped, Nat.add_assoc]

/-- The failure at the end of the outcomes is all that tells a shard that fails
from the shard of the records before. -/
theorem ofOutcomes_failed (m : Miner) (id : String) (rs rs' : List Record)
    {xs : List RecordOutcome} (hxs : ∀ x ∈ xs, x.failure? = none) (e : Error) :
    ShardOutcome.ofOutcomes m ⟨id, rs'⟩ (xs ++ [.failed e]) =
      (ShardOutcome.ofOutcomes m ⟨id, rs⟩ xs).failedWith rs'.length e := by
  have hsequences : (xs ++ [RecordOutcome.failed e]).flatMap RecordOutcome.sequences =
      xs.flatMap RecordOutcome.sequences := by
    rw [List.flatMap_append]
    exact List.append_nil _
  have htally : Tally.sum ((xs ++ [RecordOutcome.failed e]).map RecordOutcome.tally) =
      Tally.sum (xs.map RecordOutcome.tally) := by
    rw [Tally.sum, Tally.sum, List.map_append, List.foldr_append]
    rfl
  have hfailure : (xs ++ [RecordOutcome.failed e]).findSome? RecordOutcome.failure? = some e := by
    rw [List.findSome?_append, List.findSome?_eq_none_iff.2 hxs]
    rfl
  simp only [ShardOutcome.failedWith, ShardOutcome.ofOutcomes, ShardStats.ofOutcomes,
    hsequences, htally, hfailure]
  simp [List.countP_append, RecordOutcome.isEmptySide, RecordOutcome.isUnsupported,
    RecordOutcome.isSkipped]

/-! ## Shards that fail and shards that do not -/

theorem sequences_mined (ho : o.AnswersBy f) (m : Miner) (id : String) (rs : List Record) (s : σ) :
    (p.mined m o s id rs).sequences =
      (rs.takeWhile fun r => !p.isFatal o s r).flatMap fun r =>
        (p.mined m o s id [r]).sequences := by
  have hsingle : ∀ r, (p.mined m o s id [r]).sequences =
      (p.outcomeOf o s r).sequences := by
    intro r
    rw [mined_eq ho m, sequences_ofOutcomes, List.map_singleton,
      upToFailure_singleton]
    exact List.append_nil _
  have hfatal : ((fun x : RecordOutcome => x.failure?.isNone) ∘ p.outcomeOf o s) =
      fun r => !p.isFatal o s r := by
    funext r
    rw [Function.comp, ← isSome_failure?_outcomeOf, Option.not_isSome]
  rw [mined_eq ho m, sequences_ofOutcomes, flatMap_sequences_upToFailure,
    List.takeWhile_map, hfatal, List.flatMap_map]
  exact List.flatMap_congr fun r _ => (hsingle r).symm

theorem failure?_map_outcomeOf {s : σ} {xs : List Record} (h : ∀ x ∈ xs, p.isFatal o s x = false) :
    ∀ y ∈ xs.map (p.outcomeOf o s), y.failure? = none := by
  intro y hy
  obtain ⟨x, hx, rfl⟩ := List.mem_map.1 hy
  exact failure?_outcomeOf (h x hx)

theorem mined_of_skipped (ho : o.AnswersBy f) (m : Miner) (id : String) {s : σ} {xs : List Record}
    (hxs : ∀ x ∈ xs, p.isFatal o s x = false) {r : Record} {e : Error}
    (hr : p.errorOf? o s r = some e) (hlocal : e.isHunkLocal = true) (ys : List Record) :
    p.mined m o s id (xs ++ r :: ys) = (p.mined m o s id (xs ++ ys)).withSkipped := by
  have hbefore := failure?_map_outcomeOf hxs
  have hrest : upToFailure ((r :: ys).map (p.outcomeOf o s)) =
      .skipped e :: upToFailure (ys.map (p.outcomeOf o s)) := by
    rw [List.map_cons, outcomeOf_skipped hr hlocal]
    rfl
  rw [mined_eq ho m, mined_eq ho m, List.map_append, List.map_append,
    upToFailure_append hbefore, upToFailure_append hbefore, hrest]
  exact ofOutcomes_skipped m id (xs ++ ys) (by simp [Nat.add_assoc]) _ _ e

theorem mined_of_failed (ho : o.AnswersBy f) (m : Miner) (id : String) {s : σ} {xs : List Record}
    (hxs : ∀ x ∈ xs, p.isFatal o s x = false) {r : Record} {e : Error}
    (hr : p.errorOf? o s r = some e) (hlocal : e.isHunkLocal = false) (ys : List Record) :
    p.mined m o s id (xs ++ r :: ys) =
      (p.mined m o s id xs).failedWith (xs ++ r :: ys).length e := by
  have hbefore := failure?_map_outcomeOf hxs
  have hrest : upToFailure ((r :: ys).map (p.outcomeOf o s)) = [.failed e] := by
    rw [List.map_cons, outcomeOf_failed hr hlocal]
    rfl
  rw [mined_eq ho m, mined_eq ho m, List.map_append,
    upToFailure_append hbefore, hrest, upToFailure_eq_self hbefore]
  exact ofOutcomes_failed m id xs (xs ++ r :: ys) hbefore e

theorem failure_mined (ho : o.AnswersBy f) (m : Miner) (id : String) (rs : List Record) (s : σ) :
    (p.mined m o s id rs).failure.isSome = true ↔
      ∃ r ∈ rs, p.isFatal o s r = true := by
  rw [mined_eq ho m]
  show ((List.findSome? _ _).map Error.message).isSome = true ↔ _
  rw [Option.isSome_map, findSome?_upToFailure, List.findSome?_isSome_iff]
  constructor
  · rintro ⟨x, hx, hfails⟩
    obtain ⟨r, hr, rfl⟩ := List.mem_map.1 hx
    exact ⟨r, hr, (isSome_failure?_outcomeOf p o s r).symm.trans hfails⟩
  · rintro ⟨r, hr, hfatal⟩
    exact ⟨_, List.mem_map_of_mem hr, (isSome_failure?_outcomeOf p o s r).trans hfatal⟩

/-- A record that is not fatal is in one of four groups. -/
theorem length_eq_countP_outcomeOf {rs : List Record} {s : σ}
    (h : ∀ r ∈ rs, p.isFatal o s r = false) :
    rs.length = (rs.map (p.outcomeOf o s)).countP RecordOutcome.isEmptySide +
      (rs.map (p.outcomeOf o s)).countP RecordOutcome.isUnsupported +
      (rs.map (p.outcomeOf o s)).countP RecordOutcome.isSkipped +
      rs.countP (p.isSequenced o s) := by
  induction rs with
  | nil => rfl
  | cons r rest ih =>
      have hrest := ih fun x hx => h x (List.mem_cons_of_mem _ hx)
      rw [List.length_cons, hrest, List.map_cons, List.countP_cons, List.countP_cons,
        List.countP_cons, List.countP_cons, isSequenced_eq p o s r (h r List.mem_cons_self)]
      cases p.outcomeOf o s r <;> simp [RecordOutcome.isEmptySide, RecordOutcome.isUnsupported,
        RecordOutcome.isSkipped] <;> omega

theorem records_mined (ho : o.AnswersBy f) (m : Miner) (id : String) {rs : List Record} {s : σ}
    (h : ∀ r ∈ rs, p.isFatal o s r = false) :
    let stats := (p.mined m o s id rs).stats
    stats.records = stats.emptySides + stats.unsupported + stats.skippedHunks +
      rs.countP (p.isSequenced o s) := by
  rw [mined_eq ho m, upToFailure_eq_self (failure?_map_outcomeOf h)]
  exact length_eq_countP_outcomeOf h

theorem sequencing_mined (ho : o.AnswersBy f) (m : Miner) (id : String) {rs : List Record} {s : σ}
    (h : ∀ r ∈ rs, p.isFatal o s r = false) :
    (p.mined m o s id rs).stats.sequencing =
      Tally.sum (rs.map fun r => (p.mined m o s id [r]).stats.sequencing) := by
  have hsingle : ∀ r, (p.mined m o s id [r]).stats.sequencing =
      (p.outcomeOf o s r).tally := by
    intro r
    rw [mined_eq ho m, List.map_singleton, upToFailure_singleton]
    exact Tally.add_zero _
  rw [mined_eq ho m, upToFailure_eq_self (failure?_map_outcomeOf h)]
  show Tally.sum ((rs.map (p.outcomeOf o s)).map RecordOutcome.tally) = _
  rw [List.map_map]
  exact congrArg Tally.sum (List.map_congr_left fun r _ => (hsingle r).symm)

/-- Failures are contained. A shard can be mined whatever fails, and gives the
sequences of its records, each as it would on its own, up to the first one that fails
for a reason not confined to it. A record before that one whose failure is confined to
it shows in two counters only; the fatal one leaves what the records before it give, and
is the reason that is reported. Without a fatal record every record is counted in one
group, and what is dropped is what the records drop on their own. -/
theorem mineShard_contains_failures (p : Pipeline) (hpos : 0 < p.configuration.mining.minSupport)
    (ho : o.AnswersBy f) (id : String) (s : σ) :
    ∃ mined : List Record → ShardOutcome,
      (∀ rs, ((p.mineShard o ⟨id, rs⟩).run.run s).1 = .ok (mined rs)) ∧
      (∀ rs, (mined rs).sequences =
        (rs.takeWhile fun r => !p.isFatal o s r).flatMap fun r => (mined [r]).sequences) ∧
      (∀ xs r ys e, (∀ x ∈ xs, p.isFatal o s x = false) → p.errorOf? o s r = some e →
        e.isHunkLocal = true → mined (xs ++ r :: ys) = (mined (xs ++ ys)).withSkipped) ∧
      (∀ xs r ys e, (∀ x ∈ xs, p.isFatal o s x = false) → p.errorOf? o s r = some e →
        e.isHunkLocal = false →
        mined (xs ++ r :: ys) = (mined xs).failedWith (xs ++ r :: ys).length e) ∧
      (∀ rs, (mined rs).failure.isSome = true ↔ ∃ r ∈ rs, p.isFatal o s r = true) ∧
      ∀ rs, (∀ r ∈ rs, p.isFatal o s r = false) →
        let stats := (mined rs).stats
        stats.records = stats.emptySides + stats.unsupported + stats.skippedHunks +
            rs.countP (p.isSequenced o s) ∧
          stats.sequencing = Tally.sum (rs.map fun r => (mined [r]).stats.sequencing) := by
  obtain ⟨m, hm⟩ : ∃ m, p.miner = .ok m := ⟨_, miner_eq_ok hpos⟩
  refine ⟨p.mined m o s id, fun rs => ?_, fun rs => sequences_mined ho m id rs s,
    fun _ _ ys _ hxs hr hlocal => mined_of_skipped ho m id hxs hr hlocal ys,
    fun _ _ ys _ hxs hr hlocal => mined_of_failed ho m id hxs hr hlocal ys,
    fun rs => failure_mined ho m id rs s,
    fun _ h => ⟨records_mined ho m id h, sequencing_mined ho m id h⟩⟩
  rw [mineShard_eq hm]
  rfl

/-- An oracle that answers about single lines, cannot parse two of them, and
breaks down on more. -/
def breakDown (_ : Language) (h : Hunk) : Result StructuralDiff :=
  match h.condition.length with
  | 1 => .ok ⟨[], []⟩
  | 2 => .error (.oracle "no parse" none none)
  | _ => .error (.internal "out of memory" none)

/-- The second record is skipped, and the third one ends the shard. -/
theorem mineShard_contains_failures_of_breakDown :
    let p : Pipeline := ⟨.default, ⟨[]⟩, .python, ⟨.lexical, .overlapping⟩⟩
    let o : Oracle Nat := .ofFunction breakDown
    let a : Record := ⟨none, none, ⟨["i = 1"], ["i = 2"]⟩⟩
    let b : Record := ⟨none, none, ⟨["if x:", "  y"], ["y"]⟩⟩
    let c : Record := ⟨none, none, ⟨["x", "y", "z"], ["y"]⟩⟩
    0 < p.configuration.mining.minSupport ∧ p.isFatal o 0 a = false ∧
      p.errorOf? o 0 b = some (.oracle "no parse" none none) ∧
      p.errorOf? o 0 c = some (.internal "out of memory" none) ∧
      ∃ outcome, ((p.mineShard o ⟨"all", [a, b, c, a]⟩).run.run 0).1 = .ok outcome ∧
        outcome.sequences = [[⟨.kept, "i="⟩, ⟨.removed, "1"⟩, ⟨.added, "2"⟩]] ∧
        outcome.stats = ⟨4, 0, 0, 1, ⟨0, 0, 0⟩, 0⟩ ∧
        outcome.failure = some (Error.internal "out of memory" none).message := by
  intro p o a b c
  have hpos : 0 < p.configuration.mining.minSupport := by decide
  obtain ⟨mined, hmined, hsequences, hskipped, hfailed, -⟩ :=
    mineShard_contains_failures p hpos (Oracle.answersBy_ofFunction breakDown) "all" 0
  have ha : p.isFatal o 0 a = false := by decide +kernel
  have hb : p.isFatal o 0 b = false := by decide +kernel
  have hparse : p.errorOf? o 0 b = some (.oracle "no parse" none none) := by
    decide +kernel
  have hmemory : p.errorOf? o 0 c = some (.internal "out of memory" none) := by decide +kernel
  have hone : mined [a] = .ofOutcomes ⟨2, 15, by decide⟩ ⟨"all", [a]⟩
      ((p.recordOutcomes o [a]).run 0).1 := by
    refine Except.ok.inj ((hmined [a]).symm.trans ?_)
    rw [mineShard_eq (miner_eq_ok hpos)]
    rfl
  have houtcome : ((p.recordOutcomes o [a]).run 0).1 =
      [.sequenced [[⟨.kept, "i="⟩, ⟨.removed, "1"⟩, ⟨.added, "2"⟩]] .zero] := by decide +kernel
  rw [houtcome] at hone
  have hall : mined [a, b, c, a] =
      (mined [a]).withSkipped.failedWith 4 (.internal "out of memory" none) := by
    have htwo : mined [a, b] = (mined [a]).withSkipped :=
      hskipped [a] b [] _ (by simpa using ha) hparse rfl
    rw [← htwo]
    exact hfailed [a, b] c [a] _ (by simpa using ⟨ha, hb⟩) hmemory rfl
  refine ⟨hpos, ha, hparse, hmemory, _, hmined _, ?_, ?_, ?_⟩
  · rw [hall, hone]
    rfl
  · rw [hall, hone]
    rfl
  · rw [hall]
    rfl

end Pipeline

end EditMining
