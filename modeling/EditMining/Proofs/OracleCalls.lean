import EditMining.Proofs.FailedRecords
import Mathlib.Algebra.GroupWithZero.Nat

/-!
# The calls that an oracle gets

Every oracle can be watched: `Oracle.recording` answers as the oracle does and writes
each call down. Work with the watched oracle comes to the same as work without
(`Recorded`), so the calls are read off a run from an empty list (`callsFrom`), and what
the calls of a stage are follows from the calls of the stages it is made of.

A hunk is asked about while it is abstracted and once more while it is cut. In between
stands whatever the oracle answered to the first question, but abstraction changes lines
one by one, so whether there is a second question is settled by the hunk as it came in.

A session that fails has called the oracle in vain (`RecordedSession`). So as long as no
call fails for good, no record ends its shard, and then preparing the records as held out
asks the same questions in the same order.
-/

namespace EditMining

variable {σ α β : Type}

/-- A question to an oracle, and the answer. -/
structure OracleCall where
  language : Language
  hunk : Hunk
  answer : Result StructuralDiff

/-- A call whose failure is not confined to a hunk. -/
def OracleCall.isFatal (c : OracleCall) : Bool :=
  match c.answer with
  | .ok _ => false
  | .error e => !e.isHunkLocal

/-- The oracle that answers alike and writes each call down behind those before. -/
def Oracle.recording (o : Oracle σ) : Oracle (σ × List OracleCall) where
  answer l h memory :=
    let (answer, s) := o.answer l h memory.1
    (answer, s, memory.2 ++ [⟨l, h, answer⟩])

/-- The calls that are written down by some work, begun with a memory. -/
def callsFrom (s : σ) (y : StateM (σ × List OracleCall) α) : List OracleCall :=
  (y.run (s, [])).2.2

/-! ## Watched work -/

/-- The one does what the other does, and writes its calls down. -/
def Recorded (x : StateM σ α) (y : StateM (σ × List OracleCall) α) : Prop :=
  ∀ s log, y.run (s, log) = ((x.run s).1, (x.run s).2, log ++ callsFrom s y)

theorem recorded_pure (a : α) :
    Recorded (pure a : StateM σ α) (pure a : StateM (σ × List OracleCall) α) := by
  intro s log
  show (a, s, log) = (a, s, log ++ [])
  rw [List.append_nil]

section Recorded

variable {x : StateM σ α} {y : StateM (σ × List OracleCall) α} {f : α → StateM σ β}
  {g : α → StateM (σ × List OracleCall) β}

/-- The calls of the first work, then those of the work behind it. -/
theorem Recorded.callsFrom_bind (hxy : Recorded x y) (hfg : ∀ a, Recorded (f a) (g a)) (s : σ) :
    callsFrom s (y >>= g) = callsFrom s y ++ callsFrom (x.run s).2 (g (x.run s).1) := by
  show ((g (y.run (s, [])).1).run (y.run (s, [])).2).2.2 = _
  rw [hxy s []]
  show ((g (x.run s).1).run ((x.run s).2, [] ++ callsFrom s y)).2.2 = _
  rw [hfg (x.run s).1 (x.run s).2, List.nil_append]

theorem Recorded.bind (hxy : Recorded x y) (hfg : ∀ a, Recorded (f a) (g a)) :
    Recorded (x >>= f) (y >>= g) := by
  intro s log
  rw [hxy.callsFrom_bind hfg, ← List.append_assoc]
  show (g (y.run (s, log)).1).run (y.run (s, log)).2 = _
  rw [hxy s log]
  exact hfg (x.run s).1 (x.run s).2 _

/-- What is made of the value takes no calls. -/
theorem Recorded.callsFrom_bind_pure (hxy : Recorded x y) (k : α → β) (s : σ) :
    callsFrom s (y >>= fun a => Pure.pure (k a)) = callsFrom s y := by
  rw [hxy.callsFrom_bind (f := fun a => Pure.pure (k a)) fun a => recorded_pure (k a)]
  exact List.append_nil _

end Recorded

/-- The same for sessions. What such a session fails with was the answer to a call. -/
structure RecordedSession (x : Session σ α) (y : Session (σ × List OracleCall) α) : Prop where
  recorded : Recorded x.run y.run
  answered : ∀ s e, (x.run.run s).1 = .error e → ∃ c ∈ callsFrom s y.run, c.answer = .error e

namespace RecordedSession

theorem pure (a : α) :
    RecordedSession (pure a : Session σ α) (pure a : Session (σ × List OracleCall) α) :=
  ⟨recorded_pure (Except.ok a), fun _ _ h => nomatch h⟩

variable {x : Session σ α} {y : Session (σ × List OracleCall) α} {f : α → Session σ β}
  {g : α → Session (σ × List OracleCall) β} {s s' : σ} {a : α} {e : Error}

theorem recorded_bindCont (hfg : ∀ a, RecordedSession (f a) (g a)) (r : Except Error α) :
    Recorded (ExceptT.bindCont f r) (ExceptT.bindCont g r) := by
  cases r with
  | ok a => exact (hfg a).recorded
  | error e => exact recorded_pure (Except.error e)

theorem callsFrom_bind_of_ok (hxy : RecordedSession x y) (hfg : ∀ a, RecordedSession (f a) (g a))
    (h : x.run.run s = (.ok a, s')) :
    callsFrom s (y >>= g).run = callsFrom s y.run ++ callsFrom s' (g a).run := by
  have hcalls := hxy.recorded.callsFrom_bind (recorded_bindCont hfg) s
  rw [h] at hcalls
  exact hcalls

theorem callsFrom_bind_of_error (hxy : RecordedSession x y)
    (hfg : ∀ a, RecordedSession (f a) (g a)) (h : x.run.run s = (.error e, s')) :
    callsFrom s (y >>= g).run = callsFrom s y.run := by
  have hcalls := hxy.recorded.callsFrom_bind (recorded_bindCont hfg) s
  rw [h] at hcalls
  exact hcalls.trans (List.append_nil _)

theorem bind (hxy : RecordedSession x y) (hfg : ∀ a, RecordedSession (f a) (g a)) :
    RecordedSession (x >>= f) (y >>= g) := by
  refine ⟨hxy.recorded.bind (recorded_bindCont hfg), fun s e he => ?_⟩
  cases hx : x.run.run s with
  | mk result s' =>
      cases result with
      | ok a =>
          rw [run_bind_of_ok hx] at he
          obtain ⟨c, hc, hanswer⟩ := (hfg a).answered s' e he
          rw [hxy.callsFrom_bind_of_ok hfg hx]
          exact ⟨c, List.mem_append_right _ hc, hanswer⟩
      | error e' =>
          rw [run_bind_of_error hx] at he
          cases he
          rw [hxy.callsFrom_bind_of_error hfg hx]
          exact hxy.answered s _ (congrArg Prod.fst hx)

/-- What is made of the result takes no calls. -/
theorem callsFrom_bind_pure (hxy : RecordedSession x y) (k : α → β) (s : σ) :
    callsFrom s (y >>= fun a => Pure.pure (k a)).run = callsFrom s y.run := by
  have hpure : ∀ a, RecordedSession (Pure.pure (k a) : Session σ β) (Pure.pure (k a)) :=
    fun a => .pure (k a)
  cases hx : x.run.run s with
  | mk result s' =>
      cases result with
      | ok a =>
          rw [hxy.callsFrom_bind_of_ok hpure hx]
          exact List.append_nil _
      | error e => exact hxy.callsFrom_bind_of_error hpure hx

end RecordedSession

namespace Oracle

variable {o : Oracle σ}

theorem recordedSession_ask (o : Oracle σ) (l : Language) (h : Hunk) :
    RecordedSession (o.ask l h) (o.recording.ask l h) :=
  ⟨fun _ _ => rfl, fun s _ he => ⟨⟨l, h, (o.answer l h s).1⟩, List.mem_singleton_self _, he⟩⟩

end Oracle

/-! ## The stages -/

section Stages

variable (o : Oracle σ)

theorem recordedSession_abstractHunk (reserved : ReservedNames) (normalizes : Bool)
    (tk : Tokenizer) (h : Hunk) :
    RecordedSession (Abstraction.abstractHunk o reserved normalizes tk h)
      (Abstraction.abstractHunk o.recording reserved normalizes tk h) :=
  (o.recordedSession_ask tk.language _).bind fun _ => .pure _

theorem recordedSession_pairsOf (l : Language) (h : Hunk) :
    RecordedSession (Sequencing.pairsOf o l h) (Sequencing.pairsOf o.recording l h) := by
  rw [Sequencing.pairsOf, Sequencing.pairsOf]
  split
  · exact (o.recordedSession_ask l h).bind fun _ => .pure _
  · exact .pure _

theorem recordedSession_splitHunk (s : SequencingSettings) (l : Language) (h : Hunk) (t : Tally) :
    RecordedSession ((Sequencing.splitHunk s o l h).handedOn t)
      ((Sequencing.splitHunk s o.recording l h).handedOn t) := by
  rw [Sequencing.handedOn_splitHunk, Sequencing.handedOn_splitHunk]
  split
  · exact .pure _
  · exact (recordedSession_pairsOf o l h).bind fun _ => .pure _

namespace Pipeline

variable (p : Pipeline)

theorem recordedSession_abstractWithinCeiling (tk : Tokenizer) (h : Hunk) (t : Tally) :
    RecordedSession ((p.abstractWithinCeiling o tk h).handedOn t)
      ((p.abstractWithinCeiling o.recording tk h).handedOn t) := by
  rw [handedOn_abstractWithinCeiling, handedOn_abstractWithinCeiling]
  split
  · exact .pure _
  · exact (recordedSession_abstractHunk o _ _ tk h).bind fun _ => .pure _

theorem recordedSession_cutHunk (tk : Tokenizer) (h : Hunk) (t : Tally) :
    RecordedSession ((p.cutHunk o tk h).handedOn t)
      ((p.cutHunk o.recording tk h).handedOn t) := by
  rw [handedOn_cutHunk, handedOn_cutHunk]
  refine (recordedSession_abstractWithinCeiling o p tk h t).bind ?_
  rintro ⟨_ | h, t⟩
  · exact .pure _
  · exact recordedSession_splitHunk o _ tk.language h t

theorem recordedSession_sequenceHunk (tk : Tokenizer) (h : Hunk) (t : Tally) :
    RecordedSession ((p.sequenceHunk o tk h).handedOn t)
      ((p.sequenceHunk o.recording tk h).handedOn t) := by
  rw [handedOn_sequenceHunk, handedOn_sequenceHunk]
  exact (recordedSession_cutHunk o p tk h t).bind fun _ => .pure _

/-- A hunk that is counted in the shared tally is watched as well. -/
theorem recorded_sequenceHunk (tk : Tokenizer) (h : Hunk) (t : Tally) :
    Recorded ((p.sequenceHunk o tk h).run.run t) ((p.sequenceHunk o.recording tk h).run.run t) := by
  intro s log
  have hrecorded := (recordedSession_sequenceHunk o p tk h .zero).recorded s log
  have hcalls : callsFrom s ((p.sequenceHunk o.recording tk h).run.run t) =
      callsFrom s ((p.sequenceHunk o.recording tk h).handedOn .zero).run := by
    show ((p.sequenceHunk o.recording tk h).runFrom t (s, [])).2.2 = _
    rw [runFrom_sequenceHunk, callsFrom]
    cases ((p.sequenceHunk o.recording tk h).handedOn .zero).run.run (s, []) with
    | mk result memory => cases result <;> rfl
  show (p.sequenceHunk o.recording tk h).runFrom t (s, log) =
    (((p.sequenceHunk o tk h).runFrom t s).1, ((p.sequenceHunk o tk h).runFrom t s).2, _)
  rw [hcalls, runFrom_sequenceHunk, runFrom_sequenceHunk, hrecorded]
  cases ((p.sequenceHunk o tk h).handedOn .zero).run.run s with
  | mk result s' => cases result <;> rfl

theorem recorded_recordOutcome (r : Record) :
    Recorded (p.recordOutcome o r) (p.recordOutcome o.recording r) := by
  rw [recordOutcome, recordOutcome]
  split
  · exact recorded_pure _
  · split
    · exact recorded_pure _
    · exact Recorded.bind (recordedSession_sequenceHunk o p _ _ _).recorded fun _ =>
        recorded_pure _

/-- Going on behind a record, unless it failed. -/
theorem recorded_behind {x : StateM σ (List RecordOutcome)}
    {y : StateM (σ × List OracleCall) (List RecordOutcome)} (hxy : Recorded x y)
    (outcome : RecordOutcome) :
    Recorded
      (if outcome.failure?.isSome then pure [outcome] else do let more ← x; pure (outcome :: more))
      (if outcome.failure?.isSome then pure [outcome]
        else do let more ← y; pure (outcome :: more)) := by
  split
  · exact recorded_pure _
  · exact hxy.bind fun _ => recorded_pure _

theorem recorded_recordOutcomes (rs : List Record) :
    Recorded (p.recordOutcomes o rs) (p.recordOutcomes o.recording rs) := by
  induction rs with
  | nil => exact recorded_pure _
  | cons r rest ih => exact (recorded_recordOutcome o p r).bind (recorded_behind ih)

/-- A shard is mined in what its records come to. -/
theorem run_mineShard_eq (shard : Shard) :
    (p.mineShard o shard).run = p.recordOutcomes o shard.records >>= fun outcomes =>
      pure (do
        let w := (ShardWork.start shard.records.length).after outcomes
        let mined ← p.mineCorpus shard.id w.sequences
        .ok
          { mined with
            stats := { w.stats with oversizedSequences := mined.stats.oversizedSequences }
            failure := w.failure }) := by
  rw [mineShard, ExceptT.run_mk, sequenceRecords_eq p o shard.records rfl, bind_assoc]
  rfl

theorem recorded_mineShard (shard : Shard) :
    Recorded (p.mineShard o shard).run (p.mineShard o.recording shard).run := by
  rw [run_mineShard_eq, run_mineShard_eq]
  exact (recorded_recordOutcomes o p shard.records).bind fun _ => recorded_pure _

theorem recorded_prepareRecord (r : Record) :
    Recorded (p.prepareRecord o r) (p.prepareRecord o.recording r) := by
  rw [prepareRecord_eq, prepareRecord_eq]
  split
  · exact recorded_pure _
  · split
    · exact recorded_pure _
    · refine Recorded.bind (recordedSession_cutHunk o p _ _ _).recorded fun result => ?_
      cases result with
      | ok cut => exact recorded_pure _
      | error e => exact recorded_pure _

theorem recorded_prepareRecords (rs : List Record) :
    Recorded (rs.mapM (p.prepareRecord o)) (rs.mapM (p.prepareRecord o.recording)) := by
  induction rs with
  | nil => exact recorded_pure _
  | cons r rest ih =>
      rw [List.mapM_cons, List.mapM_cons]
      exact (recorded_prepareRecord o p r).bind fun _ => ih.bind fun _ => recorded_pure _

theorem recorded_prepareHeldOut (rs : List Record) :
    Recorded (p.prepareHeldOut o rs) (p.prepareHeldOut o.recording rs) :=
  (recorded_prepareRecords o p rs).bind fun _ => recorded_pure _

end Pipeline

end Stages

/-! ## The calls for a hunk -/

section Hunks

variable {o : Oracle σ} {tk : Tokenizer} {h : Hunk} {s s' : σ}

theorem Hunk.HasLinesOf.isSplit_eq {h' : Hunk} (hlines : h.HasLinesOf h') :
    Sequencing.isSplit h = Sequencing.isSplit h' := by
  rw [Sequencing.isSplit, Sequencing.isSplit, hlines.1, hlines.2]

theorem callsFrom_abstractHunk (o : Oracle σ) (reserved : ReservedNames) (normalizes : Bool)
    (tk : Tokenizer) (h : Hunk) (s : σ) :
    let asked := (Abstraction.prepare normalizes tk h).hunk
    callsFrom s (Abstraction.abstractHunk o.recording reserved normalizes tk h).run =
      [⟨tk.language, asked, (o.answer tk.language asked s).1⟩] :=
  (o.recordedSession_ask tk.language _).callsFrom_bind_pure _ s

theorem callsFrom_pairsOf (o : Oracle σ) (l : Language) (h : Hunk) (s : σ) :
    callsFrom s (Sequencing.pairsOf o.recording l h).run =
      if Sequencing.isSplit h then [⟨l, h, (o.answer l h s).1⟩] else [] := by
  rw [Sequencing.pairsOf]
  split
  · exact (o.recordedSession_ask l h).callsFrom_bind_pure _ s
  · rfl

theorem callsFrom_splitHunk {settings : SequencingSettings} {l : Language}
    (hsize : ¬ settings.maxHunkLines < h.maxSideLength) (t : Tally) (s : σ) :
    callsFrom s ((Sequencing.splitHunk settings o.recording l h).handedOn t).run =
      if Sequencing.isSplit h then [⟨l, h, (o.answer l h s).1⟩] else [] := by
  rw [Sequencing.handedOn_splitHunk, if_neg hsize, ← callsFrom_pairsOf]
  exact (recordedSession_pairsOf o l h).callsFrom_bind_pure _ s

/-- What abstraction asks, and what it hands on. -/
theorem run_abstractHunk (o : Oracle σ) (reserved : ReservedNames) (normalizes : Bool)
    (tk : Tokenizer) (h : Hunk) (s : σ) :
    let a := Abstraction.prepare normalizes tk h
    (Abstraction.abstractHunk o reserved normalizes tk h).run.run s =
      ((o.answer tk.language a.hunk s).1.map fun d => Abstraction.applyDiff reserved d a,
        (o.answer tk.language a.hunk s).2) := by
  intro a
  cases hanswer : o.answer tk.language a.hunk s with
  | mk answer s' =>
      cases answer with
      | ok d => exact run_bind_of_ok hanswer _
      | error e => exact run_bind_of_error hanswer _

namespace Pipeline

variable {p : Pipeline}

theorem handedOn_cutHunk_of_le (p : Pipeline) (o : Oracle σ) (tk : Tokenizer) {h : Hunk}
    (hsize : ¬ p.configuration.sequencing.maxHunkLines < h.maxSideLength) (t : Tally) :
    (p.cutHunk o tk h).handedOn t = (do
      let a ← Abstraction.abstractHunk o p.reserved
        p.configuration.abstraction.normalizesFunctionNames tk h
      (Sequencing.splitHunk p.configuration.sequencing o tk.language a.hunk).handedOn t) := by
  rw [handedOn_cutHunk, handedOn_abstractWithinCeiling, if_neg hsize, bind_assoc]
  rfl

theorem callsFrom_cutHunk_of_lt
    (hsize : p.configuration.sequencing.maxHunkLines < h.maxSideLength) (t : Tally) (s : σ) :
    callsFrom s ((p.cutHunk o.recording tk h).handedOn t).run = [] := by
  rw [handedOn_cutHunk, handedOn_abstractWithinCeiling, if_pos hsize]
  rfl

/-- A hunk that fails to be abstracted is asked about once. -/
theorem callsFrom_cutHunk_of_error
    (hsize : ¬ p.configuration.sequencing.maxHunkLines < h.maxSideLength) (t : Tally) {e : Error}
    (hrun : (Abstraction.abstractHunk o p.reserved
      p.configuration.abstraction.normalizesFunctionNames tk h).run.run s = (.error e, s')) :
    callsFrom s ((p.cutHunk o.recording tk h).handedOn t).run =
      callsFrom s (Abstraction.abstractHunk o.recording p.reserved
        p.configuration.abstraction.normalizesFunctionNames tk h).run := by
  rw [handedOn_cutHunk_of_le p o.recording tk hsize]
  exact (recordedSession_abstractHunk o _ _ tk h).callsFrom_bind_of_error
    (fun a => recordedSession_splitHunk o _ tk.language a.hunk t) hrun

/-- A hunk that is abstracted is asked about again if it is to be cut. -/
theorem callsFrom_cutHunk_of_ok
    (hsize : ¬ p.configuration.sequencing.maxHunkLines < h.maxSideLength) (t : Tally)
    {a : AbstractedHunk}
    (hrun : (Abstraction.abstractHunk o p.reserved
      p.configuration.abstraction.normalizesFunctionNames tk h).run.run s = (.ok a, s')) :
    callsFrom s ((p.cutHunk o.recording tk h).handedOn t).run =
      callsFrom s (Abstraction.abstractHunk o.recording p.reserved
          p.configuration.abstraction.normalizesFunctionNames tk h).run ++
        if Sequencing.isSplit h then
          [⟨tk.language, a.hunk, (o.answer tk.language a.hunk s').1⟩]
        else [] := by
  have hlines : a.hunk.HasLinesOf h :=
    Abstraction.returns_abstractHunk o p.reserved _ tk h s a (congrArg Prod.fst hrun)
  have hsplit := callsFrom_splitHunk (o := o) (l := tk.language)
    (hlines.maxSideLength_eq ▸ hsize) t s'
  rw [hlines.isSplit_eq] at hsplit
  rw [handedOn_cutHunk_of_le p o.recording tk hsize, ← hsplit]
  exact (recordedSession_abstractHunk o _ _ tk h).callsFrom_bind_of_ok
    (fun a => recordedSession_splitHunk o _ tk.language a.hunk t) hrun

/-- Sequencing takes the calls of cutting. -/
theorem callsFrom_sequenceHunk (p : Pipeline) (o : Oracle σ) (tk : Tokenizer) (h : Hunk)
    (t : Tally) (s : σ) :
    callsFrom s ((p.sequenceHunk o.recording tk h).run.run t) =
      callsFrom s ((p.cutHunk o.recording tk h).handedOn t).run := by
  show callsFrom s ((p.sequenceHunk o.recording tk h).handedOn t).run = _
  rw [handedOn_sequenceHunk]
  exact (recordedSession_cutHunk o p tk h t).callsFrom_bind_pure _ s

end Pipeline

end Hunks

/-! ## The calls for records -/

namespace Pipeline

variable {p : Pipeline} {o : Oracle σ} {tk : Tokenizer} {r : Record} {rs : List Record} {s : σ}

/-- The tokenizer with which the hunk of a record is worked on, if it is worked on. -/
def workedWith? (p : Pipeline) (r : Record) : Option Tokenizer :=
  if r.hunk.hasEmptySide then none else p.tokenizerFor? r

/-- The calls that it takes to sequence the hunk of a record. -/
def recordCalls (p : Pipeline) (o : Oracle σ) (s : σ) (r : Record) : List OracleCall :=
  match p.workedWith? r with
  | none => []
  | some tk => callsFrom s ((p.sequenceHunk o.recording tk r.hunk).run.run .zero)

/-- The records of a shard up to the first that fails, each with what the oracle
remembers when its turn comes. -/
def visits (p : Pipeline) (o : Oracle σ) : List Record → σ → List (Record × σ)
  | [], _ => []
  | r :: rest, s =>
      let made := (p.recordOutcome o r).run s
      (r, s) :: if made.1.failure?.isSome then [] else p.visits o rest made.2

/-- The texts that come of the pairs of a hunk. -/
def heldOutOf (tk : Tokenizer) : Result (List Hunk × Tally) → List HeldOutHunk
  | .ok (pairs, _) => pairs.filterMap (compactPair? tk)
  | .error _ => []

/-! A record is worked on for training just if it is held out, and its hunk is cut for
either end. -/

theorem recordOutcome_of_none (h : p.workedWith? r = none) :
    ∃ outcome : RecordOutcome, outcome.failure? = none ∧
      ∀ {τ : Type} (o : Oracle τ), p.recordOutcome o r = pure outcome := by
  rw [workedWith?] at h
  split at h
  · next hempty => exact ⟨.emptySide, rfl, fun o => if_pos hempty⟩
  · next hsides =>
      refine ⟨.unsupported, rfl, fun o => ?_⟩
      rw [recordOutcome, if_neg hsides, h]

theorem recordOutcome_of_some (h : p.workedWith? r = some tk) (o : Oracle σ) :
    p.recordOutcome o r = (do
      let result ← ((p.sequenceHunk o tk r.hunk).handedOn .zero).run
      pure (.ofResult result)) := by
  rw [workedWith?] at h
  split at h
  · nomatch h
  · next hsides => rw [recordOutcome, if_neg hsides, h]

theorem prepareRecord_of_none (h : p.workedWith? r = none) (o : Oracle σ) :
    p.prepareRecord o r = pure [] := by
  rw [workedWith?] at h
  split at h
  · next hempty =>
      rw [prepareRecord_eq]
      exact if_pos hempty
  · next hsides => rw [prepareRecord_eq, if_neg hsides, h]

theorem prepareRecord_of_some (h : p.workedWith? r = some tk) (o : Oracle σ) :
    p.prepareRecord o r = (do
      let result ← ((p.cutHunk o tk r.hunk).handedOn .zero).run
      pure (heldOutOf tk result)) := by
  rw [workedWith?] at h
  split at h
  · nomatch h
  · next hsides =>
      rw [prepareRecord_eq, if_neg hsides, h]
      refine bind_congr fun result => ?_
      cases result with
      | ok cut => rfl
      | error e => rfl

theorem callsFrom_recordOutcome (p : Pipeline) (o : Oracle σ) (r : Record) (s : σ) :
    callsFrom s (p.recordOutcome o.recording r) = p.recordCalls o s r := by
  rw [recordCalls]
  cases hworked : p.workedWith? r with
  | none =>
      obtain ⟨outcome, -, hpure⟩ := recordOutcome_of_none hworked
      rw [hpure]
      rfl
  | some tk =>
      rw [recordOutcome_of_some hworked]
      exact (recordedSession_sequenceHunk o p tk r.hunk .zero).recorded.callsFrom_bind_pure _ s

theorem callsFrom_prepareRecord (p : Pipeline) (o : Oracle σ) (r : Record) (s : σ) :
    callsFrom s (p.prepareRecord o.recording r) = p.recordCalls o s r := by
  rw [recordCalls]
  cases hworked : p.workedWith? r with
  | none =>
      rw [prepareRecord_of_none hworked]
      rfl
  | some tk =>
      rw [prepareRecord_of_some hworked]
      dsimp only
      rw [callsFrom_sequenceHunk]
      exact (recordedSession_cutHunk o p tk r.hunk .zero).recorded.callsFrom_bind_pure _ s

/-- Sequencing a hunk leaves the oracle as cutting it does. -/
theorem sequenceHunk_run_snd (p : Pipeline) (o : Oracle σ) (tk : Tokenizer) (h : Hunk) (t : Tally)
    (s : σ) :
    (((p.sequenceHunk o tk h).handedOn t).run.run s).2 =
      (((p.cutHunk o tk h).handedOn t).run.run s).2 := by
  rw [handedOn_sequenceHunk]
  cases hcut : ((p.cutHunk o tk h).handedOn t).run.run s with
  | mk result s' =>
      cases result with
      | ok made => exact congrArg Prod.snd (run_bind_of_ok hcut _)
      | error e => exact congrArg Prod.snd (run_bind_of_error hcut _)

theorem prepareRecord_run_snd (p : Pipeline) (o : Oracle σ) (r : Record) (s : σ) :
    ((p.prepareRecord o r).run s).2 = ((p.recordOutcome o r).run s).2 := by
  cases hworked : p.workedWith? r with
  | none =>
      obtain ⟨outcome, -, hpure⟩ := recordOutcome_of_none hworked
      rw [prepareRecord_of_none hworked, hpure]
      rfl
  | some tk =>
      rw [prepareRecord_of_some hworked, recordOutcome_of_some hworked]
      exact (sequenceHunk_run_snd p o tk r.hunk .zero s).symm

/-- A record ends its shard only if one of its calls fails for good. -/
theorem failure?_recordOutcome_of_calls
    (hcalls : ∀ c ∈ p.recordCalls o s r, c.isFatal = false) :
    ((p.recordOutcome o r).run s).1.failure? = none := by
  rw [recordCalls] at hcalls
  cases hworked : p.workedWith? r with
  | none =>
      obtain ⟨outcome, hfailure, hpure⟩ := recordOutcome_of_none hworked
      rw [hpure]
      exact hfailure
  | some tk =>
      rw [hworked] at hcalls
      rw [recordOutcome_of_some hworked]
      show (RecordOutcome.ofResult
        (((p.sequenceHunk o tk r.hunk).handedOn .zero).run.run s).1).failure? = none
      cases hresult : (((p.sequenceHunk o tk r.hunk).handedOn .zero).run.run s).1 with
      | ok made => rfl
      | error e =>
          obtain ⟨c, hc, hanswer⟩ :=
            (recordedSession_sequenceHunk o p tk r.hunk .zero).answered s e hresult
          have hlocal := hcalls c hc
          rw [OracleCall.isFatal, hanswer, Bool.not_eq_false'] at hlocal
          rw [RecordOutcome.ofResult, if_pos hlocal]
          rfl

/-! ## The calls for shards -/

theorem map_fst_visits_prefix (p : Pipeline) (o : Oracle σ) (rs : List Record) (s : σ) :
    (p.visits o rs s).map Prod.fst <+: rs := by
  induction rs generalizing s with
  | nil => exact List.prefix_rfl
  | cons r rest ih =>
      rw [visits, List.map_cons]
      split
      · exact ⟨rest, rfl⟩
      · exact (List.prefix_cons_inj r).2 (ih _)

theorem map_outcomeOf_visits (p : Pipeline) (o : Oracle σ) (rs : List Record) (s : σ) :
    (p.visits o rs s).map (fun visit => p.outcomeOf o visit.2 visit.1) =
      ((p.recordOutcomes o rs).run s).1 := by
  induction rs generalizing s with
  | nil => rfl
  | cons r rest ih =>
      rw [visits, List.map_cons]
      show _ = ((if ((p.recordOutcome o r).run s).1.failure?.isSome = true then _ else _ :
        StateM σ (List RecordOutcome)).run _).1
      split
      · rfl
      · exact congrArg (_ :: ·) (ih _)

theorem callsFrom_recordOutcomes (p : Pipeline) (o : Oracle σ) (rs : List Record) (s : σ) :
    callsFrom s (p.recordOutcomes o.recording rs) =
      (p.visits o rs s).flatMap fun visit => p.recordCalls o visit.2 visit.1 := by
  induction rs generalizing s with
  | nil => rfl
  | cons r rest ih =>
      have hrest := recorded_recordOutcomes o p rest
      rw [visits, List.flatMap_cons, ← callsFrom_recordOutcome p o r s]
      refine ((recorded_recordOutcome o p r).callsFrom_bind (recorded_behind hrest) s).trans ?_
      refine congrArg (callsFrom s (p.recordOutcome o.recording r) ++ ·) ?_
      split
      · rfl
      · rw [← ih]
        exact hrest.callsFrom_bind_pure _ _

theorem callsFrom_mineShard (p : Pipeline) (o : Oracle σ) (shard : Shard) (s : σ) :
    callsFrom s (p.mineShard o.recording shard).run =
      (p.visits o shard.records s).flatMap fun visit => p.recordCalls o visit.2 visit.1 := by
  rw [← callsFrom_recordOutcomes, run_mineShard_eq]
  exact (recorded_recordOutcomes o p shard.records).callsFrom_bind_pure _ s

/-- Where no call fails for good, every record is worked on, and held out just so. -/
theorem callsFrom_prepareRecords {rs : List Record} {s : σ}
    (hcalls : ∀ c ∈ callsFrom s (p.recordOutcomes o.recording rs), c.isFatal = false) :
    callsFrom s (rs.mapM (p.prepareRecord o.recording)) =
      callsFrom s (p.recordOutcomes o.recording rs) := by
  induction rs generalizing s with
  | nil => rfl
  | cons r rest ih =>
      have hprepare := recorded_prepareRecords o p rest
      rw [callsFrom_recordOutcomes, visits, List.flatMap_cons] at hcalls ⊢
      have hfirst := failure?_recordOutcome_of_calls fun c hc =>
        hcalls c (List.mem_append_left _ hc)
      rw [hfirst] at hcalls ⊢
      rw [List.mapM_cons, (recorded_prepareRecord o p r).callsFrom_bind (fun texts =>
        hprepare.bind fun more => recorded_pure (texts :: more)), callsFrom_prepareRecord,
        hprepare.callsFrom_bind_pure, prepareRecord_run_snd]
      refine congrArg (p.recordCalls o s r ++ ·) ?_
      show _ = (p.visits o rest ((p.recordOutcome o r).run s).2).flatMap _
      rw [← callsFrom_recordOutcomes]
      refine ih fun c hc => hcalls c (List.mem_append_right _ ?_)
      rwa [callsFrom_recordOutcomes] at hc

theorem prepare_hunk (normalizes : Bool) (tk : Tokenizer) (h : Hunk) :
    (Abstraction.prepare normalizes tk h).hunk =
      if normalizes then (normalizeFunctionNames tk h .empty).1 else h := by
  cases normalizes <;> rfl

/-- The oracle is asked no more than needed, whatever it answers and remembers, and
whatever splits the code into tokens. A hunk with a side over the ceiling is not asked
about. Any other is asked about once as it is with its functions renamed, and that is all
if the oracle fails or the hunk is not to be cut; else it is asked about once more as it
is when it is abstracted. The calls for a shard are those for the records that are worked
on, one after the other, from the memory that each finds. Held out, the same records take
the same calls, if no call of the shard fails for good. -/
theorem oracle_calls_exact (p : Pipeline) (o : Oracle σ) (s : σ) :
    (∀ tk h t,
      let ceiling := p.configuration.sequencing.maxHunkLines
      let normalizes := p.configuration.abstraction.normalizesFunctionNames
      let l := tk.language
      let asked := if normalizes then (normalizeFunctionNames tk h .empty).1 else h
      let first : OracleCall := ⟨l, asked, (o.answer l asked s).1⟩
      let calls := callsFrom s ((p.sequenceHunk o.recording tk h).run.run t)
      Recorded ((p.sequenceHunk o tk h).run.run t)
        ((p.sequenceHunk o.recording tk h).run.run t) ∧
      (ceiling < h.condition.length ∨ ceiling < h.consequent.length → calls = []) ∧
      (h.condition.length ≤ ceiling → h.consequent.length ≤ ceiling →
        first.answer.isOk = false ∨ h.condition.length ≠ h.consequent.length ∨
          h.condition.length = 1 →
        calls = [first]) ∧
      (h.condition.length ≤ ceiling → h.condition.length = h.consequent.length →
        h.condition.length ≠ 1 → first.answer.isOk = true →
        ∃ a s', (Abstraction.abstractHunk o p.reserved normalizes tk h).run.run s = (.ok a, s') ∧
          calls = [first, ⟨l, a.hunk, (o.answer l a.hunk s').1⟩])) ∧
    ∀ shard : Shard,
      let visits := p.visits o shard.records s
      let calls := callsFrom s (p.mineShard o.recording shard).run
      Recorded (p.mineShard o shard).run (p.mineShard o.recording shard).run ∧
      visits.map Prod.fst <+: shard.records ∧
      visits.map (fun visit => p.outcomeOf o visit.2 visit.1) =
        ((p.recordOutcomes o shard.records).run s).1 ∧
      calls = visits.flatMap (fun visit => p.recordCalls o visit.2 visit.1) ∧
      calls.length = (visits.map fun visit => (p.recordCalls o visit.2 visit.1).length).sum ∧
      Recorded (p.prepareHeldOut o shard.records) (p.prepareHeldOut o.recording shard.records) ∧
      ((∀ c ∈ calls, c.isFatal = false) →
        callsFrom s (p.prepareHeldOut o.recording shard.records) = calls) := by
  refine ⟨fun tk h t => ?_, fun shard => ?_⟩
  · intro ceiling normalizes l asked first calls
    have hceiling : ceiling < h.maxSideLength ↔
        ceiling < h.condition.length ∨ ceiling < h.consequent.length := lt_max_iff
    have hsplit : Sequencing.isSplit h = true ↔
        h.condition.length = h.consequent.length ∧ h.condition.length ≠ 1 := by
      simp [Sequencing.isSplit]
    have hcalls : calls = callsFrom s ((p.cutHunk o.recording tk h).handedOn t).run :=
      callsFrom_sequenceHunk p o tk h t s
    have hfirst := callsFrom_abstractHunk o p.reserved normalizes tk h s
    have hrun := run_abstractHunk o p.reserved normalizes tk h s
    simp only [prepare_hunk] at hfirst hrun
    refine ⟨recorded_sequenceHunk o p tk h t, fun hlarge => ?_,
      fun hcondition hconsequent hone => ?_, fun hcondition hsame hmany hok => ?_⟩
    · exact hcalls.trans (callsFrom_cutHunk_of_lt (hceiling.2 hlarge) t s)
    · have hsize : ¬ ceiling < h.maxSideLength := by omega
      cases hanswer : (o.answer l asked s).1 with
      | error e =>
          rw [hanswer] at hrun
          exact hcalls.trans ((callsFrom_cutHunk_of_error hsize t hrun).trans hfirst)
      | ok d =>
          have hwhole : ¬ Sequencing.isSplit h = true := by
            rw [hsplit]
            rintro ⟨hsame, hmany⟩
            rcases hone with hfails | hdiffer | hsingle
            · rw [show first.answer = .ok d from hanswer] at hfails
              nomatch hfails
            · exact hdiffer hsame
            · exact hmany hsingle
          rw [hanswer] at hrun
          rw [hcalls, callsFrom_cutHunk_of_ok hsize t hrun, if_neg hwhole, hfirst]
          rfl
    · have hsize : ¬ ceiling < h.maxSideLength := by omega
      cases hanswer : (o.answer l asked s).1 with
      | error e =>
          rw [show first.answer = .error e from hanswer] at hok
          nomatch hok
      | ok d =>
          rw [hanswer] at hrun
          refine ⟨_, _, hrun, ?_⟩
          rw [hcalls, callsFrom_cutHunk_of_ok hsize t hrun, if_pos (hsplit.2 ⟨hsame, hmany⟩),
            hfirst]
          rfl
  · intro visits calls
    have hcalls : calls = visits.flatMap fun visit => p.recordCalls o visit.2 visit.1 :=
      callsFrom_mineShard p o shard s
    refine ⟨recorded_mineShard o p shard, map_fst_visits_prefix p o _ s,
      map_outcomeOf_visits p o _ s, hcalls, ?_, recorded_prepareHeldOut o p _, fun hlocal => ?_⟩
    · rw [hcalls, List.length_flatMap]
    · have hshard : calls = callsFrom s (p.recordOutcomes o.recording shard.records) :=
        hcalls.trans (callsFrom_recordOutcomes p o shard.records s).symm
      rw [hshard] at hlocal ⊢
      refine Eq.trans ?_ (callsFrom_prepareRecords hlocal)
      exact (recorded_prepareRecords o p shard.records).callsFrom_bind_pure _ s

/-- Of six records, three are not asked about, and the last call fails. -/
theorem oracle_calls_exact_of_six_records :
    let tk : Tokenizer := .ofParser .python Language.python.parse
    let p : Pipeline := ⟨.default, ⟨[]⟩, .python, ⟨.lexical, .overlapping⟩⟩
    let o : Oracle Nat :=
      ⟨fun _ _ calls =>
        (if calls = 3 then .error (.oracle "no answer" none none) else .ok ⟨[], []⟩, calls + 1)⟩
    let record (condition consequent : List String) : Record :=
      ⟨none, none, ⟨condition, consequent⟩⟩
    let long := ["a", "b", "c", "d", "e", "f"]
    let shard : Shard :=
      ⟨"all", [record ["x = 1"] ["x = 2"], record long ["a"], record ["a", "b"] ["a", "c"],
        record [] ["a"], ⟨some "a.txt", none, ⟨["a"], ["b"]⟩⟩, record ["a", "b"] ["c", "b"]]⟩
    let calls := callsFrom 0 (p.mineShard o.recording shard).run
    (∀ c ∈ calls, c.isFatal = false) ∧
      callsFrom 0 (p.prepareHeldOut o.recording shard.records) = calls ∧
      calls.map (fun c => c.hunk.condition) = [["x = 1"], ["a", "b"], ["a", "b"], ["a", "b"]] ∧
      (callsFrom 1 ((p.sequenceHunk o.recording tk ⟨["a", "b"], ["a", "c"]⟩).run.run
        .zero)).length = 2 := by
  intro tk p o record long shard calls
  have hlocal : ∀ c ∈ calls, c.isFatal = false := by decide +kernel
  have hhunks : calls.map (fun c => c.hunk.condition) =
      [["x = 1"], ["a", "b"], ["a", "b"], ["a", "b"]] := by decide +kernel
  obtain ⟨-, -, -, -, -, -, hsame⟩ := (oracle_calls_exact p o 0).2 shard
  obtain ⟨-, -, -, htwice⟩ := (oracle_calls_exact p o 1).1 tk ⟨["a", "b"], ["a", "c"]⟩ .zero
  obtain ⟨a, s', -, hcalls⟩ := htwice (by decide) rfl (by decide) rfl
  exact ⟨hlocal, hsame hlocal, hhunks, congrArg List.length hcalls⟩

end Pipeline

end EditMining
