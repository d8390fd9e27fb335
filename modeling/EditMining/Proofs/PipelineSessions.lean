import EditMining.Proofs.RecordOutcomes

/-!
# The stages as sessions

Two facts about the stages of the pipeline are proved here once, each stage from those it
calls. If two oracles answer every question alike, whatever they remember, then each
stage returns the same with either of them. And nothing fails of itself: a failure of a
stage is a failure of the oracle, so what is known of the oracle's failures is known of
the stage's.
-/

namespace EditMining

variable {σ τ : Type}

section Stages

variable {f : Language → Hunk → Result StructuralDiff} {o : Oracle σ} {o' : Oracle τ}

theorem sameResult_abstractHunk (ho : o.AnswersBy f) (ho' : o'.AnswersBy f)
    (reserved : ReservedNames) (normalizes : Bool) (tk : Tokenizer) (h : Hunk) :
    SameResult (Abstraction.abstractHunk o reserved normalizes tk h)
      (Abstraction.abstractHunk o' reserved normalizes tk h) :=
  (Oracle.sameResult_ask ho ho' tk.language _).bind fun _ => SameResult.pure _

theorem sameResult_splitHunk (ho : o.AnswersBy f) (ho' : o'.AnswersBy f) (s : SequencingSettings)
    (l : Language) (h : Hunk) (t : Tally) :
    SameResult ((Sequencing.splitHunk s o l h).handedOn t)
      ((Sequencing.splitHunk s o' l h).handedOn t) := by
  rw [Sequencing.handedOn_splitHunk, Sequencing.handedOn_splitHunk]
  split
  · exact SameResult.pure _
  · refine SameResult.bind ?_ fun _ => SameResult.pure _
    rw [Sequencing.pairsOf, Sequencing.pairsOf]
    split
    · exact (Oracle.sameResult_ask ho ho' l h).bind fun _ => SameResult.pure _
    · exact SameResult.pure _

namespace Pipeline

variable {p : Pipeline}

theorem sameResult_abstractWithinCeiling (ho : o.AnswersBy f) (ho' : o'.AnswersBy f)
    (tk : Tokenizer) (h : Hunk) (t : Tally) :
    SameResult ((p.abstractWithinCeiling o tk h).handedOn t)
      ((p.abstractWithinCeiling o' tk h).handedOn t) := by
  rw [handedOn_abstractWithinCeiling, handedOn_abstractWithinCeiling]
  split
  · exact SameResult.pure _
  · exact (sameResult_abstractHunk ho ho' _ _ tk h).bind fun _ => SameResult.pure _

theorem sameResult_cutHunk (ho : o.AnswersBy f) (ho' : o'.AnswersBy f) (tk : Tokenizer)
    (h : Hunk) (t : Tally) :
    SameResult ((p.cutHunk o tk h).handedOn t) ((p.cutHunk o' tk h).handedOn t) := by
  rw [handedOn_cutHunk, handedOn_cutHunk]
  refine (sameResult_abstractWithinCeiling ho ho' tk h t).bind ?_
  rintro ⟨_ | a, t⟩
  · exact SameResult.pure _
  · exact sameResult_splitHunk ho ho' _ tk.language a t

theorem sameResult_sequenceHunk (ho : o.AnswersBy f) (ho' : o'.AnswersBy f) (tk : Tokenizer)
    (h : Hunk) (t : Tally) :
    SameResult ((p.sequenceHunk o tk h).handedOn t) ((p.sequenceHunk o' tk h).handedOn t) := by
  rw [handedOn_sequenceHunk, handedOn_sequenceHunk]
  exact (sameResult_cutHunk ho ho' tk h t).bind fun _ => SameResult.pure _

theorem sameValue_recordOutcome (ho : o.AnswersBy f) (ho' : o'.AnswersBy f) (r : Record) :
    SameValue (p.recordOutcome o r) (p.recordOutcome o' r) := by
  rw [recordOutcome, recordOutcome]
  split
  · exact SameValue.pure _
  · split
    · exact SameValue.pure _
    · exact SameValue.bind (sameResult_sequenceHunk ho ho' _ _ _) fun _ => SameValue.pure _

theorem sameValue_recordOutcomes (ho : o.AnswersBy f) (ho' : o'.AnswersBy f) (rs : List Record) :
    SameValue (p.recordOutcomes o rs) (p.recordOutcomes o' rs) := by
  induction rs with
  | nil => exact SameValue.pure _
  | cons r rest ih =>
      refine (sameValue_recordOutcome ho ho' r).bind fun outcome => ?_
      split
      · exact SameValue.pure _
      · exact ih.bind fun _ => SameValue.pure _

theorem sameValue_minedBy (ho : o.AnswersBy f) (ho' : o'.AnswersBy f) (m : Miner)
    (shard : Shard) : SameValue (p.minedBy m o shard) (p.minedBy m o' shard) :=
  (sameValue_recordOutcomes ho ho' shard.records).bind fun _ => SameValue.pure _

theorem sameValue_prepareRecord (ho : o.AnswersBy f) (ho' : o'.AnswersBy f) (r : Record) :
    SameValue (p.prepareRecord o r) (p.prepareRecord o' r) := by
  rw [prepareRecord_eq, prepareRecord_eq]
  split
  · exact SameValue.pure _
  · split
    · exact SameValue.pure _
    · refine SameValue.bind (sameResult_cutHunk ho ho' _ _ _) fun result => ?_
      cases result with
      | ok cut => exact SameValue.pure _
      | error e => exact SameValue.pure _

end Pipeline

/-! What fails in a stage is the oracle. -/

variable {P : Error → Prop}

theorem failsWith_abstractHunk (ho : o.AnswersBy f) (hf : ∀ l h e, f l h = .error e → P e)
    (reserved : ReservedNames) (normalizes : Bool) (tk : Tokenizer) (h : Hunk) :
    FailsWith P (Abstraction.abstractHunk o reserved normalizes tk h) :=
  (Oracle.failsWith_ask ho hf tk.language _).bind fun _ => FailsWith.pure _

theorem failsWith_splitHunk (ho : o.AnswersBy f) (hf : ∀ l h e, f l h = .error e → P e)
    (s : SequencingSettings) (l : Language) (h : Hunk) (t : Tally) :
    FailsWith P ((Sequencing.splitHunk s o l h).handedOn t) := by
  rw [Sequencing.handedOn_splitHunk]
  split
  · exact FailsWith.pure _
  · refine FailsWith.bind ?_ fun _ => FailsWith.pure _
    rw [Sequencing.pairsOf]
    split
    · exact (Oracle.failsWith_ask ho hf l h).bind fun _ => FailsWith.pure _
    · exact FailsWith.pure _

namespace Pipeline

variable {p : Pipeline}

theorem failsWith_cutHunk (ho : o.AnswersBy f) (hf : ∀ l h e, f l h = .error e → P e)
    (tk : Tokenizer) (h : Hunk) (t : Tally) : FailsWith P ((p.cutHunk o tk h).handedOn t) := by
  rw [handedOn_cutHunk]
  refine FailsWith.bind ?_ ?_
  · rw [handedOn_abstractWithinCeiling]
    split
    · exact FailsWith.pure _
    · exact (failsWith_abstractHunk ho hf _ _ tk h).bind fun _ => FailsWith.pure _
  · rintro ⟨_ | a, t⟩
    · exact FailsWith.pure _
    · exact failsWith_splitHunk ho hf _ tk.language a t

theorem failsWith_sequenceHunk (ho : o.AnswersBy f) (hf : ∀ l h e, f l h = .error e → P e)
    (tk : Tokenizer) (h : Hunk) (t : Tally) :
    FailsWith P ((p.sequenceHunk o tk h).handedOn t) := by
  rw [handedOn_sequenceHunk]
  exact (failsWith_cutHunk ho hf tk h t).bind fun _ => FailsWith.pure _

end Pipeline

end Stages

end EditMining
