import EditMining.Pipeline
import EditMining.Proofs.Sessions

/-!
# Counting in place

All hunks of a batch are counted in one tally, in which each stage counts as it comes to
something. What was counted before a failure stays counted, so a hunk might leave traces
though it fails. It does not: a hunk that fails leaves the tally as it was
(`Pipeline.isAtomic_sequenceHunk`). So it makes no difference whether the tally stays
where it is or each stage is given one and hands it on (`CountingSession.handedOn`).

Two of the stages drop hunks with too many lines, and both count them. It is always the
first that does, for whatever the oracle answers, abstraction changes lines one by one
(`hasLinesOf_applyDiff`), so a hunk that it lets pass is not too large for the second.
-/

namespace EditMining

variable {σ α β : Type}

/-! ## One tally for all hunks -/

namespace CountingSession

/-- What comes of some work, the tally behind it, and what the oracle remembers. -/
def runFrom (x : CountingSession σ α) (t : Tally) (s : σ) : (Except Error α × Tally) × σ :=
  (x.run.run t).run s

/-- The same work, given a tally and handing one on. Where it fails there is none. -/
def handedOn (x : CountingSession σ α) (t : Tally) : Session σ (α × Tally) :=
  ExceptT.mk do
    let made ← x.run.run t
    pure (made.1.map (·, made.2))

variable {x : CountingSession σ α} {y : Session σ α} {f : α → CountingSession σ β} {a : α}
  {e : Error} {t t' : Tally} {s s' : σ}

theorem runFrom_bind_of_ok (h : x.runFrom t s = ((.ok a, t'), s')) :
    (x >>= f).runFrom t s = (f a).runFrom t' s' := by
  show (((ExceptT.bindCont f (x.runFrom t s).1.1 : StateT Tally (StateM σ) (Except Error β)).run
    (x.runFrom t s).1.2).run (x.runFrom t s).2) = _
  rw [h]
  rfl

theorem runFrom_bind_of_error (h : x.runFrom t s = ((.error e, t'), s')) :
    (x >>= f).runFrom t s = ((.error e, t'), s') := by
  show (((ExceptT.bindCont f (x.runFrom t s).1.1 : StateT Tally (StateM σ) (Except Error β)).run
    (x.runFrom t s).1.2).run (x.runFrom t s).2) = _
  rw [h]
  rfl

theorem runFrom_lift (y : Session σ α) (t : Tally) (s : σ) :
    (lift y).runFrom t s = (((y.run.run s).1, t), (y.run.run s).2) := rfl

theorem exists_of_runFrom_bind_eq_ok {b : β} (h : (x >>= f).runFrom t s = ((.ok b, t'), s')) :
    ∃ a t₁ s₁, x.runFrom t s = ((.ok a, t₁), s₁) ∧ (f a).runFrom t₁ s₁ = ((.ok b, t'), s') := by
  cases hx : x.runFrom t s with
  | mk made s₁ =>
      obtain ⟨result, t₁⟩ := made
      cases result with
      | ok a => exact ⟨a, t₁, s₁, rfl, (runFrom_bind_of_ok hx).symm.trans h⟩
      | error e => cases (runFrom_bind_of_error hx).symm.trans h

theorem of_runFrom_lift_eq_ok (h : (lift y).runFrom t s = ((.ok a, t'), s')) :
    y.run.run s = (.ok a, s') ∧ t = t' := by
  rw [runFrom_lift] at h
  obtain ⟨hmade, hmemory⟩ := Prod.mk.inj h
  obtain ⟨hresult, htally⟩ := Prod.mk.inj hmade
  exact ⟨Prod.ext hresult hmemory, htally⟩

theorem run_handedOn (x : CountingSession σ α) (t : Tally) (s : σ) :
    (x.handedOn t).run.run s =
      ((x.runFrom t s).1.1.map (·, (x.runFrom t s).1.2), (x.runFrom t s).2) := rfl

theorem run_handedOn_of_ok (h : x.runFrom t s = ((.ok a, t'), s')) :
    (x.handedOn t).run.run s = (.ok (a, t'), s') := by
  rw [run_handedOn, h]
  rfl

theorem run_handedOn_of_error (h : x.runFrom t s = ((.error e, t'), s')) :
    (x.handedOn t).run.run s = (.error e, s') := by
  rw [run_handedOn, h]
  rfl

theorem fst_of_run_handedOn_eq_ok (h : ((x.handedOn t).run.run s).1 = .ok (a, t')) :
    (x.runFrom t s).1.1 = .ok a := by
  rw [run_handedOn] at h
  cases hx : (x.runFrom t s).1.1 with
  | ok a' =>
      rw [hx] at h
      cases h
      rfl
  | error e =>
      rw [hx] at h
      nomatch h

theorem handedOn_bind (x : CountingSession σ α) (f : α → CountingSession σ β) (t : Tally) :
    (x >>= f).handedOn t = x.handedOn t >>= fun made => (f made.1).handedOn made.2 := by
  refine ExceptT.ext (StateT.ext fun s => ?_)
  cases hx : x.runFrom t s with
  | mk made s' =>
      obtain ⟨result, t'⟩ := made
      cases result with
      | ok a =>
          rw [run_bind_of_ok (run_handedOn_of_ok hx), run_handedOn, runFrom_bind_of_ok hx]
          rfl
      | error e =>
          rw [run_bind_of_error (run_handedOn_of_error hx), run_handedOn,
            runFrom_bind_of_error hx]
          rfl

theorem handedOn_lift (y : Session σ α) (t : Tally) :
    (lift y).handedOn t = (·, t) <$> y := by
  refine ExceptT.ext (StateT.ext fun s => ?_)
  rw [run_handedOn, runFrom_lift, ExceptT.run_map, StateT.run_map]
  cases y.run.run s with
  | mk result s' => cases result <;> rfl

/-- A failure leaves the tally as it was. -/
def IsAtomic (x : CountingSession σ α) : Prop :=
  ∀ t s e t' s', x.runFrom t s = ((.error e, t'), s') → t' = t

theorem isAtomic_lift (y : Session σ α) : IsAtomic (lift y) := by
  intro t s e t' s' h
  rw [runFrom_lift] at h
  exact (congrArg (fun made => made.1.2) h).symm

/-- Work behind other work is to leave the tally as it was before either. -/
theorem IsAtomic.bind (hx : IsAtomic x)
    (hf : ∀ t s a t' s', x.runFrom t s = ((.ok a, t'), s') →
      ∀ e t'' s'', (f a).runFrom t' s' = ((.error e, t''), s'') → t'' = t) :
    IsAtomic (x >>= f) := by
  intro t s e t'' s'' h
  cases hrun : x.runFrom t s with
  | mk made s' =>
      obtain ⟨result, t'⟩ := made
      cases result with
      | ok a =>
          rw [runFrom_bind_of_ok hrun] at h
          exact hf t s a t' s' hrun e t'' s'' h
      | error e' =>
          rw [runFrom_bind_of_error hrun] at h
          exact (congrArg (fun made => made.1.2) h).symm.trans (hx t s e' t' s' hrun)

end CountingSession

open CountingSession (IsAtomic handedOn_bind handedOn_lift)

/-! ## Abstraction keeps the number of lines -/

/-- As many lines on either side. -/
def Hunk.HasLinesOf (h h' : Hunk) : Prop :=
  h.condition.length = h'.condition.length ∧ h.consequent.length = h'.consequent.length

theorem Hunk.HasLinesOf.maxSideLength_eq {h h' : Hunk} (hlines : h.HasLinesOf h') :
    h.maxSideLength = h'.maxSideLength := by
  rw [maxSideLength, maxSideLength, hlines.1, hlines.2]

theorem Hunk.hasLinesOf_mapLines (f : String → String) (h : Hunk) : (h.mapLines f).HasLinesOf h :=
  ⟨List.length_map f, List.length_map f⟩

theorem Hunk.HasLinesOf.trans {h h' h'' : Hunk} (hlines : h.HasLinesOf h')
    (hlines' : h'.HasLinesOf h'') : h.HasLinesOf h'' :=
  ⟨hlines.1.trans hlines'.1, hlines.2.trans hlines'.2⟩

namespace Abstraction

theorem hasLinesOf_prepare (normalizes : Bool) (tk : Tokenizer) (h : Hunk) :
    (prepare normalizes tk h).hunk.HasLinesOf h := by
  rw [prepare]
  split
  · exact Hunk.hasLinesOf_mapLines _ h
  · exact ⟨rfl, rfl⟩

theorem hasLinesOf_foldl_replaceValue (vs : List StableValue) (a : AbstractedHunk) :
    (vs.foldl replaceValue a).hunk.HasLinesOf a.hunk := by
  induction vs generalizing a with
  | nil => exact ⟨rfl, rfl⟩
  | cons v rest ih => exact (ih (replaceValue a v)).trans (Hunk.hasLinesOf_mapLines _ a.hunk)

theorem hasLinesOf_applyDiff (reserved : ReservedNames) (d : StructuralDiff) (normalizes : Bool)
    (tk : Tokenizer) (h : Hunk) :
    (applyDiff reserved d (prepare normalizes tk h)).hunk.HasLinesOf h :=
  (hasLinesOf_foldl_replaceValue _ _).trans (hasLinesOf_prepare normalizes tk h)

theorem returns_abstractHunk (o : Oracle σ) (reserved : ReservedNames) (normalizes : Bool)
    (tk : Tokenizer) (h : Hunk) :
    Returns (fun a => a.hunk.HasLinesOf h) (abstractHunk o reserved normalizes tk h) :=
  Returns.bind (Q := fun _ => True) (fun _ _ _ => trivial) fun d _ =>
    Returns.pure (hasLinesOf_applyDiff reserved d normalizes tk h)

end Abstraction

/-! ## Pairs one by one -/

namespace Sequencing

variable {s : SequencingSettings} {tk : Tokenizer}

/-- What comes of a pair, and the tally behind it. -/
def sequencedPair (s : SequencingSettings) (tk : Tokenizer) (pair : Hunk) (t : Tally) :
    Option TokenSequence × Tally :=
  match tokenDiff tk pair with
  | .error _ => (none, { t with untokenizable := t.untokenizable + 1 })
  | .ok ts =>
      if ts.isEmpty then (none, t)
      else if s.maxSequenceTokens < ts.length then
        (none, { t with oversizedSequences := t.oversizedSequences + 1 })
      else (some ts, t)

/-- What comes of some pairs, and the tally behind them. -/
def sequencedPairs (s : SequencingSettings) (tk : Tokenizer) : List Hunk → Tally →
    List TokenSequence × Tally
  | [], t => ([], t)
  | pair :: rest, t =>
      let (first, t) := sequencedPair s tk pair t
      let (more, t) := sequencedPairs s tk rest t
      (first.toList ++ more, t)

theorem runFrom_sequencePair (s : SequencingSettings) (tk : Tokenizer) (pair : Hunk) (t : Tally)
    (m : σ) :
    (sequencePair s tk pair).runFrom t m =
      ((.ok (sequencedPair s tk pair t).1, (sequencedPair s tk pair t).2), m) := by
  rw [sequencePair, sequencedPair]
  cases tokenDiff tk pair with
  | error e => rfl
  | ok ts =>
      dsimp only
      split
      · rfl
      · split <;> rfl

/-- Pairs do not fail. -/
theorem runFrom_sequencePairs (s : SequencingSettings) (tk : Tokenizer) (pairs : List Hunk)
    (t : Tally) (m : σ) :
    (sequencePairs s tk pairs).runFrom t m =
      ((.ok (sequencedPairs s tk pairs t).1, (sequencedPairs s tk pairs t).2), m) := by
  induction pairs generalizing t with
  | nil => rfl
  | cons pair rest ih =>
      rw [sequencePairs,
        CountingSession.runFrom_bind_of_ok (runFrom_sequencePair s tk pair t m),
        CountingSession.runFrom_bind_of_ok (ih _)]
      rfl

theorem handedOn_sequencePairs (s : SequencingSettings) (tk : Tokenizer) (pairs : List Hunk)
    (t : Tally) :
    (sequencePairs s tk pairs : CountingSession σ _).handedOn t =
      pure (sequencedPairs s tk pairs t) := by
  refine ExceptT.ext (StateT.ext fun m => ?_)
  exact CountingSession.run_handedOn_of_ok (runFrom_sequencePairs s tk pairs t m)

/-- A pair with a line that does not split into tokens. -/
def isUntokenizable (tk : Tokenizer) (pair : Hunk) : Bool :=
  !(tokenDiff tk pair).isOk

/-- A pair whose diff is empty. -/
def isBlank (tk : Tokenizer) (pair : Hunk) : Bool :=
  (tokenDiff tk pair).toOption.any List.isEmpty

/-- A pair with too many tokens in its diff. -/
def isOversized (s : SequencingSettings) (tk : Tokenizer) (pair : Hunk) : Bool :=
  (tokenDiff tk pair).toOption.any fun ts => s.maxSequenceTokens < ts.length

/-- Every pair is a sequence, or is counted once, or is blank. -/
structure Accounted (s : SequencingSettings) (tk : Tokenizer) (pairs : List Hunk)
    (sequences : List TokenSequence) (t t' : Tally) : Prop where
  oversizedHunks : t'.oversizedHunks = t.oversizedHunks
  untokenizable : t'.untokenizable = t.untokenizable + pairs.countP (isUntokenizable tk)
  oversizedSequences :
    t'.oversizedSequences = t.oversizedSequences + pairs.countP (isOversized s tk)
  length_eq : pairs.length = sequences.length + (t'.untokenizable - t.untokenizable) +
    (t'.oversizedSequences - t.oversizedSequences) + pairs.countP (isBlank tk)

theorem Accounted.append {ps qs : List Hunk} {ss us : List TokenSequence} {t t' t'' : Tally}
    (h : Accounted s tk ps ss t t') (h' : Accounted s tk qs us t' t'') :
    Accounted s tk (ps ++ qs) (ss ++ us) t t'' := by
  obtain ⟨hhunks, huntokenizable, hoversized, hlength⟩ := h
  obtain ⟨hhunks', huntokenizable', hoversized', hlength'⟩ := h'
  refine ⟨hhunks'.trans hhunks, ?_, ?_, ?_⟩
  · rw [List.countP_append]
    omega
  · rw [List.countP_append]
    omega
  · rw [List.countP_append, List.length_append, List.length_append]
    omega

theorem accounted_sequencedPair (s : SequencingSettings) (tk : Tokenizer) (pair : Hunk)
    (t : Tally) :
    Accounted s tk [pair] (sequencedPair s tk pair t).1.toList t (sequencedPair s tk pair t).2 := by
  rw [sequencedPair]
  cases hdiff : tokenDiff tk pair with
  | error e =>
      constructor <;>
        simp [isUntokenizable, isOversized, isBlank, hdiff, Except.isOk, Except.toBool,
          Except.toOption]
  | ok ts =>
      have huntokenizable : isUntokenizable tk pair = false := by rw [isUntokenizable, hdiff]; rfl
      have hoversized : isOversized s tk pair = decide (s.maxSequenceTokens < ts.length) := by
        rw [isOversized, hdiff]; rfl
      have hblank : isBlank tk pair = ts.isEmpty := by rw [isBlank, hdiff]; rfl
      dsimp only
      split
      · next hempty =>
          have hnil : ts = [] := List.isEmpty_iff.1 hempty
          constructor <;> simp [huntokenizable, hoversized, hblank, hnil]
      · next hne =>
          split
          · next hlong => constructor <;> simp [huntokenizable, hoversized, hblank, hlong, hne]
          · next hshort => constructor <;> simp [huntokenizable, hoversized, hblank, hshort, hne]

theorem accounted_sequencedPairs (s : SequencingSettings) (tk : Tokenizer) (pairs : List Hunk)
    (t : Tally) :
    Accounted s tk pairs (sequencedPairs s tk pairs t).1 t (sequencedPairs s tk pairs t).2 := by
  induction pairs generalizing t with
  | nil => exact ⟨rfl, rfl, rfl, by simp [sequencedPairs]⟩
  | cons pair rest ih => exact (accounted_sequencedPair s tk pair t).append (ih _)

/-! ## Hunks -/

theorem handedOn_splitHunk (s : SequencingSettings) (o : Oracle σ) (l : Language) (h : Hunk)
    (t : Tally) :
    (splitHunk s o l h).handedOn t =
      if s.maxHunkLines < h.maxSideLength then
        pure ([], { t with oversizedHunks := t.oversizedHunks + 1 })
      else (do
        let pairs ← pairsOf o l h
        pure (pairs, t)) := by
  rw [splitHunk]
  split
  · rfl
  · rw [handedOn_lift]
    exact (bind_pure_comp _ _).symm

theorem isAtomic_splitHunk (s : SequencingSettings) (o : Oracle σ) (l : Language) (h : Hunk) :
    IsAtomic (splitHunk s o l h) := by
  rw [splitHunk]
  split
  · intro t m e t' m' herror
    nomatch herror
  · exact CountingSession.isAtomic_lift _

theorem isAtomic_sequenceHunk (s : SequencingSettings) (o : Oracle σ) (tk : Tokenizer)
    (h : Hunk) : IsAtomic (sequenceHunk s o tk h) := by
  refine (isAtomic_splitHunk s o tk.language h).bind ?_
  intro t m pairs t' m' _ e t'' m'' herror
  rw [runFrom_sequencePairs] at herror
  nomatch herror

end Sequencing

namespace Pipeline

open Sequencing

theorem handedOn_abstractWithinCeiling (p : Pipeline) (o : Oracle σ) (tk : Tokenizer) (h : Hunk)
    (t : Tally) :
    (p.abstractWithinCeiling o tk h).handedOn t =
      if p.configuration.sequencing.maxHunkLines < h.maxSideLength then
        pure (none, { t with oversizedHunks := t.oversizedHunks + 1 })
      else (do
        let a ← Abstraction.abstractHunk o p.reserved
          p.configuration.abstraction.normalizesFunctionNames tk h
        pure (some a.hunk, t)) := by
  rw [abstractWithinCeiling]
  split
  · rfl
  · rw [handedOn_bind, handedOn_lift, bind_map_left]
    rfl

theorem handedOn_cutHunk (p : Pipeline) (o : Oracle σ) (tk : Tokenizer) (h : Hunk) (t : Tally) :
    (p.cutHunk o tk h).handedOn t = (do
      match ← (p.abstractWithinCeiling o tk h).handedOn t with
      | (none, t) => pure ([], t)
      | (some a, t) => (splitHunk p.configuration.sequencing o tk.language a).handedOn t) := by
  rw [cutHunk, handedOn_bind]
  refine bind_congr ?_
  rintro ⟨_ | a, t⟩ <;> rfl

/-- To sequence a hunk is to cut it and to sequence the pairs. -/
theorem sequenceHunk_eq_bind (p : Pipeline) (o : Oracle σ) (tk : Tokenizer) (h : Hunk) :
    p.sequenceHunk o tk h = (do
      let pairs ← p.cutHunk o tk h
      sequencePairs p.configuration.sequencing tk pairs) := by
  rw [sequenceHunk, cutHunk, bind_assoc]
  refine bind_congr ?_
  rintro (_ | a)
  · exact (pure_bind _ _).symm
  · rfl

theorem handedOn_sequenceHunk (p : Pipeline) (o : Oracle σ) (tk : Tokenizer) (h : Hunk)
    (t : Tally) :
    (p.sequenceHunk o tk h).handedOn t = (do
      let cut ← (p.cutHunk o tk h).handedOn t
      pure (sequencedPairs p.configuration.sequencing tk cut.1 cut.2)) := by
  rw [sequenceHunk_eq_bind, handedOn_bind]
  exact bind_congr fun cut => handedOn_sequencePairs _ tk cut.1 cut.2

/-- A hunk that is abstracted has not been counted. -/
theorem runFrom_abstractWithinCeiling {p : Pipeline} {o : Oracle σ} {tk : Tokenizer} {h : Hunk}
    {t t' : Tally} {m m' : σ} {made : Option Hunk}
    (hrun : (p.abstractWithinCeiling o tk h).runFrom t m = ((.ok made, t'), m')) :
    (made = none ∧ t' = { t with oversizedHunks := t.oversizedHunks + 1 }) ∨
      t' = t ∧ ∃ a, made = some a := by
  have hhanded := CountingSession.run_handedOn_of_ok hrun
  rw [handedOn_abstractWithinCeiling] at hhanded
  split at hhanded
  · cases hhanded
    exact .inl ⟨rfl, rfl⟩
  · obtain ⟨a, m₁, -, hpure⟩ := exists_of_run_bind_eq_ok hhanded
    cases hpure
    exact .inr ⟨rfl, a.hunk, rfl⟩

theorem isAtomic_abstractWithinCeiling (p : Pipeline) (o : Oracle σ) (tk : Tokenizer)
    (h : Hunk) : IsAtomic (p.abstractWithinCeiling o tk h) := by
  rw [abstractWithinCeiling]
  split
  · intro t m e t' m' herror
    nomatch herror
  · refine (CountingSession.isAtomic_lift _).bind ?_
    intro t m a t' m' _ e t'' m'' herror
    nomatch herror

/-- A hunk that fails counts nothing. -/
theorem isAtomic_sequenceHunk (p : Pipeline) (o : Oracle σ) (tk : Tokenizer) (h : Hunk) :
    IsAtomic (p.sequenceHunk o tk h) := by
  refine (isAtomic_abstractWithinCeiling p o tk h).bind ?_
  intro t m made t' m' hrun e t'' m'' herror
  rcases runFrom_abstractWithinCeiling hrun with ⟨rfl, -⟩ | ⟨rfl, a, rfl⟩
  · nomatch herror
  · exact Sequencing.isAtomic_sequenceHunk _ o tk a t' m' e t'' m'' herror

/-- A hunk that is not too large is cut once it is abstracted, and its pairs go one by
one. -/
theorem exists_of_sequenceHunk_eq_ok {p : Pipeline} {o : Oracle σ} {tk : Tokenizer} {h : Hunk}
    {t t' : Tally} {m m' : σ} {sequences : List TokenSequence}
    (hsize : ¬ p.configuration.sequencing.maxHunkLines < h.maxSideLength)
    (hok : (p.sequenceHunk o tk h).runFrom t m = ((.ok sequences, t'), m')) :
    ∃ (a : AbstractedHunk) (pairs : List Hunk) (m₁ : σ),
      (Abstraction.abstractHunk o p.reserved p.configuration.abstraction.normalizesFunctionNames
        tk h).run.run m = (.ok a, m₁) ∧
      a.hunk.HasLinesOf h ∧
      (splitHunk p.configuration.sequencing o tk.language a.hunk).runFrom t m₁ =
        ((.ok pairs, t), m') ∧
      sequencedPairs p.configuration.sequencing tk pairs t = (sequences, t') := by
  rw [sequenceHunk, abstractWithinCeiling, if_neg hsize, bind_assoc] at hok
  obtain ⟨a, t₁, m₁, ha, hsequenced⟩ := CountingSession.exists_of_runFrom_bind_eq_ok hok
  obtain ⟨habstract, rfl⟩ := CountingSession.of_runFrom_lift_eq_ok ha
  have hlines : a.hunk.HasLinesOf h :=
    Abstraction.returns_abstractHunk o p.reserved _ tk h m a (congrArg Prod.fst habstract)
  obtain ⟨pairs, t₂, m₂, hsplit, hpairs⟩ :=
    CountingSession.exists_of_runFrom_bind_eq_ok
      (x := splitHunk p.configuration.sequencing o tk.language a.hunk) hsequenced
  have huncounted := hsplit
  rw [splitHunk, if_neg (hlines.maxSideLength_eq ▸ hsize)] at huncounted
  obtain ⟨-, rfl⟩ := CountingSession.of_runFrom_lift_eq_ok huncounted
  rw [runFrom_sequencePairs] at hpairs
  cases hpairs
  exact ⟨a, pairs, m₁, habstract, hlines, hsplit, rfl⟩

/-- A hunk that fails leaves no trace in the tally, though that is counted in as things
happen, and one with too many lines is counted once and gives nothing. Any other has as
many lines when it is abstracted, whatever the oracle answers, so it is not too large to
be cut; each of its pairs is a sequence, or is counted once, or is blank. -/
theorem sequenceHunk_accounts (p : Pipeline) (o : Oracle σ) (tk : Tokenizer) (h : Hunk)
    (t : Tally) (m : σ) :
    let normalizes := p.configuration.abstraction.normalizesFunctionNames
    let settings := p.configuration.sequencing
    (∀ d : StructuralDiff, (Abstraction.applyDiff p.reserved d
      (Abstraction.prepare normalizes tk h)).hunk.HasLinesOf h) ∧
    match (p.sequenceHunk o tk h).runFrom t m with
    | ((.error _, t'), _) => t' = t
    | ((.ok sequences, t'), m') =>
        if settings.maxHunkLines < h.maxSideLength then
          sequences = [] ∧ t' = { t with oversizedHunks := t.oversizedHunks + 1 }
        else
          ∃ (a : AbstractedHunk) (pairs : List Hunk) (m₁ : σ),
            (Abstraction.abstractHunk o p.reserved normalizes tk h).run.run m = (.ok a, m₁) ∧
            a.hunk.maxSideLength ≤ settings.maxHunkLines ∧
            (splitHunk settings o tk.language a.hunk).runFrom t m₁ = ((.ok pairs, t), m') ∧
            Accounted settings tk pairs sequences t t' := by
  intro normalizes settings
  refine ⟨fun d => Abstraction.hasLinesOf_applyDiff p.reserved d normalizes tk h, ?_⟩
  cases hrun : (p.sequenceHunk o tk h).runFrom t m with
  | mk made m' =>
      obtain ⟨result, t'⟩ := made
      cases result with
      | error e => exact isAtomic_sequenceHunk p o tk h t m e t' m' hrun
      | ok sequences =>
          dsimp only
          split
          · next hlarge =>
              rw [sequenceHunk, abstractWithinCeiling, if_pos hlarge] at hrun
              cases hrun
              exact ⟨rfl, rfl⟩
          · next hsize =>
              obtain ⟨a, pairs, m₁, ha, hlines, hsplit, hmade⟩ :=
                exists_of_sequenceHunk_eq_ok hsize hrun
              refine ⟨a, pairs, m₁, ha, ?_, hsplit, ?_⟩
              · rw [hlines.maxSideLength_eq]
                exact Nat.le_of_not_lt hsize
              · have haccounted := accounted_sequencedPairs settings tk pairs t
                rw [hmade] at haccounted
                exact haccounted

end Pipeline

end EditMining
