import EditMining.Proofs.PipelineSessions
import EditMining.Proofs.Recognition

/-!
# The same pieces in training and held out

Records are cut into pairs of lines for two ends. In training each pair is diffed, and
what cannot be is counted; held out each pair becomes a text on both sides, and what
cannot be is passed over. So that what is found in the ones can be recognised in the
others, both have to cut a record alike.

The tokens of a pair, line by line, are what both begin with (`SplitPair`). A pair whose
lines do not all split has none, in training as held out, and from the tokens of the
others the text and the diff are made, each without another look at the lines
(`compactPair?_eq`, `tokenDiff_eq`). A hunk that fails while it is cut fails for both.
-/

namespace EditMining

variable {σ : Type} {tk : Tokenizer}

/-! ## The tokens of a pair -/

/-- The tokens on both sides of a pair, line by line. -/
structure SplitPair where
  before : List (List String)
  behind : List (List String)

namespace SplitPair

/-- The tokens of a pair, if every line of both sides splits into tokens. -/
def of? (tk : Tokenizer) (pair : Hunk) : Option SplitPair :=
  match pair.condition.mapM tk.tokenize, pair.consequent.mapM tk.tokenize with
  | .ok before, .ok behind => some ⟨before, behind⟩
  | _, _ => none

/-- What is held out of a pair: its lines, with nothing between the tokens of each. -/
def heldOut (s : SplitPair) : HeldOutHunk :=
  ⟨Text.joinLines (s.before.map String.join), Text.joinLines (s.behind.map String.join)⟩

/-- The fused diff of all tokens before against all tokens behind. -/
def diff (s : SplitPair) : TokenSequence :=
  TokenDiff.fusedDiff s.before.flatten s.behind.flatten

end SplitPair

/-- A sequence that is worth mining, and not too long for it. -/
def Sequencing.IsUsable (s : SequencingSettings) (ts : TokenSequence) : Prop :=
  ts ≠ [] ∧ ts.length ≤ s.maxSequenceTokens

instance (s : SequencingSettings) (ts : TokenSequence) : Decidable (Sequencing.IsUsable s ts) :=
  inferInstanceAs (Decidable (_ ∧ _))

namespace Sequencing

variable {s : SequencingSettings}

theorem tokenDiff_eq (tk : Tokenizer) (pair : Hunk) :
    (tokenDiff tk pair).toOption = (SplitPair.of? tk pair).map SplitPair.diff := by
  rw [tokenDiff, tokenizeLines, tokenizeLines, SplitPair.of?]
  cases pair.condition.mapM tk.tokenize with
  | error e => rfl
  | ok before => cases pair.consequent.mapM tk.tokenize <;> rfl

theorem sequencedPair_fst (s : SequencingSettings) (tk : Tokenizer) (pair : Hunk) (t : Tally) :
    (sequencedPair s tk pair t).1 =
      ((SplitPair.of? tk pair).map SplitPair.diff).filter fun ts => IsUsable s ts := by
  rw [← tokenDiff_eq, sequencedPair]
  cases tokenDiff tk pair with
  | error e => rfl
  | ok ts =>
      dsimp only [Except.toOption]
      rw [Option.filter_some]
      by_cases hempty : ts = []
      · rw [if_pos (List.isEmpty_iff.2 hempty), if_neg (by simp [IsUsable, hempty])]
      · rw [if_neg (by simpa using hempty)]
        by_cases hlong : s.maxSequenceTokens < ts.length
        · have hunusable : ¬ IsUsable s ts := fun husable => Nat.not_le_of_lt hlong husable.2
          rw [if_pos hlong, if_neg (by simpa using hunusable)]
        · have husable : IsUsable s ts := ⟨hempty, Nat.le_of_not_lt hlong⟩
          rw [if_neg hlong, if_pos (by simpa using husable)]

/-- The sequences of some pairs are the diffs of those that split, as far as they are
usable. -/
theorem sequencedPairs_fst (s : SequencingSettings) (tk : Tokenizer) (pairs : List Hunk)
    (t : Tally) :
    (sequencedPairs s tk pairs t).1 =
      ((pairs.filterMap (SplitPair.of? tk)).map SplitPair.diff).filter fun ts => IsUsable s ts := by
  induction pairs generalizing t with
  | nil => rfl
  | cons pair rest ih =>
      rw [sequencedPairs]
      dsimp only
      rw [ih, sequencedPair_fst, List.filterMap_cons]
      cases SplitPair.of? tk pair with
      | none => rfl
      | some split =>
          rw [Option.map_some, Option.filter_some, List.map_cons, List.filter_cons]
          split <;> rfl

end Sequencing

namespace Pipeline

variable {p : Pipeline} {o : Oracle σ} {f : Language → Hunk → Result StructuralDiff}

theorem compactPair?_eq (tk : Tokenizer) (pair : Hunk) :
    compactPair? tk pair = (SplitPair.of? tk pair).map SplitPair.heldOut := by
  rw [compactPair?, compactLines_eq_map, compactLines_eq_map, SplitPair.of?]
  cases pair.condition.mapM tk.tokenize with
  | error e => rfl
  | ok before => cases pair.consequent.mapM tk.tokenize <;> rfl

/-- What is held out of some pairs is made of those that split. -/
theorem filterMap_compactPair? (tk : Tokenizer) (pairs : List Hunk) :
    pairs.filterMap (compactPair? tk) =
      (pairs.filterMap (SplitPair.of? tk)).map SplitPair.heldOut := by
  rw [List.map_filterMap]
  exact List.filterMap_congr fun pair _ => compactPair?_eq tk pair

/-! ## One record -/

theorem handedOn_sequenceHunk_run_fst (p : Pipeline) (o : Oracle σ) (tk : Tokenizer) (h : Hunk)
    (t : Tally) (s : σ) :
    (((p.sequenceHunk o tk h).handedOn t).run.run s).1 =
      (((p.cutHunk o tk h).handedOn .zero).run.run s).1.map fun cut =>
        t.countOn (Sequencing.sequencedPairs p.configuration.sequencing tk cut.1 cut.2) := by
  rw [handedOn_sequenceHunk_countOn, map_run_fst]
  have hbind : (p.sequenceHunk o tk h).handedOn .zero =
      (fun cut => Sequencing.sequencedPairs p.configuration.sequencing tk cut.1 cut.2) <$>
        (p.cutHunk o tk h).handedOn .zero :=
    (handedOn_sequenceHunk p o tk h .zero).trans (bind_pure_comp _ _)
  rw [hbind, map_run_fst]
  cases (((p.cutHunk o tk h).handedOn .zero).run.run s).1 <;> rfl

theorem prepareRecord_run_fst {r : Record} (hsides : r.hunk.hasEmptySide = false)
    (htk : p.tokenizerFor? r = some tk) (s : σ) :
    ((p.prepareRecord o r).run s).1 =
      match (((p.cutHunk o tk r.hunk).handedOn .zero).run.run s).1 with
      | .ok (pairs, _) => (pairs.filterMap (SplitPair.of? tk)).map SplitPair.heldOut
      | .error _ => [] := by
  rw [prepareRecord_eq, if_neg (Bool.eq_false_iff.1 hsides), htk]
  simp only [← filterMap_compactPair?]
  show ((match (((p.cutHunk o tk r.hunk).handedOn .zero).run.run s).1 with
    | .ok (pairs, _) => pure (pairs.filterMap (compactPair? tk))
    | .error _ => pure [] : StateM σ (List HeldOutHunk)).run _).1 = _
  cases (((p.cutHunk o tk r.hunk).handedOn .zero).run.run s).1 <;> rfl

/-- Held out, every record gives its own, whatever was asked before. -/
theorem prepareHeldOut_run_fst (ho : o.AnswersBy f) (records : List Record) (s t : σ) :
    ((p.prepareHeldOut o records).run s).1 =
      records.flatMap fun r => ((p.prepareRecord o r).run t).1 := by
  rw [List.flatMap_def, ← mapM_run_fst (sameValue_prepareRecord ho ho) records s t]
  rfl

/-- Training and held out, a record is cut into the same pairs, whatever splits it into
tokens, if the oracle answers the same question always alike. Those pairs that split
are held out one by one; their diffs, as far as they are usable, are the sequences of the
record. All this in the order of the pairs, whatever other records there are, and
whatever was counted before. A record that fails to be sequenced is not held out. -/
theorem heldOut_and_sequences_of_same_pairs (ho : o.AnswersBy f) {r : Record}
    (hsides : r.hunk.hasEmptySide = false) (htk : p.tokenizerFor? r = some tk) (tally : Tally)
    (s : σ) :
    ∃ yielded : List HeldOutHunk,
      (∀ (front back : List Record) (t : σ),
        ((p.prepareHeldOut o (front ++ r :: back)).run t).1 =
          ((p.prepareHeldOut o front).run t).1 ++ yielded ++
            ((p.prepareHeldOut o back).run t).1) ∧
      (∀ sequences, ((p.sequenceHunk o tk r.hunk).runFrom tally s).1.1 = .ok sequences →
        ∃ pairs, (∀ t : σ, ((p.cutHunk o tk r.hunk).runFrom .zero t).1.1 = .ok pairs) ∧
          yielded = (pairs.filterMap (SplitPair.of? tk)).map SplitPair.heldOut ∧
          sequences = ((pairs.filterMap (SplitPair.of? tk)).map SplitPair.diff).filter fun ts =>
            Sequencing.IsUsable p.configuration.sequencing ts) ∧
      ∀ e, ((p.sequenceHunk o tk r.hunk).runFrom tally s).1.1 = .error e → yielded = [] := by
  have hsame : ∀ t, (((p.cutHunk o tk r.hunk).handedOn .zero).run.run t).1 =
      (((p.cutHunk o tk r.hunk).handedOn .zero).run.run s).1 := fun t =>
    sameResult_cutHunk ho ho tk r.hunk .zero t s
  have hsequence := handedOn_sequenceHunk_run_fst p o tk r.hunk tally s
  have hprepare : ((p.prepareRecord o r).run s).1 = _ := prepareRecord_run_fst hsides htk s
  rw [CountingSession.run_handedOn] at hsequence
  refine ⟨((p.prepareRecord o r).run s).1, fun front back t => ?_, fun sequences h => ?_,
    fun e h => ?_⟩
  · rw [prepareHeldOut_run_fst ho _ t s, prepareHeldOut_run_fst ho front t s,
      prepareHeldOut_run_fst ho back t s, List.flatMap_append, List.flatMap_cons, List.append_assoc]
  · rw [h] at hsequence
    cases hcut : (((p.cutHunk o tk r.hunk).handedOn .zero).run.run s).1 with
    | error e =>
        rw [hcut] at hsequence
        nomatch hsequence
    | ok made =>
        rw [hcut] at hsequence hprepare
        obtain ⟨hsequences, -⟩ := Prod.mk.inj (Except.ok.inj hsequence)
        refine ⟨made.1, fun t => ?_, hprepare, hsequences.trans
          (Sequencing.sequencedPairs_fst _ tk made.1 made.2)⟩
        exact CountingSession.fst_of_run_handedOn_eq_ok ((hsame t).trans hcut)
  · rw [h] at hsequence
    cases hcut : (((p.cutHunk o tk r.hunk).handedOn .zero).run.run s).1 with
    | error e' =>
        rw [hcut] at hprepare
        exact hprepare
    | ok made =>
        rw [hcut] at hsequence
        nomatch hsequence

/-- Of three pairs, one does not split into tokens. -/
theorem heldOut_and_sequences_of_open_bracket :
    let tk : Tokenizer := .ofParser .python Language.python.parse
    let p : Pipeline := ⟨.default, ⟨[]⟩, .python, ⟨.lexical, .overlapping⟩⟩
    let update (start : Nat) : EditAction :=
      ⟨.updateNode, ⟨.integer, none, ⟨start, start + 1⟩⟩, none⟩
    let o : Oracle Nat := .ofFunction fun _ _ => .ok ⟨[], [update 9, update 6, update 4]⟩
    let r : Record := ⟨some "a.py", none, ⟨["i = 1", "f(", "z"], ["i = 2", "f(", "z"]⟩⟩
    r.hunk.hasEmptySide = false ∧ p.tokenizerFor? r = some tk ∧
      ((p.sequenceHunk o tk r.hunk).runFrom .zero 0).1 =
        (.ok [[⟨.kept, "z"⟩], [⟨.kept, "i="⟩, ⟨.removed, "1"⟩, ⟨.added, "2"⟩]], ⟨0, 1, 0⟩) ∧
      ((p.prepareHeldOut o [r]).run 0).1 = [⟨"z", "z"⟩, ⟨"i=1", "i=2"⟩] := by
  intro tk p update o r
  have htk : p.tokenizerFor? r = some tk := rfl
  have hsequences : ((p.sequenceHunk o tk r.hunk).runFrom .zero 0).1 =
      (.ok [[⟨.kept, "z"⟩], [⟨.kept, "i="⟩, ⟨.removed, "1"⟩, ⟨.added, "2"⟩]], ⟨0, 1, 0⟩) := by
    decide +kernel
  have hcut : ((p.cutHunk o tk r.hunk).runFrom .zero 0).1.1 =
      .ok [⟨["z"], ["z"]⟩, ⟨["f("], ["f("]⟩, ⟨["i = 1"], ["i = 2"]⟩] := by
    decide +kernel
  obtain ⟨yielded, hprepared, hsequenced, -⟩ := heldOut_and_sequences_of_same_pairs
    (Oracle.answersBy_ofFunction _) (rfl : r.hunk.hasEmptySide = false) htk .zero 0
  obtain ⟨pairs, hpairs, hyielded, -⟩ := hsequenced _ (congrArg Prod.fst hsequences)
  cases hcut.symm.trans (hpairs 0)
  refine ⟨rfl, htk, hsequences, (hprepared [] [] 0).trans ?_⟩
  rw [hyielded]
  decide +kernel

end Pipeline

end EditMining
