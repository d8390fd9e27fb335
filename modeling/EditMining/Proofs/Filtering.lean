import EditMining.Distinct
import EditMining.Filter
import EditMining.Proofs.Matching
import EditMining.Proofs.Maximal
import EditMining.Proofs.Merge
import EditMining.Proofs.Traversals

/-!
# What the filter keeps and counts

The filter is a chain of five stages, each with an order and a counter of its
own. What it computes can be said without either. Let the *summed* patterns be
the token lists of the input with their supports added up. Of these some are
*eligible*: they break no rule and have enough support. Of the eligible ones
those are maximal that no other eligible token list contains, and of these the
ones stay whose confidence is not below the threshold.

No stage repeats a token list, so up to order each stage is a filter on the
one before it. A count of what a stage drops is then the count of what fails
the stage's condition, and the counts add up because every pattern is dropped
by exactly one stage or kept.
-/

namespace EditMining

open Std

variable {p : Pattern} {ps qs : List Pattern}

/-! ## Counting -/

theorem length_sub_length_filter {α : Type} (f : α → Bool) (xs : List α) :
    xs.length - (xs.filter f).length = xs.countP fun x => !f x := by
  have hsplit := List.length_eq_countP_add_countP f (l := xs)
  simp only [List.countP_eq_length_filter (p := f), decide_not, Bool.decide_eq_true] at hsplit
  omega

/-- Each pattern is valid or breaks exactly one rule first. -/
theorem length_eq_countInvalid_add (ps : List Pattern) :
    ps.length =
      Filter.countInvalid .symbolsOnly ps + Filter.countInvalid .noChange ps
        + Filter.countInvalid .unbalancedBrackets ps + ps.countP fun p => p.invalidity == none := by
  induction ps with
  | nil => rfl
  | cons p rest ih =>
      simp only [Filter.countInvalid, List.countP_cons, List.length_cons] at ih ⊢
      rw [ih]
      cases p.invalidity with
      | none => grind
      | some reason => cases reason <;> grind

namespace Filter

/-! ## The stages without their orders -/

/-- Each token list of some patterns once, with its supports added up. -/
def summed (ps : List Pattern) : List Pattern :=
  (distinct (ps.map Pattern.tokens)).map fun ts => ⟨ts, totalSupport ps ts⟩

/-- The summed patterns that break no rule and have enough support. -/
def eligible (settings : FilterSettings) (ps : List Pattern) : List Pattern :=
  (summed ps).filter fun p => p.invalidity = none ∧ settings.minPruningSupport ≤ p.support

/-- The eligible patterns that no other eligible one contains. -/
def maximal (settings : FilterSettings) (ps : List Pattern) : List Pattern :=
  (eligible settings ps).filter fun p => p.IsMaximalIn (eligible settings ps)

theorem tokens_summed (ps : List Pattern) :
    (summed ps).map Pattern.tokens = distinct (ps.map Pattern.tokens) := by
  rw [summed, List.map_map]
  exact List.map_id _

theorem nodup_tokens_summed (ps : List Pattern) : ((summed ps).map Pattern.tokens).Nodup := by
  rw [tokens_summed]
  exact nodup_distinct _

theorem mem_summed :
    p ∈ summed ps ↔ p.tokens ∈ ps.map Pattern.tokens ∧ p.support = totalSupport ps p.tokens := by
  rw [summed, List.mem_map]
  constructor
  · rintro ⟨ts, hts, rfl⟩
    exact ⟨mem_distinct.1 hts, rfl⟩
  · rintro ⟨htokens, hsupport⟩
    exact ⟨p.tokens, mem_distinct.2 htokens, by rw [← hsupport]⟩

theorem mergePatterns_perm_summed (ps : List Pattern) : (mergePatterns ps).Perm (summed ps) := by
  refine (List.perm_ext_iff_of_nodup (nodup_tokens_mergePatterns ps).of_map
    (nodup_tokens_summed ps).of_map).2 fun p => ?_
  rw [mem_mergePatterns, mem_summed]

variable {settings : FilterSettings}

/-- The patterns that reach pruning. -/
def supported (settings : FilterSettings) (ps : List Pattern) : List Pattern :=
  ((mergePatterns ps).filter fun p => p.invalidity == none).filter
    fun p => settings.minPruningSupport ≤ p.support

theorem supported_perm_eligible (settings : FilterSettings) (ps : List Pattern) :
    (supported settings ps).Perm (eligible settings ps) := by
  rw [supported, eligible, List.filter_filter]
  have hstage : (fun p : Pattern =>
      decide (settings.minPruningSupport ≤ p.support) && p.invalidity == none) =
      fun p => decide (p.invalidity = none ∧ settings.minPruningSupport ≤ p.support) := by
    funext p
    rw [Bool.decide_and, Bool.and_comm, ← beq_eq_decide]
  rw [hstage]
  exact (mergePatterns_perm_summed ps).filter _

theorem nodup_tokens_supported (settings : FilterSettings) (ps : List Pattern) :
    ((supported settings ps).map Pattern.tokens).Nodup :=
  ((List.filter_sublist.trans List.filter_sublist).map _).nodup (nodup_tokens_mergePatterns ps)

theorem mem_maximal :
    p ∈ maximal settings ps ↔
      p ∈ eligible settings ps ∧ p.IsMaximalIn (eligible settings ps) := by
  rw [maximal, List.mem_filter, decide_eq_true_eq]

theorem maximalPatterns_perm_maximal (settings : FilterSettings) (ps : List Pattern) :
    (maximalPatterns (supported settings ps)).Perm (maximal settings ps) := by
  have hperm := supported_perm_eligible settings ps
  have hnodup := nodup_tokens_supported settings ps
  have heligible : (eligible settings ps).Nodup := hperm.nodup_iff.1 hnodup.of_map
  refine (List.perm_ext_iff_of_nodup (nodup_tokens_maximalPatterns _).of_map
    (heligible.filter _)).2 fun p => ?_
  rw [mem_maximalPatterns hnodup, ← maximal, mem_maximal, hperm.mem_iff]
  simp only [Pattern.IsMaximalIn, hperm.mem_iff]

/-! ## The artifact -/

/-- A pattern with its confidence. -/
def scored (heldOut : List HeldOutHunk) (p : Pattern) : ScoredPattern :=
  ⟨p, (Confidence.exact p heldOut).value⟩

/-- The patterns that pass all stages. -/
def accepted (settings : FilterSettings) (heldOut : List HeldOutHunk) (ps : List Pattern) :
    List ScoredPattern :=
  ((maximalPatterns (supported settings ps)).map (scored heldOut)).filter settings.accepts

/-- The patterns that pass all stages, in order. -/
def artifact (settings : FilterSettings) (heldOut : List HeldOutHunk) (ps : List Pattern) :
    List ScoredPattern :=
  (accepted settings heldOut ps).mergeSort fun a b => a.pattern.supportLe b.pattern

theorem artifact_perm_accepted (settings : FilterSettings) (heldOut : List HeldOutHunk)
    (ps : List Pattern) : (artifact settings heldOut ps).Perm (accepted settings heldOut ps) :=
  List.mergeSort_perm _ _

theorem mem_artifact {heldOut : List HeldOutHunk} {s : ScoredPattern} :
    s ∈ artifact settings heldOut ps ↔
      s.pattern ∈ maximal settings ps ∧
        s.confidence = (Confidence.exact s.pattern heldOut).value ∧
        ¬ s.confidence < settings.confidenceThreshold := by
  rw [(artifact_perm_accepted settings heldOut ps).mem_iff, accepted, List.mem_filter, List.mem_map,
    FilterSettings.accepts, Bool.not_eq_true', decide_eq_false_iff_not]
  constructor
  · rintro ⟨⟨p, hp, rfl⟩, haccepted⟩
    exact ⟨(maximalPatterns_perm_maximal settings ps).mem_iff.1 hp, rfl, haccepted⟩
  · rintro ⟨hp, hconfidence, haccepted⟩
    refine ⟨⟨s.pattern, (maximalPatterns_perm_maximal settings ps).mem_iff.2 hp, ?_⟩, haccepted⟩
    rw [scored, ← hconfidence]

/-- One pattern is left, and accepted. -/
theorem artifact_of_one {heldOut : List HeldOutHunk} (hone : maximal settings ps = [p])
    (haccepted : settings.accepts (scored heldOut p) = true) :
    artifact settings heldOut ps = [scored heldOut p] := by
  have hperm := maximalPatterns_perm_maximal settings ps
  rw [hone, List.perm_singleton] at hperm
  have hleft : accepted settings heldOut ps = [scored heldOut p] := by
    rw [accepted, hperm, List.map_singleton, List.filter_cons_of_pos haccepted, List.filter_nil]
  have hartifact := artifact_perm_accepted settings heldOut ps
  rwa [hleft, List.perm_singleton] at hartifact

instance : TransCmp fun a b : ScoredPattern => a.pattern.supportOrder b.pattern where
  eq_swap {_ _} := OrientedCmp.eq_swap
  isLE_trans {_ _ _} := TransCmp.isLE_trans

theorem nodup_tokens_artifact (settings : FilterSettings) (heldOut : List HeldOutHunk)
    (ps : List Pattern) :
    (((artifact settings heldOut ps).map ScoredPattern.pattern).map Pattern.tokens).Nodup := by
  have hscored : ((maximalPatterns (supported settings ps)).map (scored heldOut)).map
      ScoredPattern.pattern = maximalPatterns (supported settings ps) := by
    rw [List.map_map]
    exact List.map_id _
  refine (((artifact_perm_accepted settings heldOut ps).map _).map _).nodup_iff.2 ?_
  refine ((List.filter_sublist.map ScoredPattern.pattern).map Pattern.tokens).nodup ?_
  rw [hscored]
  exact nodup_tokens_maximalPatterns _

theorem pairwise_artifact (settings : FilterSettings) (heldOut : List HeldOutHunk)
    (ps : List Pattern) :
    (artifact settings heldOut ps).Pairwise
      fun a b => a.pattern.supportOrder b.pattern = .lt := by
  have hle := @pairwise_mergeSort_isLE _
    (fun a b : ScoredPattern => a.pattern.supportOrder b.pattern)
    _ (accepted settings heldOut ps)
  have hne := List.pairwise_map.1 (nodup_tokens_artifact settings heldOut ps).of_map
  refine (hle.and hne).imp ?_
  rintro a b ⟨hle, hne⟩
  rcases Ordering.isLE_iff_eq_lt_or_eq_eq.1 hle with hlt | heq
  · exact hlt
  · exact absurd (LawfulEqCmp.eq_of_compare heq) hne

/-! ## The report -/

theorem countInvalid_mergePatterns (reason : Invalidity) (ps : List Pattern) :
    countInvalid reason (mergePatterns ps) =
      (summed ps).countP fun p => p.invalidity = some reason := by
  simp only [countInvalid, beq_eq_decide]
  exact (mergePatterns_perm_summed ps).countP_eq _

theorem lowSupport_eq (settings : FilterSettings) (ps : List Pattern) :
    ((mergePatterns ps).filter fun p => p.invalidity == none).length
        - (supported settings ps).length =
      (summed ps).countP fun p =>
        p.invalidity = none ∧ p.support < settings.minPruningSupport := by
  rw [supported, length_sub_length_filter, List.countP_filter,
    (mergePatterns_perm_summed ps).countP_eq]
  congr 1
  funext p
  rw [Bool.decide_and, Bool.and_comm, ← beq_eq_decide, ← decide_not, decide_eq_decide.2 Nat.not_le]

theorem redundant_eq (settings : FilterSettings) (ps : List Pattern) :
    (supported settings ps).length - (maximalPatterns (supported settings ps)).length =
      (eligible settings ps).countP fun p => ¬ p.IsMaximalIn (eligible settings ps) := by
  rw [(supported_perm_eligible settings ps).length_eq,
    (maximalPatterns_perm_maximal settings ps).length_eq, maximal, length_sub_length_filter]
  simp only [decide_not]

theorem lowConfidence_eq (settings : FilterSettings) (heldOut : List HeldOutHunk)
    (ps : List Pattern) :
    (maximalPatterns (supported settings ps)).length - (accepted settings heldOut ps).length =
      (maximal settings ps).countP fun p =>
        (Confidence.exact p heldOut).value < settings.confidenceThreshold := by
  rw [accepted, ← List.length_map (scored heldOut), length_sub_length_filter, List.countP_map,
    (maximalPatterns_perm_maximal settings ps).countP_eq]
  congr 1
  funext p
  rw [Function.comp_apply, FilterSettings.accepts, Bool.not_not, scored]

/-- What each stage drops. -/
def report (settings : FilterSettings) (heldOut : List HeldOutHunk) (ps : List Pattern) :
    FilterReport where
  merged := (summed ps).length
  symbolsOnly := (summed ps).countP fun p => p.invalidity = some .symbolsOnly
  noChange := (summed ps).countP fun p => p.invalidity = some .noChange
  unbalanced := (summed ps).countP fun p => p.invalidity = some .unbalancedBrackets
  lowSupport :=
    (summed ps).countP fun p => p.invalidity = none ∧ p.support < settings.minPruningSupport
  redundant := (eligible settings ps).countP fun p => ¬ p.IsMaximalIn (eligible settings ps)
  lowConfidence :=
    (maximal settings ps).countP fun p =>
      (Confidence.exact p heldOut).value < settings.confidenceThreshold
  kept := (artifact settings heldOut ps).length

/-- Every merged pattern is dropped by one stage, or kept. -/
theorem merged_eq_add (settings : FilterSettings) (heldOut : List HeldOutHunk)
    (ps : List Pattern) :
    let report := report settings heldOut ps
    report.merged = report.symbolsOnly + report.noChange + report.unbalanced + report.lowSupport
      + report.redundant + report.lowConfidence + report.kept := by
  have hinvalid := length_eq_countInvalid_add (mergePatterns ps)
  have hlow : (supported settings ps).length ≤
      ((mergePatterns ps).filter fun p => p.invalidity == none).length :=
    List.length_filter_le _ _
  have hredundant : (maximalPatterns (supported settings ps)).length ≤
      (supported settings ps).length := by
    rw [(supported_perm_eligible settings ps).length_eq,
      (maximalPatterns_perm_maximal settings ps).length_eq]
    exact List.length_filter_le _ _
  have hkept : (accepted settings heldOut ps).length ≤
      (maximalPatterns (supported settings ps)).length := by
    rw [← List.length_map (scored heldOut)]
    exact List.length_filter_le _ _
  have hartifact := (artifact_perm_accepted settings heldOut ps).length_eq
  rw [List.countP_eq_length_filter] at hinvalid
  dsimp only [report]
  rw [← countInvalid_mergePatterns, ← countInvalid_mergePatterns, ← countInvalid_mergePatterns,
    ← lowSupport_eq, ← redundant_eq, ← lowConfidence_eq settings heldOut,
    ← (mergePatterns_perm_summed ps).length_eq]
  omega

/-! ## The specification -/

/-- All stages at once, if all patterns that come to it can be scored. -/
theorem run_eq_ok {m : Matcher} (settings : FilterSettings) (heldOut : List HeldOutHunk)
    (ps : List Pattern)
    (hscores : ∀ q ∈ maximal settings ps,
      Confidence.evaluate m q heldOut = .ok (Confidence.exact q heldOut)) :
    run m settings heldOut ps = .ok (artifact settings heldOut ps, report settings heldOut ps) := by
  have hscored : (maximalPatterns (supported settings ps)).mapM (score m heldOut) =
      .ok ((maximalPatterns (supported settings ps)).map (scored heldOut)) := by
    refine mapM_eq_ok fun q hq => ?_
    rw [score, hscores q ((maximalPatterns_perm_maximal settings ps).mem_iff.1 hq)]
    rfl
  show (do
      let scored ← (maximalPatterns (supported settings ps)).mapM (score m heldOut)
      _ : Result _) = _
  rw [hscored, report, ← countInvalid_mergePatterns, ← countInvalid_mergePatterns,
    ← countInvalid_mergePatterns, ← lowSupport_eq, ← redundant_eq,
    ← lowConfidence_eq settings heldOut, ← (mergePatterns_perm_summed ps).length_eq]
  rfl

/-- Filtering fails only where one of the patterns that reach it cannot be scored. -/
theorem exists_of_run_eq_error {m : Matcher} {settings : FilterSettings}
    {heldOut : List HeldOutHunk} {e : Error} (h : run m settings heldOut ps = .error e) :
    ∃ q ∈ maximal settings ps, Confidence.evaluate m q heldOut = .error e := by
  have hstages : ((maximalPatterns (supported settings ps)).mapM (score m heldOut) >>= _) =
      .error e := h
  obtain hscores | ⟨_, -, hreport⟩ := eq_error_or_of_bind_eq_error hstages
  · obtain ⟨front, q, back, hps, -, hq⟩ := mapM_eq_error_iff.1 hscores
    obtain hevaluate | ⟨_, -, hscore⟩ := eq_error_or_of_bind_eq_error hq
    · refine ⟨q, (maximalPatterns_perm_maximal settings ps).mem_iff.1 ?_, hevaluate⟩
      rw [hps]
      exact List.mem_append_right front List.mem_cons_self
    · nomatch hscore
  · nomatch hreport

/-- By any exact matcher that can build the searches for the patterns that are to be
scored: the artifact holds the maximal eligible patterns whose confidence is not below
the threshold, in strict order and with their summed support; each counter of the report
counts what its stage drops, and together they make up all summed patterns. -/
theorem run_exact {m : Matcher} (hm : m.IsExact) (settings : FilterSettings)
    (heldOut : List HeldOutHunk) (ps : List Pattern)
    (hbuilds : ∀ q ∈ maximal settings ps, m.BuildsFor q) :
    ∃ artifact report, run m settings heldOut ps = .ok (artifact, report) ∧
      (∀ s, s ∈ artifact ↔
        s.pattern ∈ maximal settings ps ∧
          s.confidence = (Confidence.exact s.pattern heldOut).value ∧
          ¬ s.confidence < settings.confidenceThreshold) ∧
      artifact.Pairwise (fun a b => a.pattern.supportOrder b.pattern = .lt) ∧
      report =
        { merged := (summed ps).length
          symbolsOnly := (summed ps).countP fun p => p.invalidity = some .symbolsOnly
          noChange := (summed ps).countP fun p => p.invalidity = some .noChange
          unbalanced := (summed ps).countP fun p => p.invalidity = some .unbalancedBrackets
          lowSupport :=
            (summed ps).countP fun p =>
              p.invalidity = none ∧ p.support < settings.minPruningSupport
          redundant :=
            (eligible settings ps).countP fun p => ¬ p.IsMaximalIn (eligible settings ps)
          lowConfidence :=
            (maximal settings ps).countP fun p =>
              (Confidence.exact p heldOut).value < settings.confidenceThreshold
          kept := artifact.length } ∧
      report.merged = report.symbolsOnly + report.noChange + report.unbalanced + report.lowSupport
        + report.redundant + report.lowConfidence + report.kept :=
  ⟨artifact settings heldOut ps, report settings heldOut ps,
    run_eq_ok settings heldOut ps fun q hq => Confidence.evaluate_eq_ok hm (hbuilds q hq) heldOut,
    fun _ => mem_artifact, pairwise_artifact settings heldOut ps, rfl,
    merged_eq_add settings heldOut ps⟩

/-- Of four patterns one says nothing and one is part of another; two are scored. -/
theorem run_exact_of_contained_pattern :
    let settings : FilterSettings := ⟨0.25, 2⟩
    let heldOut : List HeldOutHunk := [⟨"f(a)", "f(b)"⟩, ⟨"g(a)", "g(a)"⟩, ⟨"c", "d"⟩]
    let call : List Token := [⟨.kept, "("⟩, ⟨.removed, "a"⟩, ⟨.added, "b"⟩, ⟨.kept, ")"⟩]
    let edit : List Token := [⟨.removed, "c"⟩, ⟨.added, "d"⟩]
    let ps : List Pattern :=
      [⟨[⟨.removed, "a"⟩, ⟨.added, "b"⟩], 4⟩, ⟨call, 1⟩, ⟨call, 1⟩, ⟨edit, 2⟩, ⟨[⟨.kept, "c"⟩], 9⟩]
    Matcher.overlapping.IsExact ∧
      (∀ q ∈ maximal settings ps, Matcher.overlapping.BuildsFor q) ∧
      ∃ artifact report, run .overlapping settings heldOut ps = .ok (artifact, report) ∧
        (∀ s, s ∈ artifact ↔
          (s = ⟨⟨call, 2⟩, Confidence.value ⟨2, 1⟩⟩ ∨ s = ⟨⟨edit, 2⟩, Confidence.value ⟨1, 1⟩⟩) ∧
            ¬ s.confidence < 0.25) ∧
        report.merged = 4 ∧ report.noChange = 1 ∧ report.redundant = 1 ∧
        report.lowConfidence + report.kept = 2 := by
  intro settings heldOut call edit ps
  have hbuilds : ∀ q ∈ maximal settings ps, Matcher.overlapping.BuildsFor q :=
    fun q _ => buildsFor_overlapping q
  obtain ⟨artifact, report, hrun, hartifact, -, hreport, hsum⟩ :=
    run_exact isExact_overlapping settings heldOut ps hbuilds
  have hmaximal : maximal settings ps = [⟨call, 2⟩, ⟨edit, 2⟩] := by decide +kernel
  have hcall : Confidence.exact ⟨call, 2⟩ heldOut = ⟨2, 1⟩ := by decide +kernel
  have hedit : Confidence.exact ⟨edit, 2⟩ heldOut = ⟨1, 1⟩ := by decide +kernel
  have hfour : (summed ps).length = 4 := by decide +kernel
  have hcounts : ((summed ps).countP fun p => p.invalidity = some .symbolsOnly) = 0 ∧
      ((summed ps).countP fun p => p.invalidity = some .noChange) = 1 ∧
      ((summed ps).countP fun p => p.invalidity = some .unbalancedBrackets) = 0 ∧
      ((summed ps).countP fun p =>
        p.invalidity = none ∧ p.support < settings.minPruningSupport) = 0 ∧
      ((eligible settings ps).countP fun p => ¬ p.IsMaximalIn (eligible settings ps)) = 1 := by
    decide +kernel
  rw [hfour, hcounts.1, hcounts.2.1, hcounts.2.2.1, hcounts.2.2.2.1, hcounts.2.2.2.2] at hreport
  refine ⟨isExact_overlapping, hbuilds, artifact, report, hrun, fun s => ?_, ?_⟩
  · rw [hartifact, hmaximal]
    constructor
    · rintro ⟨hpattern, hconfidence, haccepted⟩
      refine ⟨?_, haccepted⟩
      obtain ⟨pattern, confidence⟩ := s
      dsimp only at hpattern hconfidence
      simp only [List.mem_cons, List.not_mem_nil, or_false] at hpattern
      obtain rfl | rfl := hpattern
      · exact .inl (by rw [hconfidence, hcall])
      · exact .inr (by rw [hconfidence, hedit])
    · rintro ⟨rfl | rfl, haccepted⟩
      · exact ⟨List.mem_cons_self, by rw [hcall], haccepted⟩
      · exact ⟨List.mem_cons_of_mem _ List.mem_cons_self, by rw [hedit], haccepted⟩
  · subst hreport
    dsimp only at hsum ⊢
    exact ⟨rfl, rfl, rfl, by omega⟩

end Filter

end EditMining
