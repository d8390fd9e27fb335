import EditMining.Proofs.Filtering

/-!
# Filtering what was filtered changes nothing

The patterns of an artifact may be filtered again, in any order, and the same
artifact comes out. A second run goes through all five stages, so each stage has
to let everything pass. What that takes is a property of the patterns alone
(`Lasting`): no token list is repeated, so that merging adds nothing up; none
breaks a rule or has too little support; none contains another; and none has too
low a confidence.

The artifact has this property, although the first run judged its patterns next
to others that are gone. That does no harm: a pattern that no eligible pattern
contains is not contained in one of the few that are left, its support was
summed before anything was dropped, and its confidence depends on no other
pattern.
-/

namespace EditMining

namespace Filter

variable {settings : FilterSettings} {heldOut : List HeldOutHunk} {ps qs : List Pattern}
  {p : Pattern}

/-- Patterns of which no stage drops any. -/
structure Lasting (settings : FilterSettings) (heldOut : List HeldOutHunk)
    (qs : List Pattern) : Prop where
  nodup : (qs.map Pattern.tokens).Nodup
  valid : ∀ q ∈ qs, q.invalidity = none
  supported : ∀ q ∈ qs, settings.minPruningSupport ≤ q.support
  maximal : ∀ q ∈ qs, q.IsMaximalIn qs
  confident : ∀ q ∈ qs,
    ¬ (Confidence.exact q heldOut).value < settings.confidenceThreshold

namespace Lasting

theorem of_perm (h : Lasting settings heldOut ps) (hperm : qs.Perm ps) :
    Lasting settings heldOut qs where
  nodup := (hperm.map _).nodup_iff.2 h.nodup
  valid q hq := h.valid q (hperm.mem_iff.1 hq)
  supported q hq := h.supported q (hperm.mem_iff.1 hq)
  maximal q hq r hr := h.maximal q (hperm.mem_iff.1 hq) r (hperm.mem_iff.1 hr)
  confident q hq := h.confident q (hperm.mem_iff.1 hq)

/-! Stage by stage nothing is dropped. -/

theorem mem_summed (h : Lasting settings heldOut qs) : p ∈ summed qs ↔ p ∈ qs := by
  rw [Filter.mem_summed, mem_iff_of_nodup_tokens h.nodup]

theorem length_summed (h : Lasting settings heldOut qs) : (summed qs).length = qs.length :=
  ((List.perm_ext_iff_of_nodup (nodup_tokens_summed qs).of_map h.nodup.of_map).2
    fun _ => h.mem_summed).length_eq

theorem eligible_eq (h : Lasting settings heldOut qs) : eligible settings qs = summed qs := by
  refine List.filter_eq_self.2 fun q hq => decide_eq_true ?_
  exact ⟨h.valid q (h.mem_summed.1 hq), h.supported q (h.mem_summed.1 hq)⟩

theorem isMaximalIn_eligible (h : Lasting settings heldOut qs) (hp : p ∈ qs) :
    p.IsMaximalIn (eligible settings qs) := by
  intro r hr
  rw [h.eligible_eq, h.mem_summed] at hr
  exact h.maximal p hp r hr

theorem mem_maximal (h : Lasting settings heldOut qs) :
    p ∈ Filter.maximal settings qs ↔ p ∈ qs := by
  rw [Filter.mem_maximal, h.eligible_eq, h.mem_summed]
  refine and_iff_left_of_imp fun hp => ?_
  have hmax := h.isMaximalIn_eligible hp
  rwa [h.eligible_eq] at hmax

theorem mem_artifact (h : Lasting settings heldOut qs) {s : ScoredPattern} :
    s ∈ artifact settings heldOut qs ↔
      s.pattern ∈ qs ∧ s.confidence = (Confidence.exact s.pattern heldOut).value := by
  rw [Filter.mem_artifact, h.mem_maximal, ← and_assoc]
  refine and_iff_left_of_imp ?_
  rintro ⟨hs, hconfidence⟩
  rw [hconfidence]
  exact h.confident _ hs

theorem length_artifact (h : Lasting settings heldOut qs) :
    (artifact settings heldOut qs).length = qs.length := by
  have hperm : ((artifact settings heldOut qs).map ScoredPattern.pattern).Perm qs := by
    refine (List.perm_ext_iff_of_nodup (nodup_tokens_artifact settings heldOut qs).of_map
      h.nodup.of_map).2 fun p => ?_
    rw [List.mem_map]
    constructor
    · rintro ⟨s, hs, rfl⟩
      exact (h.mem_artifact.1 hs).1
    · intro hp
      exact ⟨scored heldOut p, h.mem_artifact.2 ⟨hp, rfl⟩, rfl⟩
  rw [← hperm.length_eq, List.length_map]

theorem report_eq (h : Lasting settings heldOut qs) :
    report settings heldOut qs =
      { merged := qs.length
        symbolsOnly := 0
        noChange := 0
        unbalanced := 0
        lowSupport := 0
        redundant := 0
        lowConfidence := 0
        kept := qs.length } := by
  have hinvalid : ∀ reason, (summed qs).countP (fun p => p.invalidity = some reason) = 0 := by
    intro reason
    refine List.countP_eq_zero.2 fun p hp hreason => ?_
    rw [decide_eq_true_eq, h.valid p (h.mem_summed.1 hp)] at hreason
    nomatch hreason
  have hlow : (summed qs).countP (fun p =>
      p.invalidity = none ∧ p.support < settings.minPruningSupport) = 0 := by
    refine List.countP_eq_zero.2 fun p hp hlow => ?_
    exact Nat.not_lt.2 (h.supported p (h.mem_summed.1 hp)) (of_decide_eq_true hlow).2
  have hredundant : (eligible settings qs).countP
      (fun p => ¬ p.IsMaximalIn (eligible settings qs)) = 0 := by
    refine List.countP_eq_zero.2 fun p hp hnot => of_decide_eq_true hnot ?_
    exact h.isMaximalIn_eligible (h.mem_summed.1 (h.eligible_eq ▸ hp))
  have hconfidence : (Filter.maximal settings qs).countP (fun p =>
      (Confidence.exact p heldOut).value < settings.confidenceThreshold) = 0 := by
    refine List.countP_eq_zero.2 fun p hp hlow => ?_
    exact h.confident p (h.mem_maximal.1 hp) (of_decide_eq_true hlow)
  rw [report, hinvalid, hinvalid, hinvalid, hlow, hredundant, hconfidence,
    h.length_summed, h.length_artifact]

end Lasting

/-! ## The artifact lasts -/

theorem mem_artifact_patterns :
    p ∈ (artifact settings heldOut ps).map ScoredPattern.pattern ↔
      p ∈ maximal settings ps ∧
        ¬ (Confidence.exact p heldOut).value < settings.confidenceThreshold := by
  rw [List.mem_map]
  constructor
  · rintro ⟨s, hs, rfl⟩
    obtain ⟨hmaximal, hconfidence, haccepted⟩ := mem_artifact.1 hs
    exact ⟨hmaximal, hconfidence ▸ haccepted⟩
  · rintro ⟨hmaximal, haccepted⟩
    exact ⟨scored heldOut p, mem_artifact.2 ⟨hmaximal, rfl, haccepted⟩, rfl⟩

theorem lasting_artifact (settings : FilterSettings) (heldOut : List HeldOutHunk)
    (ps : List Pattern) :
    Lasting settings heldOut ((artifact settings heldOut ps).map ScoredPattern.pattern) := by
  have hmaximal : ∀ q ∈ (artifact settings heldOut ps).map ScoredPattern.pattern,
      q ∈ eligible settings ps ∧ q.IsMaximalIn (eligible settings ps) :=
    fun q hq => mem_maximal.1 (mem_artifact_patterns.1 hq).1
  have heligible : ∀ q ∈ (artifact settings heldOut ps).map ScoredPattern.pattern,
      q.invalidity = none ∧ settings.minPruningSupport ≤ q.support :=
    fun q hq => of_decide_eq_true (List.mem_filter.1 (hmaximal q hq).1).2
  exact {
    nodup := nodup_tokens_artifact settings heldOut ps
    valid := fun q hq => (heligible q hq).1
    supported := fun q hq => (heligible q hq).2
    maximal := fun q hq r hr => (hmaximal q hq).2 r (hmaximal r hr).1
    confident := fun q hq => (mem_artifact_patterns.1 hq).2 }

theorem artifact_again (h : qs.Perm ((artifact settings heldOut ps).map ScoredPattern.pattern)) :
    artifact settings heldOut qs = artifact settings heldOut ps := by
  have hlasting := (lasting_artifact settings heldOut ps).of_perm h
  refine eq_of_mem_iff_of_pairwise_lt
    (fun a b : ScoredPattern => a.pattern.supportOrder b.pattern) (fun s => ?_)
    (pairwise_artifact settings heldOut qs) (pairwise_artifact settings heldOut ps)
  rw [hlasting.mem_artifact, h.mem_iff, mem_artifact_patterns, mem_artifact]
  constructor
  · rintro ⟨⟨hmaximal, haccepted⟩, hconfidence⟩
    exact ⟨hmaximal, hconfidence, hconfidence ▸ haccepted⟩
  · rintro ⟨hmaximal, hconfidence, haccepted⟩
    exact ⟨⟨hmaximal, hconfidence ▸ haccepted⟩, hconfidence⟩

/-- Filtering the patterns of an artifact once more, in whatever order they come,
gives the same artifact; nothing is dropped, and as many patterns are kept as
were merged. -/
theorem run_again {m : Matcher} (hm : m.IsExact) (settings : FilterSettings)
    (heldOut : List HeldOutHunk) (ps : List Pattern)
    (hbuilds : ∀ q ∈ maximal settings ps, m.BuildsFor q) :
    ∃ artifact report, run m settings heldOut ps = .ok (artifact, report) ∧
      ∀ qs, qs.Perm (artifact.map ScoredPattern.pattern) →
        run m settings heldOut qs =
          .ok (artifact,
            { merged := artifact.length
              symbolsOnly := 0
              noChange := 0
              unbalanced := 0
              lowSupport := 0
              redundant := 0
              lowConfidence := 0
              kept := artifact.length }) := by
  have hscores : ∀ q ∈ maximal settings ps,
      Confidence.evaluate m q heldOut = .ok (Confidence.exact q heldOut) :=
    fun q hq => Confidence.evaluate_eq_ok hm (hbuilds q hq) heldOut
  refine ⟨_, _, run_eq_ok settings heldOut ps hscores, fun qs h => ?_⟩
  have hlasting := (lasting_artifact settings heldOut ps).of_perm h
  -- What is scored again was scored before.
  have hagain : ∀ q ∈ maximal settings qs,
      Confidence.evaluate m q heldOut = .ok (Confidence.exact q heldOut) := fun q hq =>
    hscores q (mem_artifact_patterns.1 (h.mem_iff.1 (hlasting.mem_maximal.1 hq))).1
  have hreport := hlasting.report_eq
  rw [h.length_eq, List.length_map] at hreport
  rw [run_eq_ok settings heldOut qs hagain, artifact_again h, hreport]

/-- The two patterns that are left for scoring come back in the other order. -/
theorem run_again_of_reversed :
    let settings : FilterSettings := ⟨0.25, 2⟩
    let heldOut : List HeldOutHunk := [⟨"f(a)", "f(b)"⟩, ⟨"g(a)", "g(a)"⟩, ⟨"c", "d"⟩]
    let call : List Token := [⟨.kept, "("⟩, ⟨.removed, "a"⟩, ⟨.added, "b"⟩, ⟨.kept, ")"⟩]
    let edit : List Token := [⟨.removed, "c"⟩, ⟨.added, "d"⟩]
    let ps : List Pattern :=
      [⟨[⟨.removed, "a"⟩, ⟨.added, "b"⟩], 4⟩, ⟨call, 1⟩, ⟨call, 1⟩, ⟨edit, 2⟩, ⟨[⟨.kept, "c"⟩], 9⟩]
    Matcher.overlapping.IsExact ∧
      (∀ q ∈ maximal settings ps, Matcher.overlapping.BuildsFor q) ∧
      ∃ artifact report, run .overlapping settings heldOut ps = .ok (artifact, report) ∧
        ((⟨⟨call, 2⟩, Confidence.value ⟨2, 1⟩⟩ : ScoredPattern) ∈ artifact ↔
          ¬ Confidence.value ⟨2, 1⟩ < 0.25) ∧
        ((⟨⟨edit, 2⟩, Confidence.value ⟨1, 1⟩⟩ : ScoredPattern) ∈ artifact ↔
          ¬ Confidence.value ⟨1, 1⟩ < 0.25) ∧
        run .overlapping settings heldOut (artifact.map ScoredPattern.pattern).reverse =
          .ok (artifact, ⟨artifact.length, 0, 0, 0, 0, 0, 0, artifact.length⟩) := by
  intro settings heldOut call edit ps
  have hbuilds : ∀ q ∈ maximal settings ps, Matcher.overlapping.BuildsFor q :=
    fun q _ => buildsFor_overlapping q
  have hscores : ∀ q ∈ maximal settings ps,
      Confidence.evaluate .overlapping q heldOut = .ok (Confidence.exact q heldOut) :=
    fun q hq => Confidence.evaluate_eq_ok isExact_overlapping (hbuilds q hq) heldOut
  obtain ⟨found, counted, hrun, hagain⟩ :=
    run_again isExact_overlapping settings heldOut ps hbuilds
  obtain rfl : found = artifact settings heldOut ps :=
    congrArg Prod.fst (Except.ok.inj (hrun.symm.trans (run_eq_ok settings heldOut ps hscores)))
  have hmaximal : maximal settings ps = [⟨call, 2⟩, ⟨edit, 2⟩] := by decide +kernel
  have hcall : Confidence.exact ⟨call, 2⟩ heldOut = ⟨2, 1⟩ := by decide +kernel
  have hedit : Confidence.exact ⟨edit, 2⟩ heldOut = ⟨1, 1⟩ := by decide +kernel
  refine ⟨isExact_overlapping, hbuilds, _, counted, hrun, ?_, ?_, hagain _ (List.reverse_perm _)⟩
  · rw [mem_artifact, hmaximal, hcall]
    exact ⟨fun h => h.2.2, fun h => ⟨List.mem_cons_self, rfl, h⟩⟩
  · rw [mem_artifact, hmaximal, hedit]
    exact ⟨fun h => h.2.2, fun h => ⟨List.mem_cons_of_mem _ List.mem_cons_self, rfl, h⟩⟩

end Filter

end EditMining
