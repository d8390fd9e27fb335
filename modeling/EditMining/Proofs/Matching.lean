import EditMining.Confidence
import Mathlib.Data.List.Infix
import Mathlib.Data.List.Nodup

/-!
# One scan decides containment of every text

What a confidence counts is said with quantifiers: the hunks that contain *every*
text of the trigger, and those of them that contain *every* text of the change.
What is computed looks at each hunk once. Empty and repeated texts are left out,
the rest is searched for at once, and the hits are gone through with a flag for
each needle and a counter of the needles that are missing.

The counter counts the flags that are not set (`count_set_true`), so it comes to
zero at the hit that reaches the last needle, and the loop is right to stop there
(`allFound_iff`). It does not matter in which order hits are reported, how often
a needle is hit, or which needles overlap or contain each other: all that a
search has to do is to report the needles that are there, and no others
(`Matcher.IsExact`). Going through a text position by position is such a search
(`isExact_overlapping`), and any other gives the same counts. Where a matcher cannot
build a search that is asked for, there are no counts but its reason
(`Confidence.exists_of_evaluate_eq_error`).

Two kinds of emptiness have to be told apart. Without any texts nothing is held,
with nothing but empty ones everything is.
-/

namespace EditMining

/-! ## Matchers -/

/-- Searches for different needles that are not empty report exactly those that a text
contains, each at least once. -/
def Matcher.IsExact (m : Matcher) : Prop :=
  ∀ needles search, needles.Nodup → [] ∉ needles → m.build needles = .ok search →
    ∀ text place, place ∈ search text ↔
      ∃ needle, needles[place]? = some needle ∧ needle <:+: text

/-- The searches that a pattern asks for can be built. -/
def Matcher.BuildsFor (m : Matcher) (p : Pattern) : Prop :=
  ∀ side, ∃ search, m.build (needlesOf (p.projection side)) = .ok search

theorem mem_hitsAtStart {needles : List (List Char)} {text : List Char} {place : Nat} :
    place ∈ hitsAtStart needles text ↔
      ∃ needle, needles[place]? = some needle ∧ needle <+: text := by
  rw [hitsAtStart, List.mem_filterMap]
  constructor
  · rintro ⟨⟨needle, at'⟩, hmem, hhit⟩
    obtain ⟨hstart, hplace⟩ := Option.ite_none_right_eq_some.1 hhit
    cases hplace
    exact ⟨needle, List.mem_zipIdx_iff_getElem?.1 hmem, List.isPrefixOf_iff_prefix.1 hstart⟩
  · rintro ⟨needle, hneedle, hstart⟩
    exact ⟨(needle, place), List.mem_zipIdx_iff_getElem?.2 hneedle,
      if_pos (List.isPrefixOf_iff_prefix.2 hstart)⟩

theorem isExact_overlapping : Matcher.overlapping.IsExact := by
  intro needles search _ hempty hbuild text place
  cases hbuild
  induction text with
  | nil =>
      refine ⟨fun h => absurd h List.not_mem_nil, ?_⟩
      rintro ⟨needle, hneedle, hinfix⟩
      rw [List.infix_nil.1 hinfix] at hneedle
      exact absurd (List.mem_of_getElem? hneedle) hempty
  | cons c rest ih =>
      rw [overlappingHits, List.mem_append, mem_hitsAtStart, ih, ← exists_or]
      refine exists_congr fun needle => ?_
      rw [← and_or_left, List.infix_cons_iff]

theorem buildsFor_overlapping (p : Pattern) : Matcher.overlapping.BuildsFor p :=
  fun _ => ⟨_, rfl⟩

/-! ## The counter -/

theorem getElem?_set_true {found : List Bool} {hit place : Nat} :
    (found.set hit true)[place]? = some false ↔ place ≠ hit ∧ found[place]? = some false := by
  rw [List.getElem?_set]
  split
  · next h =>
      subst h
      split <;> simp
  · next h => simp [Ne.symm h]

/-- A flag that is set is one less that is missing. -/
theorem count_set_true {found : List Bool} {hit : Nat} (h : found[hit]? = some false) :
    (found.set hit true).count false = found.count false - 1 := by
  obtain ⟨hlt, hget⟩ := List.getElem?_eq_some_iff.1 h
  rw [List.count_set hlt, hget]
  rfl

theorem exists_missing_iff {found : List Bool} :
    0 < found.count false ↔ ∃ place : Nat, found[place]? = some false := by
  rw [List.count_pos_iff, List.mem_iff_getElem?]

/-- With some needle missing, the hits are enough exactly if they reach each
needle that is. -/
theorem allFound_iff {found : List Bool} {hits : List Nat} (hmissing : 0 < found.count false) :
    allFound found (found.count false) hits = true ↔
      ∀ place, found[place]? = some false → place ∈ hits := by
  induction hits generalizing found with
  | nil =>
      obtain ⟨place, hplace⟩ := exists_missing_iff.1 hmissing
      exact ⟨fun h => absurd h Bool.false_ne_true,
        fun h => absurd (h place hplace) List.not_mem_nil⟩
  | cons hit hits ih =>
      rw [allFound]
      split
      · next hnew =>
          -- The needle is found now; what is left to reach is what else was missing.
          have hleft : (∀ place, found[place]? = some false → place ∈ hit :: hits) ↔
              ∀ place, (found.set hit true)[place]? = some false → place ∈ hits := by
            refine forall_congr' fun place => ?_
            rw [getElem?_set_true, and_imp, List.mem_cons]
            by_cases hplace : place = hit <;> simp [hplace]
          rw [hleft, ← count_set_true hnew, Bool.or_eq_true, beq_iff_eq]
          rcases Nat.eq_zero_or_pos ((found.set hit true).count false) with hzero | hpos
          · have hnone : ∀ place, (found.set hit true)[place]? ≠ some false := fun place hplace =>
              absurd (exists_missing_iff.2 ⟨place, hplace⟩) (by omega)
            exact ⟨fun _ place hplace => absurd hplace (hnone place), fun _ => .inl hzero⟩
          · rw [ih hpos, or_iff_right (by omega)]
      · next hold =>
          rw [ih hmissing]
          refine forall_congr' fun place => imp_congr_right fun hplace => ?_
          have hne : place ≠ hit := fun h => hold (h ▸ hplace)
          rw [List.mem_cons, or_iff_right hne]

/-! ## Containment -/

/-- There is a text to be held, and each is a contiguous stretch of the other
text. -/
def HoldsEvery (texts : List String) (text : String) : Prop :=
  texts ≠ [] ∧ ∀ t ∈ texts, t.toList <:+: text.toList

instance (texts : List String) (text : String) : Decidable (HoldsEvery texts text) :=
  inferInstanceAs (Decidable (texts ≠ [] ∧ ∀ t ∈ texts, t.toList <:+: text.toList))

theorem HoldsEvery.of_subset {few many : List String} {text : String} (h : HoldsEvery many text)
    (hne : few ≠ []) (hsub : ∀ t ∈ few, t ∈ many) : HoldsEvery few text :=
  ⟨hne, fun t ht => h.2 t (hsub t ht)⟩

theorem holdsEvery_congr {texts texts' : List String} (h : ∀ t, t ∈ texts ↔ t ∈ texts')
    (text : String) : HoldsEvery texts text ↔ HoldsEvery texts' text := by
  have hne : texts ≠ [] ↔ texts' ≠ [] := by
    simp only [ne_eq, List.eq_nil_iff_forall_not_mem, h]
  exact and_congr hne (forall_congr' fun t => imp_congr_left (h t))

theorem mem_needlesOf {texts : List String} {needle : List Char} :
    needle ∈ needlesOf texts ↔ needle ≠ [] ∧ ∃ t ∈ texts, t.toList = needle := by
  rw [needlesOf, List.mem_map]
  simp only [(List.mergeSort_perm _ _).mem_iff]
  constructor
  · rintro ⟨t, ht, rfl⟩
    obtain ⟨ht, hne⟩ := List.mem_filter.1 (mem_distinct.1 ht)
    exact ⟨by simpa using hne, t, ht, rfl⟩
  · rintro ⟨hne, t, ht, rfl⟩
    refine ⟨t, mem_distinct.2 (List.mem_filter.2 ⟨ht, ?_⟩), rfl⟩
    simpa using hne

theorem nodup_needlesOf (texts : List String) : (needlesOf texts).Nodup :=
  ((List.mergeSort_perm _ _).nodup_iff.2 (nodup_distinct _)).map
    fun _ _ => String.toList_injective

theorem nil_notMem_needlesOf (texts : List String) : [] ∉ needlesOf texts :=
  fun h => (mem_needlesOf.1 h).1 rfl

theorem forall_mem_needlesOf {texts : List String} {text : List Char} :
    (∀ needle ∈ needlesOf texts, needle <:+: text) ↔ ∀ t ∈ texts, t.toList <:+: text := by
  constructor
  · intro h t ht
    by_cases hempty : t.toList = []
    · rw [hempty]
      exact List.nil_infix
    · exact h _ (mem_needlesOf.2 ⟨hempty, t, ht, rfl⟩)
  · intro h needle hneedle
    obtain ⟨-, t, ht, rfl⟩ := mem_needlesOf.1 hneedle
    exact h t ht

theorem allFound_search_iff {m : Matcher} (hm : m.IsExact) {needles : List (List Char)}
    {search : Search} (hnodup : needles.Nodup) (hempty : [] ∉ needles) (hne : needles ≠ [])
    (hbuild : m.build needles = .ok search) {text : List Char} :
    allFound (needles.map fun _ => false) needles.length (search text) = true ↔
      ∀ needle ∈ needles, needle <:+: text := by
  have hcount : (needles.map fun _ => false).count false = needles.length := by
    rw [List.map_const', List.count_replicate_self]
  rw [← hcount, allFound_iff (hcount ▸ List.length_pos_of_ne_nil hne)]
  simp only [hm needles search hnodup hempty hbuild, List.getElem?_map, Option.map_eq_some_iff,
    and_true]
  constructor
  · intro h needle hneedle
    obtain ⟨place, hplace⟩ := List.mem_iff_getElem?.1 hneedle
    obtain ⟨needle', hplace', hinfix⟩ := h place ⟨needle, hplace⟩
    rwa [Option.some.inj (hplace.symm.trans hplace')]
  · rintro h place ⟨needle, hplace⟩
    exact ⟨needle, hplace, h needle (List.mem_of_getElem? hplace)⟩

/-- A test for several texts decides whether a text holds every one of them. -/
theorem containsEvery_iff {m : Matcher} (hm : m.IsExact) {texts : List String}
    {test : String → Bool} (h : containsEvery m texts = .ok test) {text : String} :
    test text = true ↔ HoldsEvery texts text := by
  rw [HoldsEvery, ← forall_mem_needlesOf]
  dsimp only [containsEvery] at h
  split at h
  · next hneedles =>
      cases h
      simp [List.isEmpty_iff.1 hneedles]
  · next hneedles =>
      have hne : needlesOf texts ≠ [] := fun h => hneedles (List.isEmpty_iff.2 h)
      have htexts : texts ≠ [] := by
        rintro rfl
        exact hne (by simp [needlesOf, distinct])
      split at h
      · next search hbuild =>
          cases h
          rw [allFound_search_iff hm (nodup_needlesOf texts) (nil_notMem_needlesOf texts) hne
            hbuild]
          exact (and_iff_right htexts).symm
      · cases h

theorem containsEvery_eq_ok {m : Matcher} (hm : m.IsExact) {texts : List String} {search : Search}
    (hbuild : m.build (needlesOf texts) = .ok search) :
    containsEvery m texts = .ok fun text => decide (HoldsEvery texts text) := by
  have htest : ∃ test, containsEvery m texts = .ok test := by
    dsimp only [containsEvery]
    rw [hbuild]
    split <;> exact ⟨_, rfl⟩
  obtain ⟨test, htest⟩ := htest
  rw [htest]
  refine congrArg Except.ok (funext fun text => ?_)
  rw [Bool.eq_iff_iff, containsEvery_iff hm htest, decide_eq_true_eq]

theorem exists_of_containsEvery_eq_error {m : Matcher} {texts : List String} {e : Error}
    (h : containsEvery m texts = .error e) :
    ∃ reason, m.build (needlesOf texts) = .error reason ∧
      e = .internal ("failed to build token matcher: " ++ reason) none := by
  dsimp only [containsEvery] at h
  split at h
  · nomatch h
  · split at h
    · nomatch h
    · next reason hbuild =>
        cases h
        exact ⟨reason, hbuild, rfl⟩

/-! ## Counts -/

namespace Confidence

variable {m : Matcher} {p q : Pattern}

/-- The hunks whose condition holds every text of the trigger, and those of them whose
consequent holds every text of the change. -/
def exact (p : Pattern) (heldOut : List HeldOutHunk) : Confidence where
  triggerable := heldOut.countP fun h => HoldsEvery p.trigger h.condition
  changed := heldOut.countP fun h =>
    HoldsEvery p.trigger h.condition ∧ HoldsEvery p.change h.consequent

theorem evaluate_eq_ok (hm : m.IsExact) (hp : m.BuildsFor p) (heldOut : List HeldOutHunk) :
    evaluate m p heldOut = .ok (exact p heldOut) := by
  obtain ⟨_, htrigger⟩ := hp .trigger
  obtain ⟨_, hchange⟩ := hp .change
  rw [evaluate, Pattern.trigger, Pattern.change, containsEvery_eq_ok hm htrigger,
    containsEvery_eq_ok hm hchange]
  show Except.ok (count _ _ heldOut) = _
  rw [count, exact, ← List.countP_eq_length_filter, ← List.countP_eq_length_filter,
    List.countP_filter]
  congr 2
  refine List.countP_congr fun h _ => ?_
  rw [Bool.and_eq_true, decide_eq_true_eq, decide_eq_true_eq, decide_eq_true_eq]
  exact and_comm

/-- There are counts unless some search cannot be built, and then they are missing for
that reason. -/
theorem exists_of_evaluate_eq_error {heldOut : List HeldOutHunk} {e : Error}
    (h : evaluate m p heldOut = .error e) :
    ∃ side reason, m.build (needlesOf (p.projection side)) = .error reason ∧
      e = .internal ("failed to build token matcher: " ++ reason) none := by
  rw [evaluate] at h
  cases htrigger : containsEvery m p.trigger with
  | error e' =>
      rw [htrigger] at h
      cases h
      exact ⟨.trigger, exists_of_containsEvery_eq_error htrigger⟩
  | ok trigger =>
      cases hchange : containsEvery m p.change with
      | error e' =>
          rw [htrigger, hchange] at h
          cases h
          exact ⟨.change, exists_of_containsEvery_eq_error hchange⟩
      | ok change =>
          rw [htrigger, hchange] at h
          nomatch h

theorem exact_append (p : Pattern) (xs ys : List HeldOutHunk) :
    exact p (xs ++ ys) =
      ⟨(exact p xs).triggerable + (exact p ys).triggerable,
        (exact p xs).changed + (exact p ys).changed⟩ := by
  simp only [exact, List.countP_append]

theorem exact_congr (h : ∀ t, t ∈ p.tokens ↔ t ∈ q.tokens) (heldOut : List HeldOutHunk) :
    exact p heldOut = exact q heldOut := by
  have htexts : ∀ side t, t ∈ p.projection side ↔ t ∈ q.projection side := fun side t => by
    simp only [Pattern.projection, List.mem_map, List.mem_filter, h]
  have htrigger := holdsEvery_congr (htexts .trigger)
  have hchange := holdsEvery_congr (htexts .change)
  rw [exact, exact]
  congr 1
  · refine List.countP_congr fun h _ => ?_
    rw [decide_eq_true_eq, decide_eq_true_eq]
    exact htrigger _
  · refine List.countP_congr fun h _ => ?_
    rw [decide_eq_true_eq, decide_eq_true_eq]
    exact and_congr (htrigger _) (hchange _)

theorem triggerable_le_of_subset (hne : p.trigger ≠ []) (hsub : ∀ t ∈ p.trigger, t ∈ q.trigger)
    (heldOut : List HeldOutHunk) :
    (exact q heldOut).triggerable ≤ (exact p heldOut).triggerable := by
  refine List.countP_mono_left fun h _ hheld => ?_
  exact decide_eq_true ((of_decide_eq_true hheld).of_subset hne hsub)

theorem changed_le_triggerable (p : Pattern) (heldOut : List HeldOutHunk) :
    (exact p heldOut).changed ≤ (exact p heldOut).triggerable := by
  refine List.countP_mono_left fun h _ hboth => ?_
  exact decide_eq_true (of_decide_eq_true hboth).1

/-- By any exact matcher that can build the searches the triggerable hunks are those
whose condition holds every text of the trigger, the changed ones those of them whose
consequent holds every text of the change. There are no more changed than triggerable
hunks, counts add up over corpora, and neither the order of the tokens nor their
repetition counts; a pattern that asks for no other texts than another one is
triggerable no less often. -/
theorem evaluate_exact (hm : m.IsExact) (hp : m.BuildsFor p) (hq : m.BuildsFor q)
    (heldOut more : List HeldOutHunk) :
    ∃ counts others ofMore,
      evaluate m p heldOut = .ok counts ∧ evaluate m q heldOut = .ok others ∧
      evaluate m p more = .ok ofMore ∧
      counts.triggerable = heldOut.countP (fun h => HoldsEvery p.trigger h.condition) ∧
      counts.changed = heldOut.countP (fun h =>
        HoldsEvery p.trigger h.condition ∧ HoldsEvery p.change h.consequent) ∧
      counts.changed ≤ counts.triggerable ∧
      evaluate m p (heldOut ++ more) =
        .ok ⟨counts.triggerable + ofMore.triggerable, counts.changed + ofMore.changed⟩ ∧
      ((∀ t, t ∈ p.tokens ↔ t ∈ q.tokens) → others = counts) ∧
      (p.trigger ≠ [] → (∀ t ∈ p.trigger, t ∈ q.trigger) →
        others.triggerable ≤ counts.triggerable) := by
  refine ⟨exact p heldOut, exact q heldOut, exact p more, evaluate_eq_ok hm hp _,
    evaluate_eq_ok hm hq _, evaluate_eq_ok hm hp _, rfl, rfl, changed_le_triggerable p heldOut, ?_,
    fun h => (exact_congr h heldOut).symm,
    fun hne hsub => triggerable_le_of_subset hne hsub heldOut⟩
  rw [evaluate_eq_ok hm hp, exact_append]

theorem evaluate_exact_of_contained_needle :
    let p : Pattern := ⟨[⟨.removed, "ab"⟩, ⟨.kept, "b"⟩, ⟨.kept, ""⟩, ⟨.added, "c"⟩], 1⟩
    let q : Pattern :=
      ⟨[⟨.added, "c"⟩, ⟨.kept, "b"⟩, ⟨.kept, "b"⟩, ⟨.kept, ""⟩, ⟨.removed, "ab"⟩], 1⟩
    let heldOut : List HeldOutHunk := [⟨"ab", "bc"⟩, ⟨"xab", "b"⟩, ⟨"b", "bc"⟩]
    Matcher.overlapping.IsExact ∧ Matcher.overlapping.BuildsFor p ∧
      Matcher.overlapping.BuildsFor q ∧
      (∀ t, t ∈ p.tokens ↔ t ∈ q.tokens) ∧ p.trigger ≠ [] ∧ (∀ t ∈ p.trigger, t ∈ q.trigger) ∧
      evaluate .overlapping p heldOut = .ok ⟨2, 1⟩ ∧
      evaluate .overlapping q heldOut = .ok ⟨2, 1⟩ ∧
      evaluate .overlapping p (heldOut ++ [⟨"ab", "cb"⟩]) = .ok ⟨3, 2⟩ := by
  intro p q heldOut
  have hp := buildsFor_overlapping p
  have hq := buildsFor_overlapping q
  obtain ⟨counts, others, ofMore, hcounts, hothers, hmore, htriggerable, hchanged, -, happend,
      hsame, -⟩ :=
    evaluate_exact isExact_overlapping hp hq heldOut [⟨"ab", "cb"⟩]
  have htokens : ∀ t, t ∈ p.tokens ↔ t ∈ q.tokens := by
    intro t
    simp only [p, q, List.mem_cons, List.not_mem_nil, or_false]
    grind
  have htwo : counts = ⟨2, 1⟩ := by
    have htwo : heldOut.countP (fun h => HoldsEvery p.trigger h.condition) = 2 := by decide +kernel
    have hone : heldOut.countP (fun h =>
        HoldsEvery p.trigger h.condition ∧ HoldsEvery p.change h.consequent) = 1 := by
      decide +kernel
    rw [← htwo, ← hone, ← htriggerable, ← hchanged]
  have hone : ofMore = ⟨1, 1⟩ := by
    have hone : exact p [⟨"ab", "cb"⟩] = ⟨1, 1⟩ := by decide +kernel
    rw [← hone]
    exact Except.ok.inj (hmore.symm.trans (evaluate_eq_ok isExact_overlapping hp _))
  subst htwo hone
  rw [hsame htokens] at hothers
  exact ⟨isExact_overlapping, hp, hq, htokens, by decide, by decide, hcounts, hothers, happend⟩

end Confidence

end EditMining
