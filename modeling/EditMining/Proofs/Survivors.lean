import EditMining.Proofs.Maximal

/-!
# Which patterns survive pruning, and in which order

Pruning sorts patterns by their written length and then keeps some of them, and
both steps could make it matter how the input was ordered. What is left of that
order is little. Sorting is stable, so patterns that it cannot tell apart stay
as they came (`find?_mergeSort`), and those with the tokens of one pattern are
such. The loop keeps the first pattern with some tokens and drops the later
ones, which are part of it; and it keeps patterns in the order in which they
are visited (`keepMaximal_eq_append`).

Together: the survivors are the first patterns with maximal token lists, the
longest in front, and equally long ones in the order of the input.
-/

namespace EditMining

variable {kept rest ps : List Pattern} {p q r : Pattern}

/-! ## Stable sorting -/

theorem filter_mergeSort_of_pairwise {α : Type} {le : α → α → Bool}
    (htrans : ∀ a b c, le a b = true → le b c = true → le a c = true)
    (htotal : ∀ a b, (le a b || le b a) = true) {f : α → Bool} {xs : List α}
    (hxs : (xs.filter f).Pairwise fun a b => le a b = true) :
    (xs.mergeSort le).filter f = xs.filter f := by
  have hsub : (xs.filter f).Sublist ((xs.mergeSort le).filter f) := by
    have hsorted := List.sublist_mergeSort htrans htotal hxs List.filter_sublist
    simpa only [List.filter_filter, Bool.and_self] using hsorted.filter f
  exact (hsub.eq_of_length ((List.mergeSort_perm xs le).filter f).length_eq.symm).symm

/-- Among patterns of one length the first stays the first. -/
theorem find?_mergeSort {f : Pattern → Bool} {n : Nat}
    (h : ∀ q, f q = true → q.totalLength = n) :
    (ps.mergeSort Pattern.notShorter).find? f = ps.find? f := by
  have htied : (ps.filter f).Pairwise fun p q => p.notShorter q = true := by
    refine List.pairwise_of_forall_mem_list fun p hp q hq => decide_eq_true ?_
    rw [h p (List.mem_filter.1 hp).2, h q (List.mem_filter.1 hq).2]
  rw [← List.head?_filter, ← List.head?_filter,
    filter_mergeSort_of_pairwise Pattern.notShorter_trans Pattern.notShorter_total htied]

/-! ## The first of two patterns -/

/-- Of all patterns in a list with the tokens of one of two, the first one in
the list is the first of the two. -/
def Pattern.ComesBefore (ps : List Pattern) (p q : Pattern) : Prop :=
  ps.find? (fun r => r.tokens = p.tokens ∨ r.tokens = q.tokens) = some p

theorem Pattern.comesBefore_self (rest : List Pattern) (p q : Pattern) :
    ComesBefore (p :: rest) p q :=
  List.find?_cons_of_pos (decide_eq_true (.inl rfl))

theorem Pattern.ComesBefore.cons (h : ComesBefore rest p q) (hp : r.tokens ≠ p.tokens)
    (hq : r.tokens ≠ q.tokens) : ComesBefore (r :: rest) p q := by
  rw [ComesBefore, List.find?_cons_of_neg]
  · exact h
  · rw [decide_eq_true_eq, not_or]
    exact ⟨hp, hq⟩

theorem Pattern.ComesBefore.find? (h : ComesBefore ps p p) :
    ps.find? (fun r => r.tokens = p.tokens) = some p := by
  simpa only [ComesBefore, or_self] using h

theorem Pattern.ComesBefore.idxOf_lt (h : ComesBefore ps p q) (hne : p.tokens ≠ q.tokens) :
    (ps.map tokens).idxOf p.tokens < (ps.map tokens).idxOf q.tokens := by
  obtain ⟨-, front, back, rfl, hfront⟩ := List.find?_eq_some_iff_append.1 h
  have hnot : ∀ ts, ts = p.tokens ∨ ts = q.tokens → ts ∉ front.map tokens := by
    intro ts hts hmem
    obtain ⟨r, hr, rfl⟩ := List.mem_map.1 hmem
    simpa [hts] using hfront r hr
  rw [List.map_append, List.map_cons, List.idxOf_append_of_notMem (hnot _ (.inl rfl)),
    List.idxOf_append_of_notMem (hnot _ (.inr rfl)), List.idxOf_cons_self,
    List.idxOf_cons_ne _ hne]
  omega

/-- The order by length keeps patterns of one length as they come. -/
theorem Pattern.comesBefore_mergeSort (hlength : p.totalLength = q.totalLength) :
    ComesBefore (ps.mergeSort notShorter) p q ↔ ComesBefore ps p q := by
  rw [ComesBefore, ComesBefore, find?_mergeSort (n := p.totalLength)]
  intro r hr
  rcases of_decide_eq_true hr with hr | hr
  · rw [totalLength, hr, totalLength]
  · rw [hlength, totalLength, hr, totalLength]

/-! ## The loop -/

theorem Pattern.any_isSubsequenceOf_congr (h : p.tokens = q.tokens) :
    kept.any p.isSubsequenceOf = kept.any q.isSubsequenceOf := by
  have heq : p.isSubsequenceOf = q.isSubsequenceOf := by
    funext r
    rw [isSubsequenceOf, isSubsequenceOf, h]
  rw [heq]

/-- What the loop adds are first patterns with their tokens, in the order in
which they are visited, and not part of what was there. -/
theorem keepMaximal_eq_append (kept rest : List Pattern) :
    ∃ added, keepMaximal kept rest = kept.reverse ++ added ∧
      (∀ p ∈ added, ¬ kept.any p.isSubsequenceOf = true ∧ Pattern.ComesBefore rest p p) ∧
      added.Pairwise (Pattern.ComesBefore rest) := by
  fun_induction keepMaximal kept rest with
  | case1 kept => exact ⟨[], (List.append_nil _).symm, by simp, List.Pairwise.nil⟩
  | case2 kept r rest hany ih =>
      obtain ⟨added, heq, hadded, hpairs⟩ := ih
      -- A pattern like the dropped one would be part of the same kept pattern.
      have hne : ∀ p ∈ added, r.tokens ≠ p.tokens := fun p hp h =>
        (hadded p hp).1 (Pattern.any_isSubsequenceOf_congr h ▸ hany)
      refine ⟨added, heq, fun p hp => ?_, ?_⟩
      · exact ⟨(hadded p hp).1, (hadded p hp).2.cons (hne p hp) (hne p hp)⟩
      · exact hpairs.imp_of_mem fun hp hq h => h.cons (hne _ hp) (hne _ hq)
  | case3 kept r rest hnone ih =>
      obtain ⟨added, heq, hadded, hpairs⟩ := ih
      have hnot : ∀ p ∈ added, ¬ p.isSubsequenceOf r = true ∧ ¬ kept.any p.isSubsequenceOf = true :=
        fun p hp => by simpa [List.any_cons] using (hadded p hp).1
      have hne : ∀ p ∈ added, r.tokens ≠ p.tokens := fun p hp h =>
        (hnot p hp).1 (Pattern.isSubsequenceOf_iff.2 (h ▸ List.Sublist.refl _))
      refine ⟨r :: added, by rw [heq, List.reverse_cons, List.append_assoc]; rfl, ?_, ?_⟩
      · intro p hp
        rcases List.mem_cons.1 hp with rfl | hp
        · exact ⟨hnone, Pattern.comesBefore_self rest p p⟩
        · exact ⟨(hnot p hp).2, (hadded p hp).2.cons (hne p hp) (hne p hp)⟩
      · refine List.pairwise_cons.2 ⟨fun p _ => Pattern.comesBefore_self rest r p, ?_⟩
        exact hpairs.imp_of_mem fun hp hq h => h.cons (hne _ hp) (hne _ hq)

/-! ## The survivors -/

theorem find?_of_mem_maximalPatterns (hp : p ∈ maximalPatterns ps) :
    ps.find? (fun q => q.tokens = p.tokens) = some p := by
  obtain ⟨added, heq, hadded, -⟩ := keepMaximal_eq_append [] (ps.mergeSort Pattern.notShorter)
  rw [maximalPatterns, heq] at hp
  exact ((Pattern.comesBefore_mergeSort rfl).1 (hadded p hp).2).find?

theorem pairwise_maximalPatterns (ps : List Pattern) :
    (maximalPatterns ps).Pairwise fun p q =>
      q.totalLength < p.totalLength ∨ p.totalLength = q.totalLength ∧
        (ps.map Pattern.tokens).idxOf p.tokens < (ps.map Pattern.tokens).idxOf q.tokens := by
  have hlengths := (pairwise_totalLength_mergeSort ps).sublist (maximalPatterns_sublist ps)
  have hbefore : (maximalPatterns ps).Pairwise
      (Pattern.ComesBefore (ps.mergeSort Pattern.notShorter)) := by
    obtain ⟨added, heq, -, hpairs⟩ := keepMaximal_eq_append [] (ps.mergeSort Pattern.notShorter)
    rwa [maximalPatterns, heq]
  have hne := List.pairwise_map.1 (nodup_tokens_maximalPatterns ps)
  refine (hlengths.and (hbefore.and hne)).imp ?_
  rintro p q ⟨hle, hbefore, hne⟩
  rcases Nat.lt_or_eq_of_le hle with hlt | heq
  · exact .inl hlt
  · exact .inr ⟨heq.symm, ((Pattern.comesBefore_mergeSort heq.symm).1 hbefore).idxOf_lt hne⟩

theorem mem_tokens_maximalPatterns {ts : List Token} :
    ts ∈ (maximalPatterns ps).map Pattern.tokens ↔
      ts ∈ ps.map Pattern.tokens ∧ ¬ ∃ us ∈ ps.map Pattern.tokens, ts.Sublist us ∧ ts ≠ us := by
  constructor
  · intro hts
    obtain ⟨p, hp, rfl⟩ := List.mem_map.1 hts
    refine ⟨List.mem_map_of_mem (mem_of_mem_maximalPatterns hp), ?_⟩
    rintro ⟨us, hus, hsub, hne⟩
    obtain ⟨q, hq, rfl⟩ := List.mem_map.1 hus
    exact hne (isMaximalIn_of_mem_maximalPatterns hp q hq hsub).symm
  · rintro ⟨hts, hmax⟩
    obtain ⟨p, hp, rfl⟩ := List.mem_map.1 hts
    obtain ⟨q, hq, hsub⟩ := exists_mem_maximalPatterns hp
    have heq : p.tokens = q.tokens := by
      by_contra hne
      exact hmax ⟨q.tokens, List.mem_map_of_mem (mem_of_mem_maximalPatterns hq), hsub, hne⟩
    exact heq ▸ List.mem_map_of_mem hq

/-- The token lists that survive, each once, are those that are not properly
part of another one. A survivor is the first pattern with its tokens, and every
pattern is part of a survivor. The longest come first, equally long ones in the
order of the input. -/
theorem maximalPatterns_exact (ps : List Pattern) :
    ((maximalPatterns ps).map Pattern.tokens).Nodup ∧
      (∀ ts, ts ∈ (maximalPatterns ps).map Pattern.tokens ↔
        ts ∈ ps.map Pattern.tokens ∧
          ¬ ∃ us ∈ ps.map Pattern.tokens, ts.Sublist us ∧ ts ≠ us) ∧
      (∀ p ∈ maximalPatterns ps, ps.find? (fun q => q.tokens = p.tokens) = some p) ∧
      (∀ p ∈ ps, ∃ q ∈ maximalPatterns ps, p.tokens.Sublist q.tokens) ∧
      (maximalPatterns ps).Pairwise fun p q =>
        q.totalLength < p.totalLength ∨ p.totalLength = q.totalLength ∧
          (ps.map Pattern.tokens).idxOf p.tokens < (ps.map Pattern.tokens).idxOf q.tokens :=
  ⟨nodup_tokens_maximalPatterns ps, fun _ => mem_tokens_maximalPatterns,
    fun _ => find?_of_mem_maximalPatterns, fun _ => exists_mem_maximalPatterns,
    pairwise_maximalPatterns ps⟩

theorem maximalPatterns_exact_of_repeated :
    let edit : List Token := [⟨.removed, "a"⟩, ⟨.added, "b"⟩]
    let part : Pattern := ⟨[⟨.removed, "a"⟩], 8⟩
    let ps : List Pattern := [part, ⟨edit, 2⟩, ⟨[], 9⟩, ⟨edit, 7⟩]
    part ∈ ps ∧ (∃ q ∈ maximalPatterns ps, part.tokens.Sublist q.tokens) ∧
      ⟨edit, 2⟩ ∈ maximalPatterns ps := by
  intro edit part ps
  obtain ⟨-, htokens, hfirst, hcovered, -⟩ := maximalPatterns_exact ps
  have hpart : part ∈ ps := List.mem_cons_self
  refine ⟨hpart, hcovered part hpart, ?_⟩
  obtain ⟨p, hp, hedit⟩ := List.mem_map.1 ((htokens edit).2 (by decide))
  have hfind : ps.find? (fun q => q.tokens = edit) = some p := hedit ▸ hfirst p hp
  rwa [show p = ⟨edit, 2⟩ from (Option.some.inj hfind).symm] at hp

end EditMining
