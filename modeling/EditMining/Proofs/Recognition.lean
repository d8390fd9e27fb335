import EditMining.Language.Lexer
import EditMining.Proofs.CountingInPlace
import EditMining.Proofs.Matching
import EditMining.Proofs.TokenDiff
import EditMining.Proofs.Traversals

/-!
# A hunk supports what is mined from it

One pair of lines is read in two ways. In training the tokens of all its lines
make one diff, and neighbours of a kind are fused; on the held-out side every
line is written without its blanks, and line breaks keep the lines apart. A
pattern that is mined from the first text is looked for in the second, so the
two have to fit.

They fit line by line. A fused token spells out consecutive tokens of its side
(`exists_run_of_mem_texts_fuse`), and consecutive tokens of one line are found in
what is written for that line. With one line on a side that is all there is to
say. With more lines a run of tokens may go past the end of a line, and such a
token is meant not to be found: no text is to match across the end of a line.
-/

namespace EditMining

/-! ## Texts made of tokens -/

theorem join_infix_join {run tokens : List String} (h : run <:+: tokens) :
    (String.join run).toList <:+: (String.join tokens).toList := by
  obtain ⟨front, back, rfl⟩ := h
  refine ⟨(String.join front).toList, (String.join back).toList, ?_⟩
  simp only [String.join_append, String.toList_append]

theorem Text.infix_joinLines {line : String} {lines : List String} (h : line ∈ lines) :
    line.toList <:+: (joinLines lines).toList := by
  induction lines with
  | nil => nomatch h
  | cons first rest ih =>
      cases rest with
      | nil =>
          rw [List.mem_singleton.1 h]
          exact List.infix_rfl
      | cons second rest =>
          show line.toList <:+: (first ++ "\n" ++ joinLines (second :: rest)).toList
          rw [String.toList_append, String.toList_append]
          rcases List.mem_cons.1 h with rfl | h
          · exact ⟨[], _, by rw [List.nil_append, List.append_assoc]⟩
          · exact (ih h).trans (List.suffix_append _ _).isInfix

/-! ## Fused tokens are runs of tokens -/

namespace TokenDiff

variable {side : Projection}

theorem exists_runs_addToken {us : TokenSequence} {runs : List (List String)}
    (h : texts side us = runs.map String.join) (t : Token) :
    ∃ runs' : List (List String), runs'.flatten = texts side [t] ++ runs.flatten ∧
      texts side (addToken t us) = runs'.map String.join := by
  by_cases hside : side.includes t.polarity = true
  · have ht : texts side [t] = [t.text] := by
      rw [texts_cons, if_pos hside]
      rfl
    have halone : texts side (t :: us) = ([t.text] :: runs).map String.join := by
      rw [texts_cons, if_pos hside, h, List.map_cons, String.join_cons, String.join_nil,
        String.append_empty]
    rw [ht]
    cases us with
    | nil => exact ⟨[t.text] :: runs, rfl, halone⟩
    | cons u us =>
        rw [addToken]
        split
        · next heq =>
            rw [texts_cons, ← heq, if_pos hside] at h
            cases runs with
            | nil => cases h
            | cons run runs =>
                obtain ⟨hu, hus⟩ := List.cons.inj h
                refine ⟨(t.text :: run) :: runs, rfl, ?_⟩
                rw [texts_cons, if_pos hside, hus, List.map_cons, String.join_cons, hu]
        · exact ⟨[t.text] :: runs, rfl, halone⟩
  · have ht : texts side [t] = [] := by
      rw [texts_cons, if_neg hside]
      rfl
    rw [ht]
    refine ⟨runs, rfl, ?_⟩
    cases us with
    | nil => exact ht.trans h
    | cons u us =>
        rw [addToken]
        split
        · next heq =>
            rw [texts_cons, ← heq, if_neg hside] at h
            rw [texts_cons, if_neg hside, h]
        · rw [texts_cons, if_neg hside, h]

/-- The fused tokens of one side cut all its tokens into runs. -/
theorem exists_runs_fuse (side : Projection) (ts : TokenSequence) :
    ∃ runs : List (List String),
      runs.flatten = texts side ts ∧ texts side (fuse ts) = runs.map String.join := by
  induction ts with
  | nil => exact ⟨[], rfl, rfl⟩
  | cons t ts ih =>
      obtain ⟨runs, hflatten, hruns⟩ := ih
      obtain ⟨runs', hflatten', hruns'⟩ := exists_runs_addToken hruns t
      refine ⟨runs', ?_, hruns'⟩
      rw [hflatten', hflatten, ← texts_append]
      rfl

theorem exists_run_of_mem_texts_fuse {ts : TokenSequence} {text : String}
    (h : text ∈ texts side (fuse ts)) : ∃ run, run <:+: texts side ts ∧ text = String.join run := by
  obtain ⟨runs, hflatten, hruns⟩ := exists_runs_fuse side ts
  rw [hruns] at h
  obtain ⟨run, hrun, rfl⟩ := List.mem_map.1 h
  exact ⟨run, hflatten ▸ List.infix_of_mem_flatten hrun, rfl⟩

theorem texts_ofTokens (before behind : List String) :
    texts .trigger (ofTokens before behind) = before ∧
      texts .change (ofTokens before behind) = behind :=
  texts_flatMap_ofOpcode (Alignment.tiles_opcodes before behind)

end TokenDiff

/-! ## What a pair says in training and held out -/

section Lines

variable {tk : Tokenizer} {lines : List String} {tokens : List (List String)}

theorem tokenizeLines_eq (h : lines.mapM tk.tokenize = .ok tokens) :
    Sequencing.tokenizeLines tk lines = .ok tokens.flatten := by
  rw [Sequencing.tokenizeLines, h]
  rfl

theorem Pipeline.compactLines_eq_map (tk : Tokenizer) (lines : List String) :
    compactLines tk lines =
      (lines.mapM tk.tokenize).map fun tokens => Text.joinLines (tokens.map String.join) := by
  have hcompact : lines.mapM tk.compact = (lines.mapM tk.tokenize).map (List.map String.join) :=
    mapM_map tk.tokenize String.join lines
  rw [compactLines, hcompact]
  cases lines.mapM tk.tokenize <;> rfl

theorem compactLines_eq (h : lines.mapM tk.tokenize = .ok tokens) :
    Pipeline.compactLines tk lines = .ok (Text.joinLines (tokens.map String.join)) := by
  rw [Pipeline.compactLines_eq_map, h]
  rfl

end Lines

/-- A text that is spelt out by consecutive tokens of one of the lines. -/
def OnOneLine (lines : List (List String)) (text : String) : Prop :=
  ∃ tokens ∈ lines, ∃ run, run <:+: tokens ∧ text = String.join run

theorem OnOneLine.isInfix {lines : List (List String)} {text : String} (h : OnOneLine lines text) :
    text.toList <:+: (Text.joinLines (lines.map String.join)).toList := by
  obtain ⟨tokens, htokens, run, hrun, rfl⟩ := h
  exact (join_infix_join hrun).trans (Text.infix_joinLines (List.mem_map_of_mem htokens))

/-- With one line on a side, a pattern from the diff is found on that side. With
more, it is found if none of its texts goes past the end of a line. -/
theorem holdsEvery_projection {side : Projection} {ts : TokenSequence}
    {lines : List (List String)} (hside : TokenDiff.texts side ts = lines.flatten) {q : Pattern}
    (hq : q.tokens.Sublist (TokenDiff.fuse ts)) (hne : q.projection side ≠ [])
    (hlines : lines.length = 1 ∨ ∀ text ∈ q.projection side, OnOneLine lines text) :
    HoldsEvery (q.projection side) (Text.joinLines (lines.map String.join)) := by
  have hsub : (q.projection side).Sublist (TokenDiff.texts side (TokenDiff.fuse ts)) :=
    (hq.filter _).map _
  refine ⟨hne, fun text htext => OnOneLine.isInfix ?_⟩
  rcases hlines with hone | hlines
  · obtain ⟨run, hrun, rfl⟩ := TokenDiff.exists_run_of_mem_texts_fuse (hsub.subset htext)
    obtain ⟨tokens, rfl⟩ := List.length_eq_one_iff.1 hone
    rw [hside, List.flatten_singleton] at hrun
    exact ⟨tokens, List.mem_singleton_self _, run, hrun, rfl⟩
  · exact hlines text htext

theorem Confidence.exact_singleton {q : Pattern} {h : HeldOutHunk}
    (htriggers : HoldsEvery q.trigger h.condition) :
    (exact q [h]).triggerable = 1 ∧
      (HoldsEvery q.change h.consequent → (exact q [h]).changed = 1) := by
  constructor
  · exact List.countP_eq_length.2 fun x hx => by
      rw [List.mem_singleton.1 hx]
      exact decide_eq_true htriggers
  · intro hchanges
    exact List.countP_eq_length.2 fun x hx => by
      rw [List.mem_singleton.1 hx]
      exact decide_eq_true ⟨htriggers, hchanges⟩

/-! ## The pairs of a hunk -/

namespace Sequencing

variable {σ : Type} {s : SequencingSettings} {o : Oracle σ} {l : Language} {h pair : Hunk}

theorem length_of_pairFrom? {start offset : Nat} {before behind : List String}
    (hpair : pairFrom? start before behind offset = some pair) :
    pair.condition.length = 1 ∧ pair.consequent.length = 1 := by
  fun_induction pairFrom? start before behind offset with
  | case1 start line before across behind offset ih =>
      rcases Option.or_eq_some_iff.1 hpair with hat | ⟨-, hfrom⟩
      · rw [pairAt?] at hat
        split at hat
        · cases hat
          exact ⟨rfl, rfl⟩
        · nomatch hat
      · exact ih hfrom
  | case2 => nomatch hpair

/-- A hunk that is cut line by line has only pairs of single lines. -/
theorem returns_splitHunk (s : SequencingSettings) (o : Oracle σ) (l : Language) (t : Tally)
    (hsplit : isSplit h = true) :
    Returns (fun made => ∀ pair ∈ made.1, pair.condition.length = 1 ∧ pair.consequent.length = 1)
      ((splitHunk s o l h).handedOn t) := by
  rw [handedOn_splitHunk, pairsOf, if_pos hsplit]
  split
  · exact Returns.pure fun pair hpair => absurd hpair List.not_mem_nil
  · refine Returns.bind (Returns.bind (fun _ _ _ => trivial) fun d _ => Returns.pure ?_)
      fun pairs hpairs => Returns.pure hpairs
    intro pair hpair
    obtain ⟨offset, -, hfrom⟩ := List.mem_filterMap.1 hpair
    exact length_of_pairFrom? hfrom

end Sequencing

namespace Pipeline

open Sequencing

variable {σ : Type} {s : SequencingSettings} {o : Oracle σ} {tk : Tokenizer} {h pair : Hunk}

/-- A pair supports the patterns mined from it, whatever splits its lines into tokens.
Of any pair that a hunk is cut into, with sides that split, take the diff, and the texts
that it has held out. A pattern from the diff, if it has a trigger, could have changed
the pair, and if it has a change, did change it. For this its texts have to be
on one line each, on the side they are looked for; they are when that side is
one line, as both are in a hunk that is cut line by line. -/
theorem heldOut_supports_mined {t t' : Tally} {m m' : σ} {pairs : List Hunk}
    (hpairs : (splitHunk s o tk.language h).runFrom t m = ((.ok pairs, t'), m'))
    (hpair : pair ∈ pairs) {before behind : List (List String)}
    (hbefore : pair.condition.mapM tk.tokenize = .ok before)
    (hbehind : pair.consequent.mapM tk.tokenize = .ok behind) {matcher : Matcher}
    (hmatcher : matcher.IsExact) :
    ∃ diff heldOut, tokenDiff tk pair = .ok diff ∧ compactPair? tk pair = some heldOut ∧
      (isSplit h = true → pair.condition.length = 1 ∧ pair.consequent.length = 1) ∧
      ∀ q : Pattern, q.tokens.Sublist diff → matcher.BuildsFor q → q.trigger ≠ [] →
        (pair.condition.length = 1 ∨ ∀ text ∈ q.trigger, OnOneLine before text) →
        ∃ counts, Confidence.evaluate matcher q [heldOut] = .ok counts ∧
          counts.triggerable = 1 ∧
          (q.change ≠ [] →
            (pair.consequent.length = 1 ∨ ∀ text ∈ q.change, OnOneLine behind text) →
            counts.changed = 1) := by
  have hdiff : tokenDiff tk pair = .ok (TokenDiff.fusedDiff before.flatten behind.flatten) := by
    rw [tokenDiff, tokenizeLines_eq hbefore, tokenizeLines_eq hbehind]
    rfl
  have hcompact : compactPair? tk pair = some ⟨Text.joinLines (before.map String.join),
      Text.joinLines (behind.map String.join)⟩ := by
    rw [compactPair?, compactLines_eq hbefore, compactLines_eq hbehind]
  have hreturned : (((splitHunk s o tk.language h).handedOn t).run.run m).1 = .ok (pairs, t') :=
    congrArg Prod.fst (CountingSession.run_handedOn_of_ok hpairs)
  obtain ⟨htrigger, hchange⟩ := TokenDiff.texts_ofTokens before.flatten behind.flatten
  refine ⟨_, _, hdiff, hcompact,
    fun hsplit => returns_splitHunk s o tk.language t hsplit m _ hreturned pair hpair,
    fun q hq hbuilds hne hlines => ?_⟩
  rw [length_of_mapM_ok hbefore] at hlines
  rw [length_of_mapM_ok hbehind]
  obtain ⟨htriggerable, hchanged⟩ := Confidence.exact_singleton
    (h := ⟨Text.joinLines (before.map String.join), Text.joinLines (behind.map String.join)⟩)
    (holdsEvery_projection htrigger hq hne hlines)
  exact ⟨_, Confidence.evaluate_eq_ok hmatcher hbuilds _, htriggerable,
    fun hne hlines => hchanged (holdsEvery_projection hchange hq hne hlines)⟩

/-- An oracle that finds nothing in any hunk. -/
def silent : Oracle Nat :=
  .ofFunction fun _ _ => .ok ⟨[], []⟩

theorem heldOut_supports_mined_of_shorter :
    let tk : Tokenizer := .ofParser .python Language.python.parse
    let pair : Hunk := ⟨["if x:", "y = 1"], ["y = 2"]⟩
    let q : Pattern := ⟨[⟨.removed, "ifx:"⟩, ⟨.kept, "y="⟩, ⟨.removed, "1"⟩, ⟨.added, "2"⟩], 1⟩
    let before := [["if", "x", ":"], ["y", "=", "1"]]
    let behind := [["y", "=", "2"]]
    (splitHunk Configuration.default.sequencing silent .python pair).runFrom .zero 0 =
        ((.ok [pair], .zero), 0) ∧
      pair.condition.mapM tk.tokenize = .ok before ∧
      pair.consequent.mapM tk.tokenize = .ok behind ∧
      Matcher.overlapping.IsExact ∧ Matcher.overlapping.BuildsFor q ∧
      ∃ heldOut, tokenDiff tk pair = .ok q.tokens ∧ compactPair? tk pair = some heldOut ∧
        ∃ counts, Confidence.evaluate .overlapping q [heldOut] = .ok counts ∧
          counts.triggerable = 1 ∧ counts.changed = 1 := by
  intro tk pair q before behind
  have hpairs : (splitHunk Configuration.default.sequencing silent .python pair).runFrom .zero 0 =
      ((.ok [pair], .zero), 0) := rfl
  have hbefore : pair.condition.mapM tk.tokenize = .ok before := by decide +kernel
  have hbehind : pair.consequent.mapM tk.tokenize = .ok behind := by decide +kernel
  have hdiff : tokenDiff tk pair = .ok q.tokens := by decide +kernel
  have hbuilds := buildsFor_overlapping q
  obtain ⟨diff, heldOut, hdiff', hheldOut, -, hsupports⟩ :=
    heldOut_supports_mined (o := silent) hpairs (List.mem_singleton_self pair) hbefore hbehind
      isExact_overlapping
  have heq : q.tokens = diff := Except.ok.inj (hdiff.symm.trans hdiff')
  have hlines : ∀ text ∈ q.trigger, OnOneLine before text := by
    have hfirst : OnOneLine before "ifx:" := ⟨["if", "x", ":"], by decide, _, List.infix_rfl, rfl⟩
    have hkept : OnOneLine before "y=" := ⟨["y", "=", "1"], by decide, ["y", "="], by decide, rfl⟩
    have hlast : OnOneLine before "1" := ⟨["y", "=", "1"], by decide, ["1"], by decide, rfl⟩
    simpa [q, Pattern.trigger, Pattern.projection, Projection.includes, Polarity.inTrigger] using
      ⟨hfirst, hkept, hlast⟩
  obtain ⟨counts, hcounts, htriggerable, hchanged⟩ :=
    hsupports q (heq ▸ List.Sublist.refl _) hbuilds (by decide) (.inr hlines)
  exact ⟨hpairs, hbefore, hbehind, isExact_overlapping, hbuilds, heldOut, hdiff, hheldOut, counts,
    hcounts, htriggerable, hchanged (by decide) (.inl rfl)⟩

/-- The kept token goes past the end of the first line, so the hunk does not
support the pattern that is mined from it. -/
theorem fused_past_line_end_not_found :
    let tk : Tokenizer := .ofParser .python Language.python.parse
    let p : Pipeline := ⟨.default, ⟨[]⟩, .python, ⟨.lexical, .overlapping⟩⟩
    let pair : Hunk := ⟨["a = 1", "b = x"], ["a = 1", "b = y", "c"]⟩
    let q : Pattern := ⟨[⟨.kept, "a=1b="⟩, ⟨.removed, "x"⟩, ⟨.added, "yc"⟩], 1⟩
    let heldOut : HeldOutHunk := ⟨"a=1\nb=x", "a=1\nb=y\nc"⟩
    (p.abstractWithinCeiling silent tk pair).runFrom .zero 0 = ((.ok (some pair), .zero), 1) ∧
      (splitHunk p.configuration.sequencing silent .python pair).runFrom .zero 1 =
        ((.ok [pair], .zero), 1) ∧
      tokenDiff tk pair = .ok q.tokens ∧ compactPair? tk pair = some heldOut ∧
      q.trigger ≠ [] ∧ Confidence.evaluate .overlapping q [heldOut] = .ok ⟨0, 0⟩ := by
  intro tk p pair q heldOut
  have habstract : (p.abstractWithinCeiling silent tk pair).runFrom .zero 0 =
      ((.ok (some pair), .zero), 1) := by decide +kernel
  have hdiff : tokenDiff tk pair = .ok q.tokens := by decide +kernel
  have hcompact : compactPair? tk pair = some heldOut := by decide +kernel
  have hcounts : Confidence.exact q [heldOut] = ⟨0, 0⟩ := by decide +kernel
  refine ⟨habstract, rfl, hdiff, hcompact, by decide, ?_⟩
  rw [Confidence.evaluate_eq_ok isExact_overlapping (buildsFor_overlapping q), hcounts]

end Pipeline

end EditMining
