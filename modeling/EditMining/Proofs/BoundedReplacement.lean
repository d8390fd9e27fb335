import EditMining.Proofs.PlainValues
import Mathlib.Data.List.Chain

/-!
# Bounded replacement exchanges whole runs and can be undone

Every text falls into maximal runs, inside and outside of a class by turns, and it does
so in one way only (`cuts_iff`). Replacing a word leaves all of them alone but the
runs of word characters that are this word, and replacing a number does the same with
the runs of number characters. No hit that is turned down hides another one, since
all of it lies in one run and a run has only one hit that counts.

What is put in is a word. If it was no word of the text before, it stands exactly where
the old text was taken out, also when that was a number and had points in it, so putting
the old text back restores everything (`replaced_runs_exact`).
-/

namespace EditMining.Text

variable {inClass : Char → Bool} {text : List Char} {p : Piece} {ps : List Piece}

/-! ## Maximal runs -/

/-- A text cut into pieces that are as long as they can be: none is empty, each lies
on one side of the class, and neighbours lie on different sides. -/
structure Cuts (inClass : Char → Bool) (text : List Char) (ps : List Piece) : Prop where
  text_eq : ps.flatMap (·.chars) = text
  ne_nil : ∀ p ∈ ps, p.chars ≠ []
  uniform : ∀ p ∈ ps, ∀ c ∈ p.chars, inClass c = p.inside
  alternate : ps.IsChain fun p q => p.inside ≠ q.inside

theorem cuts_pieces (inClass : Char → Bool) (text : List Char) :
    Cuts inClass text (pieces inClass text) := by
  induction text with
  | nil => exact ⟨rfl, nofun, nofun, .nil⟩
  | cons c rest ih =>
      have htext := flatten_pieces inClass (c :: rest)
      rw [pieces] at htext ⊢
      split at htext
      · next hnil => refine ⟨htext, ?_, ?_, .singleton _⟩ <;> simp
      · next next more hpieces =>
          rw [hpieces] at ih
          obtain ⟨-, hne, huniform, halternate⟩ := ih
          rw [List.isChain_cons] at halternate
          rw [List.forall_mem_cons] at hne huniform
          split at htext
          · next hsame =>
              -- The character goes to the front of the first piece.
              rw [if_pos hsame]
              have hside : inClass c = next.inside := (eq_of_beq hsame).symm
              refine ⟨htext, ?_, ?_, List.isChain_cons.2 halternate⟩
              · exact List.forall_mem_cons.2 ⟨List.cons_ne_nil _ _, hne.2⟩
              · refine List.forall_mem_cons.2 ⟨?_, huniform.2⟩
                exact List.forall_mem_cons.2 ⟨hside, huniform.1⟩
          · next hother =>
              -- It makes a piece of its own.
              rw [if_neg hother]
              have hside : inClass c ≠ next.inside := fun heq => hother (beq_iff_eq.2 heq.symm)
              refine ⟨htext, ?_, ?_, List.isChain_cons_cons.2 ⟨hside, ?_⟩⟩
              · simpa using hne
              · simpa using huniform
              · exact List.isChain_cons.2 halternate

theorem Cuts.head?_ne (h : Cuts inClass text (p :: ps)) :
    ∀ c ∈ (ps.flatMap (·.chars)).head?, inClass c ≠ p.inside := by
  intro c hc
  cases ps with
  | nil => nomatch hc
  | cons q qs =>
      obtain ⟨d, more, hchars⟩ := List.exists_cons_of_ne_nil (h.ne_nil q (by simp))
      have hside := h.uniform q (by simp) d (by simp [hchars])
      obtain rfl : d = c := by simpa [hchars] using hc
      rw [hside]
      exact (List.isChain_cons_cons.1 h.alternate).1.symm

theorem Cuts.of_cons (h : Cuts inClass text (p :: ps)) :
    Cuts inClass (ps.flatMap (·.chars)) ps :=
  ⟨rfl, fun q hq => h.ne_nil q (List.mem_cons_of_mem p hq),
    fun q hq => h.uniform q (List.mem_cons_of_mem p hq), h.alternate.tail⟩

theorem cuts_iff : Cuts inClass text ps ↔ ps = pieces inClass text := by
  constructor
  · intro h
    induction ps generalizing text with
    | nil =>
        rw [← h.text_eq]
        rfl
    | cons p ps ih =>
        have hfirst := pieces_append_of_uniform (h.ne_nil p List.mem_cons_self)
          (h.uniform p List.mem_cons_self) h.head?_ne
        rw [← h.text_eq, List.flatMap_cons, hfirst, ← ih h.of_cons]
  · rintro rfl
    exact cuts_pieces inClass text

/-- The second text is the first one with each maximal run that equals `old` exchanged
for `new`, and all other runs as they were. -/
def Exchanges (inClass : Char → Bool) (old new text text' : List Char) : Prop :=
  ∃ ps, (∀ qs, Cuts inClass text qs ↔ qs = ps) ∧
    text' = ps.flatMap fun p => if p.inside ∧ p.chars = old then new else p.chars

theorem exchanges_substituteRuns (inClass : Char → Bool) (old new text : List Char) :
    Exchanges inClass old new text (substituteRuns inClass old new text) := by
  refine ⟨pieces inClass text, fun qs => cuts_iff, ?_⟩
  rw [substituteRuns]
  refine List.flatMap_congr fun p _ => ?_
  simp only [Bool.and_eq_true, beq_iff_eq]

/-! ## Words and numbers -/

theorem exchanges_replaceBounded {old : List Char} (hold : CanRun inClass old)
    (new text : List Char) :
    Exchanges inClass old new text (replaceBounded inClass old new text) := by
  rw [replaceBounded_eq_substituteRuns hold.ne_nil hold.inside]
  exact exchanges_substituteRuns inClass old new text

/-- A word that was put in anew is replaced by what it stands for. -/
theorem replaceWord_replaceBounded (hclass : ∀ c, isWordChar c = true → inClass c = true)
    {old new : List Char} (hold : CanRun inClass old) (hnew : CanRun isWordChar new)
    (hfresh : new ∉ words text) :
    replaceWord new old (replaceBounded inClass old new text) = text := by
  rw [replaceWord, replaceBounded_eq_substituteRuns hnew.ne_nil hnew.inside,
    replaceBounded_eq_substituteRuns hold.ne_nil hold.inside]
  exact substituteRuns_substituteRuns hclass hnew hfresh

/-- Replacing a word exchanges the runs of word characters that equal it, and replacing
a number those of number characters. Both are undone by replacing what was put in, if
that was no word of the text. -/
theorem replaced_runs_exact {old new : List Char} (hold : old ≠ [])
    (hnew : ∀ c ∈ new, isWordChar c = true) (text : List Char) :
    ((∀ c ∈ old, isWordChar c = true) →
      Exchanges isWordChar old new text (replaceWord old new text) ∧
        (new ≠ [] → new ∉ words text → replaceWord new old (replaceWord old new text) = text)) ∧
    ((∀ c ∈ old, isNumberChar c = true) →
      Exchanges isNumberChar old new text (replaceNumber old new text) ∧
        (new ≠ [] → new ∉ words text →
          replaceWord new old (replaceNumber old new text) = text)) := by
  constructor
  · intro hword
    have hrun : CanRun isWordChar old := ⟨hold, hword⟩
    refine ⟨exchanges_replaceBounded hrun new text, fun hne hfresh => ?_⟩
    exact replaceWord_replaceBounded (fun _ h => h) hrun ⟨hne, hnew⟩ hfresh
  · intro hnumber
    have hrun : CanRun isNumberChar old := ⟨hold, hnumber⟩
    refine ⟨exchanges_replaceBounded hrun new text, fun hne hfresh => ?_⟩
    exact replaceWord_replaceBounded isNumberChar_of_isWordChar hrun ⟨hne, hnew⟩ hfresh

theorem replaced_runs_exact_of_fractions :
    let text := "ñ1(1, 1.5, 1.) + 1".toList
    replaceWord ['1'] "N".toList text = "ñ1(N, N.5, N.) + N".toList ∧
      replaceWord "N".toList ['1'] "ñ1(N, N.5, N.) + N".toList = text ∧
      replaceNumber ['1', '.'] "N".toList text = "ñ1(1, 1.5, N) + 1".toList ∧
      replaceWord "N".toList ['1', '.'] "ñ1(1, 1.5, N) + 1".toList = text := by
  intro text
  have hfresh : "N".toList ∉ words text := by decide +kernel
  have hnew : ∀ c ∈ "N".toList, isWordChar c = true := List.all_eq_true.1 (by decide)
  have hword := (replaced_runs_exact (List.cons_ne_nil '1' []) hnew text).1
    (List.all_eq_true.1 (by decide))
  have hnumber := (replaced_runs_exact (List.cons_ne_nil '1' ['.']) hnew text).2
    (List.all_eq_true.1 (by decide))
  have hword' : replaceWord ['1'] "N".toList text = "ñ1(N, N.5, N.) + N".toList := by
    decide +kernel
  have hnumber' : replaceNumber ['1', '.'] "N".toList text = "ñ1(1, 1.5, N) + 1".toList := by
    decide +kernel
  refine ⟨hword', ?_, hnumber', ?_⟩
  · rw [← hword']
    exact hword.2 (by decide) hfresh
  · rw [← hnumber']
    exact hnumber.2 (by decide) hfresh

end EditMining.Text
