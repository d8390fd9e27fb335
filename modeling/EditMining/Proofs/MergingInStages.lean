import EditMining.Proofs.Merge
import Mathlib.Data.String.Basic

/-!
# Merging is canonical, in one go or in stages

A merged list shows neither the order nor the grouping of what was merged. Both
come from one fact about merging, that it depends on nothing but two views of
its input: the token lists, and the total support of each
(`mergePatterns_congr`). A permutation changes neither view, and merging some of
the patterns beforehand does not either, because it keeps both.

Patterns may be merged in stages, then: parts are merged apart, put together,
and merged again, as often as one likes (`MergedInStages`). Whatever a stage is
handed on as, merging it at the end gives what merging everything at once gives.

The order of a merged list is the one that a reader of its written form would
expect: where supports are equal, the written tokens are in lexicographic order
(`tokens_lt_iff`), since the signs are ordered as the polarities are.
-/

namespace EditMining

open Std

variable {ps qs xs ys : List Pattern}

/-! ## The order of the written forms -/

theorem Polarity.compare_eq_lt_iff {a b : Polarity} :
    compare a b = .lt ↔ a.symbol < b.symbol := by
  cases a <;> cases b <;> decide

theorem Polarity.symbol_injective {a b : Polarity} (h : a.symbol = b.symbol) : a = b := by
  have hread := ofSymbol?_symbol a
  rw [h, ofSymbol?_symbol] at hread
  exact (Option.some.inj hread).symm

theorem Token.lt_iff {t u : Token} : compare t u = .lt ↔ t.render < u.render := by
  have hcompare : compare t u = (compare t.polarity u.polarity).then (compare t.text u.text) := rfl
  rw [hcompare, Ordering.then_eq_lt, Polarity.compare_eq_lt_iff, LawfulEqCmp.compare_eq_iff_eq,
    LawfulLTCmp.eq_lt_iff_lt, String.lt_iff, render, render, String.lt_iff, String.toList_ofList,
    String.toList_ofList, List.cons_lt_cons_iff]
  exact or_congr_right (and_congr_left fun _ => ⟨congrArg _, Polarity.symbol_injective⟩)

theorem Token.render_injective {t u : Token} (h : t.render = u.render) : t = u := by
  have hread := parse_render t
  rw [h, parse_render] at hread
  exact (Except.ok.inj hread).symm

/-- Token lists are ordered as their written forms are, lexicographically. -/
theorem tokens_lt_iff {ts us : List Token} :
    compare ts us = .lt ↔ ts.map Token.render < us.map Token.render := by
  induction ts generalizing us with
  | nil => cases us <;> simp
  | cons t ts ih =>
      cases us with
      | nil => simp
      | cons u us =>
          rw [List.compare_cons_cons, Ordering.then_eq_lt, Token.lt_iff,
            LawfulEqCmp.compare_eq_iff_eq, ih, List.map_cons, List.map_cons, List.cons_lt_cons_iff]
          exact or_congr_right (and_congr_left fun _ => ⟨congrArg _, Token.render_injective⟩)

theorem pairwise_rendered_mergePatterns (xs : List Pattern) :
    (mergePatterns xs).Pairwise fun p q =>
      q.support < p.support ∨ p.support = q.support ∧ p.rendered < q.rendered := by
  refine (pairwise_mergePatterns xs).imp fun {p q} hlt => ?_
  rw [Pattern.supportOrder_eq_lt_iff, tokens_lt_iff] at hlt
  exact hlt

/-! ## The support of all patterns together -/

theorem sum_support_addToFirst (p : Pattern) (ps : List Pattern) :
    ((addToFirst p ps).map Pattern.support).sum = p.support + (ps.map Pattern.support).sum := by
  cases ps with
  | nil => rfl
  | cons q rest =>
      rw [addToFirst]
      split
      · rw [List.map_cons, List.sum_cons, List.map_cons, List.sum_cons, Nat.add_assoc]
      · rfl

theorem sum_support_fuseNeighbours (ps : List Pattern) :
    ((fuseNeighbours ps).map Pattern.support).sum = (ps.map Pattern.support).sum := by
  induction ps with
  | nil => rfl
  | cons p rest ih =>
      rw [fuseNeighbours, List.foldr_cons, sum_support_addToFirst, List.map_cons, List.sum_cons,
        ← ih, fuseNeighbours]

theorem sum_support_mergePatterns (ps : List Pattern) :
    ((mergePatterns ps).map Pattern.support).sum = (ps.map Pattern.support).sum := by
  rw [((mergePatterns_perm_fuseNeighbours ps).map _).sum_eq, sum_support_fuseNeighbours,
    ((List.mergeSort_perm ps _).map _).sum_eq]

/-! ## Stages -/

/-- What some patterns can have become on the way to being merged. Any list that
is on the way may be merged, and two that are may be put together. -/
inductive MergedInStages : List Pattern → List Pattern → Prop where
  | start (xs : List Pattern) : MergedInStages xs xs
  | merge {xs ps : List Pattern} : MergedInStages xs ps → MergedInStages xs (mergePatterns ps)
  | append {xs ys ps qs : List Pattern} :
      MergedInStages xs ps → MergedInStages ys qs → MergedInStages (xs ++ ys) (ps ++ qs)

theorem MergedInStages.mem_tokens_iff (h : MergedInStages xs ps) (ts : List Token) :
    ts ∈ ps.map Pattern.tokens ↔ ts ∈ xs.map Pattern.tokens := by
  induction h with
  | start xs => exact Iff.rfl
  | merge _ ih => rw [mem_tokens_mergePatterns, ih]
  | append _ _ ihxs ihys =>
      rw [List.map_append, List.map_append, List.mem_append, List.mem_append, ihxs, ihys]

theorem MergedInStages.totalSupport_eq (h : MergedInStages xs ps) (ts : List Token) :
    totalSupport ps ts = totalSupport xs ts := by
  induction h with
  | start xs => rfl
  | merge _ ih => rw [totalSupport_mergePatterns, ih]
  | append _ _ ihxs ihys => rw [totalSupport_append, totalSupport_append, ihxs, ihys]

/-- Stages do not show in the end. -/
theorem MergedInStages.mergePatterns_eq (h : MergedInStages xs ps) :
    mergePatterns ps = mergePatterns xs :=
  mergePatterns_congr h.mem_tokens_iff h.totalSupport_eq

/-- Merging gives each token list once, with its supports added up, in strict
order by support and then by the written tokens. The order and the grouping of
the input do not show, patterns merged beforehand may be merged again with
others or alone, and all supports together stay what they were. -/
theorem mergePatterns_canonical (xs ys : List Pattern) :
    ((mergePatterns xs).map Pattern.tokens).Nodup ∧
      (∀ p, p ∈ mergePatterns xs ↔
        p.tokens ∈ xs.map Pattern.tokens ∧ p.support = totalSupport xs p.tokens) ∧
      (mergePatterns xs).Pairwise (fun p q =>
        q.support < p.support ∨ p.support = q.support ∧ p.rendered < q.rendered) ∧
      (∀ zs, zs.Perm xs → mergePatterns zs = mergePatterns xs) ∧
      mergePatterns (mergePatterns xs ++ ys) = mergePatterns (xs ++ ys) ∧
      (∀ ps, MergedInStages xs ps → mergePatterns ps = mergePatterns xs) ∧
      ((mergePatterns xs).map Pattern.support).sum = (xs.map Pattern.support).sum :=
  ⟨nodup_tokens_mergePatterns xs, fun _ => mem_mergePatterns, pairwise_rendered_mergePatterns xs,
    fun _ => mergePatterns_perm,
    (MergedInStages.append (.merge (.start xs)) (.start ys)).mergePatterns_eq,
    fun _ h => h.mergePatterns_eq, sum_support_mergePatterns xs⟩

theorem mergePatterns_canonical_of_three_parts :
    let edit : List Token := [⟨.removed, "a"⟩, ⟨.added, "b"⟩]
    let other : List Token := [⟨.kept, "a"⟩, ⟨.added, "b"⟩]
    let first : List Pattern := [⟨edit, 2⟩]
    let second : List Pattern := [⟨other, 5⟩, ⟨edit, 1⟩]
    let third : List Pattern := [⟨edit, 2⟩]
    let whole := first ++ (second ++ third)
    let staged := mergePatterns first ++ mergePatterns (second ++ mergePatterns third)
    MergedInStages whole staged ∧ mergePatterns staged = mergePatterns whole ∧
      whole.reverse.Perm whole ∧ mergePatterns whole.reverse = mergePatterns whole ∧
      ⟨edit, 5⟩ ∈ mergePatterns staged := by
  intro edit other first second third whole staged
  obtain ⟨-, hmem, -, hperm, -, hstages, -⟩ := mergePatterns_canonical whole []
  have hstaged : MergedInStages whole staged :=
    .append (.merge (.start _)) (.merge (.append (.start _) (.merge (.start _))))
  have hwhole : ⟨edit, 5⟩ ∈ mergePatterns whole := (hmem _).2 (by decide)
  have heq := hstages staged hstaged
  exact ⟨hstaged, heq, List.reverse_perm _, hperm _ (List.reverse_perm _), heq ▸ hwhole⟩

end EditMining
