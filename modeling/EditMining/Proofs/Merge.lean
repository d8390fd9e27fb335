import EditMining.Proofs.Order
import EditMining.Proofs.Totals
import Mathlib.Data.List.Nodup

/-!
# Merging is summing

What merging does to patterns is said by two views of a list of patterns:
which token lists are in it, and how much support each of them has in total
(`totalSupport`). Sorting by tokens brings equal token lists together, fusing
neighbours adds them up, and neither changes a view; what it buys is that
each token list is there only once. A merged list is therefore known element
by element (`mem_mergePatterns`), and since it is strictly sorted it is the
same for any two inputs with the same views (`mergePatterns_congr`).

Supports can as well be added up as the patterns come, with each new token list put
behind the others, and be sorted once at the end (`mergeSort_summedPatterns`).
-/

namespace EditMining

open Std

/-- A pattern as an amount, its support, under a key, its tokens. -/
def Pattern.entry (p : Pattern) : List Token × Nat :=
  (p.tokens, p.support)

theorem Pattern.entry_injective : Function.Injective Pattern.entry := by
  intro p q h
  cases p
  cases q
  cases h
  rfl

theorem map_fst_entry (ps : List Pattern) :
    (ps.map Pattern.entry).map Prod.fst = ps.map Pattern.tokens :=
  List.map_map

/-- The supports that some tokens have in a list of patterns, added up. -/
def totalSupport (ps : List Pattern) (ts : List Token) : Nat :=
  ((ps.filter fun p => p.tokens = ts).map Pattern.support).sum

variable {ps qs : List Pattern} {ts : List Token}

/-! ## Total support -/

theorem totalSupport_cons (p : Pattern) (ps : List Pattern) (ts : List Token) :
    totalSupport (p :: ps) ts = (if p.tokens = ts then p.support else 0) + totalSupport ps ts := by
  rw [totalSupport, totalSupport]
  by_cases h : p.tokens = ts <;> simp [h]

theorem totalSupport_append (ps qs : List Pattern) (ts : List Token) :
    totalSupport (ps ++ qs) ts = totalSupport ps ts + totalSupport qs ts := by
  simp [totalSupport]

theorem totalSupport_flatMap {α : Type} (f : α → List Pattern) (xs : List α) (ts : List Token) :
    totalSupport (xs.flatMap f) ts = (xs.map fun x => totalSupport (f x) ts).sum := by
  induction xs with
  | nil => rfl
  | cons x rest ih =>
      rw [List.flatMap_cons, totalSupport_append, ih, List.map_cons, List.sum_cons]

theorem totalSupport_perm (h : ps.Perm qs) (ts : List Token) :
    totalSupport ps ts = totalSupport qs ts :=
  ((h.filter _).map _).sum_eq

theorem totalSupport_eq_totalAt (ps : List Pattern) (ts : List Token) :
    totalSupport ps ts = totalAt (ps.map Pattern.entry) ts := by
  rw [totalSupport, totalAt, List.filter_map, List.map_map]
  rfl

theorem totalSupport_eq_zero (h : ts ∉ ps.map Pattern.tokens) : totalSupport ps ts = 0 := by
  rw [totalSupport_eq_totalAt]
  refine totalAt_eq_zero ?_
  rwa [map_fst_entry]

theorem mem_iff_of_nodup_tokens (hnodup : (ps.map Pattern.tokens).Nodup) {p : Pattern} :
    p ∈ ps ↔ p.tokens ∈ ps.map Pattern.tokens ∧ p.support = totalSupport ps p.tokens := by
  rw [← List.mem_map_of_injective Pattern.entry_injective, Pattern.entry, mem_iff_of_nodup_keys,
    map_fst_entry, totalSupport_eq_totalAt]
  rwa [map_fst_entry]

theorem totalSupport_of_mem (hnodup : (ps.map Pattern.tokens).Nodup) {p : Pattern} (hp : p ∈ ps) :
    totalSupport ps p.tokens = p.support :=
  ((mem_iff_of_nodup_tokens hnodup).1 hp).2.symm

/-! ## Fusing neighbours -/

theorem totalSupport_addToFirst (p : Pattern) (ps : List Pattern) (ts : List Token) :
    totalSupport (addToFirst p ps) ts = totalSupport (p :: ps) ts := by
  cases ps with
  | nil => rfl
  | cons q rest =>
      rw [addToFirst]
      split
      · next h =>
          rw [totalSupport_cons, totalSupport_cons, totalSupport_cons, ← h]
          by_cases hts : p.tokens = ts
          · rw [if_pos hts, if_pos hts, if_pos hts, Nat.add_assoc]
          · rw [if_neg hts, if_neg hts, if_neg hts, Nat.zero_add, Nat.zero_add]
      · rfl

theorem mem_tokens_addToFirst (p : Pattern) (ps : List Pattern) (ts : List Token) :
    ts ∈ (addToFirst p ps).map Pattern.tokens ↔ ts ∈ (p :: ps).map Pattern.tokens := by
  cases ps with
  | nil => rfl
  | cons q rest =>
      rw [addToFirst]
      split
      · next h => simp [h]
      · rfl

theorem totalSupport_fuseNeighbours (ps : List Pattern) (ts : List Token) :
    totalSupport (fuseNeighbours ps) ts = totalSupport ps ts := by
  induction ps with
  | nil => rfl
  | cons p rest ih =>
      rw [fuseNeighbours, List.foldr_cons, totalSupport_addToFirst, totalSupport_cons,
        totalSupport_cons, ← ih, fuseNeighbours]

theorem mem_tokens_fuseNeighbours (ps : List Pattern) (ts : List Token) :
    ts ∈ (fuseNeighbours ps).map Pattern.tokens ↔ ts ∈ ps.map Pattern.tokens := by
  induction ps with
  | nil => rfl
  | cons p rest ih =>
      rw [fuseNeighbours, List.foldr_cons, mem_tokens_addToFirst, List.map_cons, List.mem_cons,
        List.map_cons, List.mem_cons, ← ih, fuseNeighbours]

theorem pairwise_addToFirst {p : Pattern} (hle : ∀ q ∈ ps, (compare p.tokens q.tokens).isLE = true)
    (hps : ps.Pairwise fun p q => compare p.tokens q.tokens = .lt) :
    (addToFirst p ps).Pairwise fun p q => compare p.tokens q.tokens = .lt := by
  cases ps with
  | nil => exact List.pairwise_singleton _ p
  | cons q rest =>
      obtain ⟨hq, hrest⟩ := List.pairwise_cons.1 hps
      rw [addToFirst]
      split
      · next h =>
          refine List.pairwise_cons.2 ⟨fun r hr => ?_, hrest⟩
          show compare p.tokens r.tokens = .lt
          rw [h]
          exact hq r hr
      · next h =>
          refine List.pairwise_cons.2 ⟨fun r hr => ?_, hps⟩
          have hpq : compare p.tokens q.tokens = .lt := by
            rcases Ordering.isLE_iff_eq_lt_or_eq_eq.1 (hle q List.mem_cons_self) with hlt | heq
            · exact hlt
            · exact absurd (LawfulEqOrd.eq_of_compare heq) h
          rcases List.mem_cons.1 hr with rfl | hr
          · exact hpq
          · exact TransCmp.lt_trans hpq (hq r hr)

/-- Where equal token lists are neighbours, fusing leaves each of them once. -/
theorem pairwise_fuseNeighbours
    (h : ps.Pairwise fun p q => (compare p.tokens q.tokens).isLE = true) :
    (fuseNeighbours ps).Pairwise fun p q => compare p.tokens q.tokens = .lt := by
  induction ps with
  | nil => exact List.Pairwise.nil
  | cons p rest ih =>
      obtain ⟨hp, hrest⟩ := List.pairwise_cons.1 h
      rw [fuseNeighbours, List.foldr_cons]
      refine pairwise_addToFirst (fun q hq => ?_) (ih hrest)
      obtain ⟨r, hr, hrq⟩ :=
        List.mem_map.1 ((mem_tokens_fuseNeighbours rest q.tokens).1 (List.mem_map_of_mem hq))
      rw [← hrq]
      exact hp r hr

/-! ## Merged lists -/

theorem mergePatterns_perm_fuseNeighbours (ps : List Pattern) :
    (mergePatterns ps).Perm (fuseNeighbours (ps.mergeSort Pattern.tokensLe)) :=
  List.mergeSort_perm _ _

theorem nodup_tokens_fuse_mergeSort (ps : List Pattern) :
    ((fuseNeighbours (ps.mergeSort Pattern.tokensLe)).map Pattern.tokens).Nodup := by
  have hsorted := @pairwise_mergeSort_isLE _ (compareOn Pattern.tokens) _ ps
  refine List.pairwise_map.2 ((pairwise_fuseNeighbours hsorted).imp ?_)
  intro p q hlt heq
  rw [heq] at hlt
  exact OrientedCmp.not_lt_of_lt hlt hlt

theorem nodup_tokens_mergePatterns (ps : List Pattern) :
    ((mergePatterns ps).map Pattern.tokens).Nodup :=
  ((mergePatterns_perm_fuseNeighbours ps).map _).nodup_iff.2 (nodup_tokens_fuse_mergeSort ps)

theorem mem_tokens_mergePatterns :
    ts ∈ (mergePatterns ps).map Pattern.tokens ↔ ts ∈ ps.map Pattern.tokens := by
  rw [((mergePatterns_perm_fuseNeighbours ps).map _).mem_iff, mem_tokens_fuseNeighbours,
    ((List.mergeSort_perm ps _).map _).mem_iff]

theorem totalSupport_mergePatterns (ps : List Pattern) (ts : List Token) :
    totalSupport (mergePatterns ps) ts = totalSupport ps ts := by
  rw [totalSupport_perm (mergePatterns_perm_fuseNeighbours ps), totalSupport_fuseNeighbours,
    totalSupport_perm (List.mergeSort_perm ps _)]

/-- Merging keeps every token list, with its supports added up. -/
theorem mem_mergePatterns {p : Pattern} :
    p ∈ mergePatterns ps ↔
      p.tokens ∈ ps.map Pattern.tokens ∧ p.support = totalSupport ps p.tokens := by
  rw [mem_iff_of_nodup_tokens (nodup_tokens_mergePatterns ps), mem_tokens_mergePatterns,
    totalSupport_mergePatterns]

theorem pairwise_mergePatterns (ps : List Pattern) :
    (mergePatterns ps).Pairwise fun p q => p.supportOrder q = .lt :=
  pairwise_mergeSort_lt (nodup_tokens_fuse_mergeSort ps).of_map

/-- A merged list depends on nothing but the token lists and their totals. -/
theorem mergePatterns_congr
    (htokens : ∀ ts, ts ∈ ps.map Pattern.tokens ↔ ts ∈ qs.map Pattern.tokens)
    (htotal : ∀ ts, totalSupport ps ts = totalSupport qs ts) :
    mergePatterns ps = mergePatterns qs := by
  refine eq_of_mem_iff_of_pairwise_lt Pattern.supportOrder (fun p => ?_)
    (pairwise_mergePatterns ps) (pairwise_mergePatterns qs)
  rw [mem_mergePatterns, mem_mergePatterns, htokens, htotal]

theorem mergePatterns_perm (h : ps.Perm qs) : mergePatterns ps = mergePatterns qs :=
  mergePatterns_congr (fun _ => (h.map _).mem_iff) fun ts => totalSupport_perm h ts

/-! ## Counting first and sorting once -/

/-- The patterns of the totals, each token list where it came first. -/
def summedPatterns (ps : List Pattern) : List Pattern :=
  (totalsOf (ps.map Pattern.entry)).map fun total => ⟨total.1, total.2⟩

theorem map_entry_summedPatterns (ps : List Pattern) :
    (summedPatterns ps).map Pattern.entry = totalsOf (ps.map Pattern.entry) := by
  rw [summedPatterns, List.map_map]
  exact List.map_id _

theorem map_tokens_summedPatterns (ps : List Pattern) :
    (summedPatterns ps).map Pattern.tokens = distinct (ps.map Pattern.tokens) := by
  rw [← map_fst_entry, map_entry_summedPatterns, keys_totalsOf, map_fst_entry]

theorem totalSupport_summedPatterns (ps : List Pattern) (ts : List Token) :
    totalSupport (summedPatterns ps) ts = totalSupport ps ts := by
  rw [totalSupport_eq_totalAt, map_entry_summedPatterns, totalAt_totalsOf,
    totalSupport_eq_totalAt]

/-- Adding up the supports of the patterns as they come, and sorting once at the end,
gives the merged list. -/
theorem mergeSort_summedPatterns (ps : List Pattern) :
    (summedPatterns ps).mergeSort Pattern.supportLe = mergePatterns ps := by
  have hnodup : ((summedPatterns ps).map Pattern.tokens).Nodup := by
    rw [map_tokens_summedPatterns]
    exact nodup_distinct _
  refine eq_of_mem_iff_of_pairwise_lt Pattern.supportOrder (fun p => ?_)
    (pairwise_mergeSort_lt hnodup.of_map) (pairwise_mergePatterns ps)
  rw [mem_mergePatterns, List.mem_mergeSort, mem_iff_of_nodup_tokens hnodup,
    map_tokens_summedPatterns, mem_distinct, totalSupport_summedPatterns]

end EditMining
