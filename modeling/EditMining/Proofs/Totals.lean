import EditMining.Arithmetic
import EditMining.Distinct
import Mathlib.Algebra.BigOperators.Group.List.Basic
import Mathlib.Algebra.Group.Nat.Defs
import Mathlib.Data.List.Induction

/-!
# Totals by key

Amounts are added up under keys. What they come to can be read off any list of
entries, one for each amount (`totalAt`). Adding them up one after the other keeps
these totals and leaves each key once, where it came first (`totalAt_totalsOf`,
`keys_totalsOf`), and that says which entries are there in the end (`mem_totalsOf`).
-/

namespace EditMining

variable {κ : Type} [DecidableEq κ] {entries totals : List (κ × Nat)} {k : κ} {n : Nat}

/-- An amount added to what a key has. A new key comes in behind the others. -/
def addTotal (k : κ) (n : Nat) : List (κ × Nat) → List (κ × Nat)
  | [] => [(k, n)]
  | (k', n') :: rest => if k' = k then (k, n' + n) :: rest else (k', n') :: addTotal k n rest

/-- The amounts of some entries, added up by key. -/
def totalsOf (entries : List (κ × Nat)) : List (κ × Nat) :=
  entries.foldl (fun totals entry => addTotal entry.1 entry.2 totals) []

/-- What the amounts of a key come to. -/
def totalAt (entries : List (κ × Nat)) (k : κ) : Nat :=
  ((entries.filter fun entry => entry.1 = k).map Prod.snd).sum

theorem totalAt_cons (entry : κ × Nat) (entries : List (κ × Nat)) (k : κ) :
    totalAt (entry :: entries) k = (if entry.1 = k then entry.2 else 0) + totalAt entries k := by
  by_cases h : entry.1 = k <;> simp [totalAt, h]

theorem totalAt_append (entries more : List (κ × Nat)) (k : κ) :
    totalAt (entries ++ more) k = totalAt entries k + totalAt more k := by
  simp [totalAt]

theorem totalAt_eq_zero (h : k ∉ entries.map Prod.fst) : totalAt entries k = 0 := by
  have hnil : entries.filter (fun entry => entry.1 = k) = [] := by
    rw [List.filter_eq_nil_iff]
    intro entry hentry hkey
    exact h (List.mem_map.2 ⟨entry, hentry, of_decide_eq_true hkey⟩)
  rw [totalAt, hnil]
  rfl

/-- Where each key is there once, an entry is known by its key. -/
theorem mem_iff_of_nodup_keys (hnodup : (entries.map Prod.fst).Nodup) :
    (k, n) ∈ entries ↔ k ∈ entries.map Prod.fst ∧ n = totalAt entries k := by
  induction entries with
  | nil => simp
  | cons entry rest ih =>
      obtain ⟨k', n'⟩ := entry
      obtain ⟨hfresh, hrest⟩ := List.nodup_cons.1 hnodup
      rw [List.mem_cons, ih hrest, List.map_cons, List.mem_cons, totalAt_cons]
      by_cases hk : k' = k
      · subst hk
        rw [if_pos rfl, totalAt_eq_zero hfresh]
        simp_all
      · rw [if_neg hk, Nat.zero_add]
        simp [Ne.symm hk]

/-! ## Adding up -/

theorem keys_addTotal (k : κ) (n : Nat) (totals : List (κ × Nat)) :
    (addTotal k n totals).map Prod.fst =
      if k ∈ totals.map Prod.fst then totals.map Prod.fst else totals.map Prod.fst ++ [k] := by
  induction totals with
  | nil => rfl
  | cons entry rest ih =>
      obtain ⟨k', n'⟩ := entry
      rw [addTotal]
      by_cases hk : k' = k
      · simp [hk]
      · rw [if_neg hk, List.map_cons, ih]
        have hcons : k ∈ ((k', n') :: rest).map Prod.fst ↔ k ∈ rest.map Prod.fst := by
          rw [List.map_cons, List.mem_cons]
          exact or_iff_right (Ne.symm hk)
        by_cases hmem : k ∈ rest.map Prod.fst
        · rw [if_pos hmem, if_pos (hcons.2 hmem), List.map_cons]
        · rw [if_neg hmem, if_neg (mt hcons.1 hmem), List.map_cons, List.cons_append]

theorem totalAt_addTotal (k : κ) (n : Nat) (totals : List (κ × Nat)) (k' : κ) :
    totalAt (addTotal k n totals) k' = totalAt totals k' + if k = k' then n else 0 := by
  induction totals with
  | nil => rw [addTotal, totalAt_cons, Nat.add_comm]
  | cons entry rest ih =>
      obtain ⟨k₀, n₀⟩ := entry
      rw [addTotal, totalAt_cons]
      by_cases hk : k₀ = k
      · subst hk
        rw [if_pos rfl, totalAt_cons]
        split <;> omega
      · rw [if_neg hk, totalAt_cons, ih]
        omega

theorem totalsOf_concat (entries : List (κ × Nat)) (entry : κ × Nat) :
    totalsOf (entries ++ [entry]) = addTotal entry.1 entry.2 (totalsOf entries) := by
  rw [totalsOf, List.foldl_concat, totalsOf]

theorem keys_totalsOf (entries : List (κ × Nat)) :
    (totalsOf entries).map Prod.fst = distinct (entries.map Prod.fst) := by
  induction entries using List.reverseRecOn with
  | nil => rfl
  | append_singleton entries entry ih =>
      rw [totalsOf_concat, keys_addTotal, ih, List.map_append, List.map_singleton,
        distinct_concat]
      by_cases hk : entry.1 ∈ entries.map Prod.fst
      · rw [if_pos hk, if_pos (mem_distinct.2 hk)]
      · rw [if_neg hk, if_neg (mt mem_distinct.1 hk)]

theorem nodup_keys_totalsOf (entries : List (κ × Nat)) :
    ((totalsOf entries).map Prod.fst).Nodup := by
  rw [keys_totalsOf]
  exact nodup_distinct _

theorem totalAt_totalsOf (entries : List (κ × Nat)) (k : κ) :
    totalAt (totalsOf entries) k = totalAt entries k := by
  induction entries using List.reverseRecOn with
  | nil => rfl
  | append_singleton entries entry ih =>
      rw [totalsOf_concat, totalAt_addTotal, ih, totalAt_append, totalAt_cons]
      rfl

/-- Each key is there with all of its amounts. -/
theorem mem_totalsOf :
    (k, n) ∈ totalsOf entries ↔ k ∈ entries.map Prod.fst ∧ n = totalAt entries k := by
  rw [mem_iff_of_nodup_keys (nodup_keys_totalsOf entries), keys_totalsOf, mem_distinct,
    totalAt_totalsOf]

end EditMining
