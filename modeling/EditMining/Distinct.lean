/-!
# Each element once

Repetitions in a list are dropped; the first occurrence of each element stays,
and these keep their order.
-/

namespace EditMining

variable {α : Type} [DecidableEq α]

/-- The elements of a list, each once, in the order of their first
occurrences. -/
def distinct : List α → List α
  | [] => []
  | x :: rest => x :: (distinct rest).filter fun y => y ≠ x

@[simp] theorem mem_distinct {x : α} {xs : List α} : x ∈ distinct xs ↔ x ∈ xs := by
  induction xs with
  | nil => simp [distinct]
  | cons y rest ih =>
      by_cases h : x = y
      · simp [distinct, h]
      · simp [distinct, h, ih]

theorem nodup_distinct (xs : List α) : (distinct xs).Nodup := by
  induction xs with
  | nil => exact List.nodup_nil
  | cons y rest ih =>
      rw [distinct, List.nodup_cons]
      exact ⟨by simp, ih.filter _⟩

/-- An element that comes last stays there, unless it was there before. -/
theorem distinct_concat (xs : List α) (x : α) :
    distinct (xs ++ [x]) = if x ∈ xs then distinct xs else distinct xs ++ [x] := by
  induction xs with
  | nil => simp [distinct]
  | cons y rest ih =>
      rw [List.cons_append, distinct, ih, distinct]
      by_cases hx : x = y
      · subst hx
        split <;> simp
      · split <;> simp [*]

/-- Where each key is there once, an element is found by its key. -/
theorem find?_key_eq_some_iff {β : Type} (key : β → α) {xs : List β} (h : (xs.map key).Nodup)
    {k : α} {x : β} : (xs.find? fun y => key y = k) = some x ↔ x ∈ xs ∧ key x = k := by
  induction xs with
  | nil => simp
  | cons y rest ih =>
      obtain ⟨hfresh, hrest⟩ := List.nodup_cons.1 h
      rw [List.find?_cons, List.mem_cons]
      by_cases hy : key y = k
      · rw [decide_eq_true hy]
        constructor
        · rintro ⟨⟩
          exact ⟨.inl rfl, hy⟩
        · rintro ⟨rfl | hx, hkey⟩
          · rfl
          · exact absurd (List.mem_map.2 ⟨x, hx, hkey.trans hy.symm⟩) hfresh
      · rw [decide_eq_false hy]
        refine (ih hrest).trans (and_congr_left fun hkey => (or_iff_right ?_).symm)
        rintro rfl
        exact hy hkey

end EditMining
