import EditMining.Error
import Mathlib.Control.Monad.Basic
import Mathlib.Data.Set.List

/-!
# Lists that are gone through until something fails

A step that may fail is taken for each element of a list, in order, and the first
failure ends it. So the traversal succeeds if every step does (`mapM_cons_ok`), and it
fails exactly if some step fails behind steps that do not, and with that step's failure
(`mapM_eq_error_iff`).
-/

namespace EditMining

variable {α β γ : Type} {f : α → Result β} {x : α} {xs rest : List α} {ys : List β} {e : Error}

/-! ## One step behind another -/

theorem exists_of_bind_eq_ok {ε : Type} {x : Except ε α} {f : α → Except ε β} {b : β}
    (h : x >>= f = .ok b) : ∃ a, x = .ok a ∧ f a = .ok b := by
  cases x with
  | ok a => exact ⟨a, rfl, h⟩
  | error e => nomatch h

theorem eq_error_or_of_bind_eq_error {ε : Type} {x : Except ε α} {f : α → Except ε β} {e : ε}
    (h : x >>= f = .error e) : x = .error e ∨ ∃ a, x = .ok a ∧ f a = .error e := by
  cases x with
  | ok a => exact .inr ⟨a, rfl, h⟩
  | error e' => exact .inl (congrArg Except.error (Except.error.inj h))

/-! ## Traversals that succeed -/

theorem mapM_cons_ok (h : (x :: rest).mapM f = .ok ys) :
    ∃ y more, f x = .ok y ∧ rest.mapM f = .ok more ∧ ys = y :: more := by
  rw [List.mapM_cons] at h
  cases hx : f x with
  | error e =>
      rw [hx] at h
      nomatch h
  | ok y =>
      rw [hx] at h
      cases hrest : rest.mapM f with
      | error e =>
          rw [hrest] at h
          nomatch h
      | ok more =>
          rw [hrest] at h
          cases h
          exact ⟨y, more, rfl, rfl, rfl⟩

/-- Steps of which none fails. -/
theorem mapM_eq_ok {g : α → β} (h : ∀ x ∈ xs, f x = .ok (g x)) :
    xs.mapM f = .ok (xs.map g) := by
  induction xs with
  | nil => rfl
  | cons x rest ih =>
      obtain ⟨hx, hrest⟩ := List.forall_mem_cons.1 h
      rw [List.mapM_cons, hx, ih hrest]
      rfl

theorem mapM_map (f : α → Result β) (g : β → γ) (xs : List α) :
    (xs.mapM fun x => (f x).map g) = (xs.mapM f).map (List.map g) := by
  induction xs with
  | nil => rfl
  | cons x rest ih =>
      rw [List.mapM_cons, List.mapM_cons, ih]
      cases f x with
      | error e => rfl
      | ok y => cases rest.mapM f <;> rfl

theorem length_of_mapM_ok (h : xs.mapM f = .ok ys) : xs.length = ys.length := by
  induction xs generalizing ys with
  | nil =>
      cases h
      rfl
  | cons x rest ih =>
      obtain ⟨y, more, -, hrest, rfl⟩ := mapM_cons_ok h
      rw [List.length_cons, List.length_cons, ih hrest]

/-- What is read item by item is what was written item by item. -/
theorem map_eq_map_of_mapM_ok (look : α → γ) (write : β → γ)
    (hread : ∀ x y, f x = .ok y → look x = write y) (h : xs.mapM f = .ok ys) :
    xs.map look = ys.map write := by
  induction xs generalizing ys with
  | nil =>
      cases h
      rfl
  | cons x rest ih =>
      obtain ⟨y, more, hx, hrest, rfl⟩ := mapM_cons_ok h
      rw [List.map_cons, List.map_cons, hread x y hx, ih hrest]

theorem forall_mem_exists_iff {write : β → γ} {vs : List γ} :
    (∀ v ∈ vs, ∃ y, write y = v) ↔ ∃ ys, List.map write ys = vs :=
  (Set.ext_iff.1 (Set.range_list_map write) vs).symm

/-! ## Traversals that fail -/

theorem mapM_cons_of_error (hx : f x = .error e) : (x :: rest).mapM f = .error e := by
  rw [List.mapM_cons, hx]
  rfl

theorem mapM_cons_eq_error_iff {y : β} (hx : f x = .ok y) :
    (x :: rest).mapM f = .error e ↔ rest.mapM f = .error e := by
  rw [List.mapM_cons, hx]
  cases rest.mapM f with
  | ok more => exact ⟨nofun, nofun⟩
  | error e' => exact Iff.rfl

/-- The first failure is the one that counts. -/
theorem mapM_eq_error_iff :
    xs.mapM f = .error e ↔
      ∃ front x back, xs = front ++ x :: back ∧ (∀ y ∈ front, ∃ b, f y = .ok b) ∧
        f x = .error e := by
  constructor
  · intro h
    induction xs with
    | nil => nomatch h
    | cons x rest ih =>
        cases hx : f x with
        | error e' =>
            cases (mapM_cons_of_error hx).symm.trans h
            exact ⟨[], x, rest, rfl, nofun, hx⟩
        | ok b =>
            obtain ⟨front, y, back, rfl, hfront, hy⟩ := ih ((mapM_cons_eq_error_iff hx).1 h)
            exact ⟨x :: front, y, back, rfl, List.forall_mem_cons.2 ⟨⟨b, hx⟩, hfront⟩, hy⟩
  · rintro ⟨front, x, back, rfl, hfront, hx⟩
    induction front with
    | nil => exact mapM_cons_of_error hx
    | cons y front ih =>
        obtain ⟨⟨b, hb⟩, hfront⟩ := List.forall_mem_cons.1 hfront
        exact (mapM_cons_eq_error_iff hb).2 (ih hfront)

end EditMining
