import EditMining.Distinct
import EditMining.Proofs.Placeholders
import Mathlib.Data.List.Induction
import Mathlib.Data.List.Nodup

/-!
# The numbering of values

Placeholders are given out for any values of any kinds, in any order, and a value that
comes again gets what it got. What the assignments are like behind some calls is a question
about all of them, and the answer is one list for each kind: its values, each once, in the
order of their first calls, numbered from one on (`numbering_assignAll`). The calls for
other kinds do not show in it.

Everything else is read off these lists. A value is found if it is in the list of its
kind, and its number is its place (`find?_assignAll_eq_some_iff`); so no number is left
out, and no two values have one placeholder. Nor do two placeholders have one text, since
a text tells its kind by its first letter and its number by its digits
(`Placeholder.render_inj`).

How many values of a kind there are is counted anew at each call. Counting along, with a
number kept for each kind, gives the same (`Counted.assignAll_count`).
-/

namespace EditMining

namespace Assignments

variable {m : Assignments} {kind kind' : PlaceholderKind} {value value' : String}
  {p : Placeholder}

/-! ## What has a placeholder -/

/-- The values that have a placeholder, with their kinds. -/
def keys (m : Assignments) : List (PlaceholderKind × String) :=
  m.entries.map fun a => (a.placeholder.kind, a.value)

/-- The values of one kind, with their numbers. -/
def numbering (m : Assignments) (kind : PlaceholderKind) : List (String × Nat) :=
  (m.entries.filter fun a => a.placeholder.kind = kind).map fun a =>
    (a.value, a.placeholder.index)

theorem length_numbering (m : Assignments) (kind : PlaceholderKind) :
    (m.numbering kind).length = m.count kind := by
  rw [numbering, List.length_map, count, List.countP_eq_length_filter]

theorem find?_eq_none_iff : m.find? kind value = none ↔ (kind, value) ∉ m.keys := by
  rw [find?, Option.map_eq_none_iff, List.find?_eq_none, keys, List.mem_map, not_exists]
  refine forall_congr' fun a => ?_
  rw [not_and, decide_eq_true_iff, Prod.mk.injEq]

theorem isSome_find?_iff : (m.find? kind value).isSome = true ↔ (kind, value) ∈ m.keys := by
  rw [Option.isSome_iff_ne_none, Ne, find?_eq_none_iff, Decidable.not_not]

/-- Where no value is there twice, what is found for a value is its number. -/
theorem find?_eq_some_iff (h : m.keys.Nodup) :
    m.find? kind value = some p ↔ p.kind = kind ∧ (value, p.index) ∈ m.numbering kind := by
  have hfind : ∀ a,
      (m.entries.find? fun a => a.placeholder.kind = kind ∧ a.value = value) = some a ↔
        a ∈ m.entries ∧ a.placeholder.kind = kind ∧ a.value = value := by
    intro a
    have hkey := find?_key_eq_some_iff (fun a : Assignment => (a.placeholder.kind, a.value)) h
      (k := (kind, value)) (x := a)
    simpa only [Prod.mk.injEq] using hkey
  simp only [find?, Option.map_eq_some_iff, hfind, numbering, List.mem_map, List.mem_filter,
    decide_eq_true_iff, Prod.mk.injEq]
  constructor
  · rintro ⟨a, ⟨ha, hkind, hvalue⟩, rfl⟩
    exact ⟨hkind, a, ⟨ha, hkind⟩, hvalue, rfl⟩
  · intro hnumbered
    obtain ⟨hkind, a, ⟨ha, hkind'⟩, hvalue, hindex⟩ := hnumbered
    exact ⟨a, ⟨ha, hkind', hvalue⟩, Placeholder.eq_of_fields (hkind'.trans hkind.symm) hindex⟩

/-! ## One call -/

theorem entries_assign (m : Assignments) (kind : PlaceholderKind) (value : String) :
    (m.assign kind value).1.entries =
      if (kind, value) ∈ m.keys then m.entries
      else m.entries ++ [⟨value, ⟨kind, m.count kind + 1⟩⟩] := by
  rw [assign]
  cases hfind : m.find? kind value with
  | none => rw [if_neg (find?_eq_none_iff.1 hfind)]
  | some p => rw [if_pos (isSome_find?_iff.1 (Option.isSome_of_eq_some hfind))]

theorem keys_assign (m : Assignments) (kind : PlaceholderKind) (value : String) :
    (m.assign kind value).1.keys =
      if (kind, value) ∈ m.keys then m.keys else m.keys ++ [(kind, value)] := by
  rw [keys, entries_assign]
  split
  · rfl
  · exact List.map_append

theorem numbering_assign_of_mem (h : (kind, value) ∈ m.keys) (kind' : PlaceholderKind) :
    (m.assign kind value).1.numbering kind' = m.numbering kind' := by
  rw [numbering, entries_assign, if_pos h, numbering]

/-- A new value gets the next number of its kind, and no other list changes. -/
theorem numbering_assign_of_notMem (h : (kind, value) ∉ m.keys) (kind' : PlaceholderKind) :
    (m.assign kind value).1.numbering kind' =
      m.numbering kind' ++ if kind = kind' then [(value, m.count kind + 1)] else [] := by
  rw [numbering, entries_assign, if_neg h, List.filter_append, List.map_append,
    List.filter_singleton, numbering]
  by_cases hkind : kind = kind' <;> simp [hkind]

theorem find?_assign_of_find? (h : m.find? kind value = some p) (kind' : PlaceholderKind)
    (value' : String) : (m.assign kind' value').1.find? kind value = some p := by
  rw [find?_assign]
  split
  · next heq =>
      rw [assign_snd, heq.1, heq.2, h]
      rfl
  · exact h

theorem assign_of_find? (h : m.find? kind value = some p) : m.assign kind value = (m, p) := by
  rw [assign, h]

theorem find?_assign_self (m : Assignments) (kind : PlaceholderKind) (value : String) :
    (m.assign kind value).1.find? kind value = some (m.assign kind value).2 := by
  rw [find?_assign, if_pos ⟨rfl, rfl⟩]

/-! ## Any calls -/

/-- Placeholders for some values, each of some kind, one after the other. -/
def assignAll (m : Assignments) (calls : List (PlaceholderKind × String)) : Assignments :=
  calls.foldl (fun m call => (m.assign call.1 call.2).1) m

/-- The values of a kind among some calls. -/
def valuesOf (kind : PlaceholderKind) (calls : List (PlaceholderKind × String)) : List String :=
  (calls.filter fun call => call.1 = kind).map Prod.snd

variable {calls : List (PlaceholderKind × String)}

theorem assignAll_concat (m : Assignments) (calls : List (PlaceholderKind × String))
    (call : PlaceholderKind × String) :
    m.assignAll (calls ++ [call]) = ((m.assignAll calls).assign call.1 call.2).1 :=
  List.foldl_append

/-- A value keeps its placeholder. -/
theorem find?_assignAll (h : m.find? kind value = some p)
    (more : List (PlaceholderKind × String)) : (m.assignAll more).find? kind value = some p := by
  induction more using List.reverseRecOn with
  | nil => exact h
  | append_singleton more call ih =>
      rw [assignAll_concat]
      exact find?_assign_of_find? ih call.1 call.2

theorem mem_valuesOf : value ∈ valuesOf kind calls ↔ (kind, value) ∈ calls := by
  simp [valuesOf]

theorem valuesOf_concat (calls : List (PlaceholderKind × String)) (kind' : PlaceholderKind)
    (value : String) :
    valuesOf kind (calls ++ [(kind', value)]) =
      valuesOf kind calls ++ if kind' = kind then [value] else [] := by
  rw [valuesOf, List.filter_append, List.map_append, List.filter_singleton]
  by_cases h : kind' = kind <;> simp [h, valuesOf]

theorem keys_assignAll (calls : List (PlaceholderKind × String)) :
    (empty.assignAll calls).keys = distinct calls := by
  induction calls using List.reverseRecOn with
  | nil => rfl
  | append_singleton calls call ih =>
      rw [assignAll_concat, keys_assign, ih, distinct_concat]
      by_cases hmem : call ∈ calls
      · rw [if_pos (mem_distinct.2 hmem), if_pos hmem]
      · rw [if_neg fun h => hmem (mem_distinct.1 h), if_neg hmem]

theorem numbering_assignAll (kind : PlaceholderKind) (calls : List (PlaceholderKind × String)) :
    (empty.assignAll calls).numbering kind = (distinct (valuesOf kind calls)).zipIdx 1 := by
  induction calls using List.reverseRecOn with
  | nil => rfl
  | append_singleton calls call ih =>
      obtain ⟨kind', value⟩ := call
      rw [assignAll_concat, valuesOf_concat]
      -- A value that comes again is new on neither side.
      by_cases hmem : (kind', value) ∈ calls
      · rw [numbering_assign_of_mem (by rwa [keys_assignAll, mem_distinct]), ih]
        split
        · next heq => rw [distinct_concat, if_pos (mem_valuesOf.2 (heq ▸ hmem))]
        · rw [List.append_nil]
      · rw [numbering_assign_of_notMem (by rwa [keys_assignAll, mem_distinct]), ih]
        split
        · next heq =>
            subst heq
            rw [distinct_concat, if_neg fun h => hmem (mem_valuesOf.1 h), List.zipIdx_append,
              ← length_numbering, ih, List.length_zipIdx, Nat.add_comm]
            rfl
        · rw [List.append_nil, List.append_nil]

theorem find?_assignAll_eq_some_iff :
    (empty.assignAll calls).find? kind value = some p ↔
      p.kind = kind ∧ ∃ i, p.index = i + 1 ∧ (distinct (valuesOf kind calls))[i]? = some value := by
  have hnodup : (empty.assignAll calls).keys.Nodup := by
    rw [keys_assignAll]
    exact nodup_distinct calls
  rw [find?_eq_some_iff hnodup, numbering_assignAll, List.mk_mem_zipIdx_iff_le_and_getElem?_sub]
  refine and_congr_right fun _ => ⟨fun hplace => ?_, fun hplace => ?_⟩
  · exact ⟨p.index - 1, (Nat.sub_add_cancel hplace.1).symm, hplace.2⟩
  · obtain ⟨i, hindex, hvalue⟩ := hplace
    rw [hindex]
    exact ⟨Nat.le_add_left 1 i, hvalue⟩

/-- Different values, or values of different kinds, have different placeholders. -/
theorem find?_assignAll_inj (h : (empty.assignAll calls).find? kind value = some p)
    (h' : (empty.assignAll calls).find? kind' value' = some p) :
    (kind, value) = (kind', value') := by
  obtain ⟨rfl, i, hindex, hvalue⟩ := find?_assignAll_eq_some_iff.1 h
  obtain ⟨rfl, j, hindex', hvalue'⟩ := find?_assignAll_eq_some_iff.1 h'
  obtain rfl : i = j := Nat.succ.inj (hindex.symm.trans hindex')
  rw [hvalue] at hvalue'
  rw [Option.some.inj hvalue']

theorem count_assignAll (kind : PlaceholderKind) (calls : List (PlaceholderKind × String)) :
    (empty.assignAll calls).count kind = (distinct (valuesOf kind calls)).length := by
  rw [← length_numbering, numbering_assignAll, List.length_zipIdx]

theorem size_assignAll (calls : List (PlaceholderKind × String)) :
    (empty.assignAll calls).size = (distinct calls).length := by
  rw [← keys_assignAll, keys, List.length_map, size]

theorem index_le_size (h : (empty.assignAll calls).find? kind value = some p) :
    p.index ≤ (empty.assignAll calls).size := by
  obtain ⟨-, i, hindex, hvalue⟩ := find?_assignAll_eq_some_iff.1 h
  have hlt : i < (empty.assignAll calls).count kind := by
    rw [count_assignAll]
    exact (List.getElem?_eq_some_iff.1 hvalue).1
  have hcount : (empty.assignAll calls).count kind ≤ (empty.assignAll calls).size :=
    List.countP_le_length
  omega

/-! ## Counting along -/

/-- Assignments, with the number that each kind has come to. -/
structure Counted where
  assignments : Assignments
  reached : PlaceholderKind → Nat

namespace Counted

def empty : Counted :=
  ⟨.empty, fun _ => 0⟩

/-- The placeholder of a value. If it has none, its kind goes on to the next number. -/
def assign (c : Counted) (kind : PlaceholderKind) (value : String) : Counted × Placeholder :=
  match c.assignments.find? kind value with
  | some p => (c, p)
  | none =>
      let number := c.reached kind + 1
      let p : Placeholder := ⟨kind, number⟩
      let reached := fun other => if kind = other then number else c.reached other
      (⟨⟨c.assignments.entries ++ [⟨value, p⟩]⟩, reached⟩, p)

def assignAll (c : Counted) (calls : List (PlaceholderKind × String)) : Counted :=
  calls.foldl (fun c call => (c.assign call.1 call.2).1) c

theorem assign_count (m : Assignments) (kind : PlaceholderKind) (value : String) :
    assign ⟨m, m.count⟩ kind value =
      (⟨(m.assign kind value).1, (m.assign kind value).1.count⟩, (m.assign kind value).2) := by
  rw [assign, Assignments.assign]
  cases hfind : m.find? kind value with
  | some p => rfl
  | none =>
      have hreached : (fun other => if kind = other then m.count kind + 1 else m.count other) =
          count ⟨m.entries ++ [⟨value, ⟨kind, m.count kind + 1⟩⟩]⟩ := by
        funext other
        by_cases h : kind = other <;> simp [count, h]
      dsimp only
      rw [hreached]

theorem assignAll_count (calls : List (PlaceholderKind × String)) :
    empty.assignAll calls =
      ⟨Assignments.empty.assignAll calls, (Assignments.empty.assignAll calls).count⟩ := by
  induction calls using List.reverseRecOn with
  | nil => rfl
  | append_singleton calls call ih =>
      have hlast : empty.assignAll (calls ++ [call]) =
          ((empty.assignAll calls).assign call.1 call.2).1 :=
        List.foldl_append
      rw [hlast, ih, assign_count, assignAll_concat]

end Counted

/-! ## The numbering -/

/-- After any calls, for values of all kinds: a value keeps the placeholder that it got,
whatever follows, and another value has another one, with another text. The values of a
kind have the numbers from one on, in the order of their first calls, and have them from
the calls for this kind alone. What has a placeholder are the values that there was a
call for, and their number is the size. While this can be counted, every placeholder is
read back from its text. Counting along for each kind gives the same assignments and the
same placeholders. -/
theorem numbering_exact (calls : List (PlaceholderKind × String)) :
    let m := empty.assignAll calls
    (∀ kind value more,
      let p := (m.assign kind value).2
      let later := empty.assignAll (calls ++ (kind, value) :: more)
      later.find? kind value = some p ∧ later.assign kind value = (later, p)) ∧
    (∀ call ∈ calls, ∀ call' ∈ calls,
      (m.find? call.1 call.2).map Placeholder.render =
        (m.find? call'.1 call'.2).map Placeholder.render → call = call') ∧
    (∀ kind value p, m.find? kind value = some p ↔
      p.kind = kind ∧ ∃ i, p.index = i + 1 ∧ (distinct (valuesOf kind calls))[i]? = some value) ∧
    (∀ kind value, m.find? kind value =
      (empty.assignAll (calls.filter fun call => call.1 = kind)).find? kind value) ∧
    ((∀ kind value, (m.find? kind value).isSome = true ↔ (kind, value) ∈ calls) ∧
      m.size = (distinct calls).length) ∧
    (m.size < Decimal.wordLimit → ∀ kind value p, m.find? kind value = some p →
      Placeholder.parse? p.render.toList = some p) ∧
    Counted.empty.assignAll calls = ⟨m, m.count⟩ ∧
    ∀ kind value,
      ((Counted.empty.assignAll calls).assign kind value).2 = (m.assign kind value).2 := by
  intro m
  refine ⟨fun kind value more => ?_, fun call hcall call' hcall' heq => ?_,
    fun kind value p => find?_assignAll_eq_some_iff, fun kind value => ?_,
    ⟨fun kind value => ?_, size_assignAll calls⟩, fun hsize kind value p hfind => ?_,
    Counted.assignAll_count calls, fun kind value => ?_⟩
  · intro p later
    have hlater : later = (m.assign kind value).1.assignAll more := List.foldl_append
    have hfind : later.find? kind value = some p := by
      rw [hlater]
      exact find?_assignAll (find?_assign_self m kind value) more
    exact ⟨hfind, assign_of_find? hfind⟩
  · have hfound : ∀ call ∈ calls, ∃ p, m.find? call.1 call.2 = some p := by
      intro call hcall
      refine Option.isSome_iff_exists.1 (isSome_find?_iff.2 ?_)
      rwa [keys_assignAll, mem_distinct]
    obtain ⟨p, hp⟩ := hfound call hcall
    obtain ⟨q, hq⟩ := hfound call' hcall'
    rw [hp, hq] at heq
    obtain rfl : p = q := Placeholder.render_inj (Option.some.inj heq)
    exact find?_assignAll_inj hp hq
  · have hvalues :
        valuesOf kind (calls.filter fun call => call.1 = kind) = valuesOf kind calls := by
      rw [valuesOf, List.filter_filter, valuesOf]
      simp only [Bool.and_self]
    refine Option.ext fun p => ?_
    rw [find?_assignAll_eq_some_iff, find?_assignAll_eq_some_iff, hvalues]
  · rw [isSome_find?_iff, keys_assignAll, mem_distinct]
  · rw [Placeholder.render, String.toList_ofList]
    exact Placeholder.parse?_renderChars (Nat.lt_of_le_of_lt (index_le_size hfind) hsize)
  · rw [Counted.assignAll_count, Counted.assign_count]

theorem numbering_exact_of_mixed_calls :
    let calls : List (PlaceholderKind × String) :=
      [(.identifier, "total"), (.string, "'total'"), (.identifier, "price"),
        (.identifier, "total"), (.function, "total")]
    let m := empty.assignAll calls
    m.size = 4 ∧ m.size < Decimal.wordLimit ∧
      (m.assign .identifier "price").2 = ⟨.identifier, 2⟩ ∧
      (empty.assignAll (calls ++ [(.identifier, "price"), (.identifier, "items")])).find?
        .identifier "price" = some ⟨.identifier, 2⟩ ∧
      m.find? .identifier "price" = some ⟨.identifier, 2⟩ ∧
      Placeholder.parse? "VARIABLE_2".toList = some ⟨.identifier, 2⟩ ∧
      (m.find? .identifier "total").map Placeholder.render ≠
        (m.find? .function "total").map Placeholder.render := by
  intro calls m
  obtain ⟨hkeeps, hapart, hnumber, -, ⟨-, hsize⟩, hreads, -⟩ := numbering_exact calls
  have hfour : m.size = 4 := hsize.trans (by decide)
  have hlimit : m.size < Decimal.wordLimit := by
    rw [hfour]
    decide
  have hprice : m.find? .identifier "price" = some ⟨.identifier, 2⟩ :=
    (hnumber _ _ _).2 ⟨rfl, 1, rfl, by decide⟩
  have hassigned : (m.assign .identifier "price").2 = ⟨.identifier, 2⟩ := by
    rw [assign_of_find? hprice]
  have hread := hreads hlimit _ _ _ hprice
  have hword : (Placeholder.mk .identifier 2).render = "VARIABLE_2" := by decide
  rw [hword] at hread
  refine ⟨hfour, hlimit, hassigned, ?_, hprice, hread, fun heq => ?_⟩
  · rw [← hassigned]
    exact (hkeeps .identifier "price" [(.identifier, "items")]).1
  · have hsame := hapart (.identifier, "total") (by decide) (.function, "total") (by decide) heq
    nomatch (Prod.mk.inj hsame).1

end Assignments

end EditMining
