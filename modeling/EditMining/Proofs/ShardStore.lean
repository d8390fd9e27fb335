import EditMining.Proofs.Merge
import EditMining.Shard.Store
import Mathlib.Data.List.Induction

/-!
# Storing patterns by shard

A store answers for each id with the list that was put in last (`get?_insert`),
and keeps its entries in the order of their ids, each id once
(`IsOrdered.insert`). So its entries are known from its ids and its answers, and
so is what it merges, whatever was put in and in whatever order. If every id
stands for one list of patterns, that is all there is to it: how often an id was
used does not show (`merged_of_keyed`).
-/

namespace EditMining.ShardStore

variable {s : ShardStore} {id other : String} {ps : List Pattern}

/-! ## Answers -/

theorem lookup_insertEntry (entries : List (String × List Pattern)) :
    (insertEntry id ps entries).lookup other =
      if other = id then some ps else entries.lookup other := by
  have hhead : ∀ rest, List.lookup other ((id, ps) :: rest) =
      if other = id then some ps else rest.lookup other := by
    intro rest
    rw [List.lookup_cons]
    by_cases heq : other = id
    · rw [if_pos heq, heq, beq_self_eq_true]
    · rw [if_neg heq, beq_eq_false_iff_ne.2 heq]
  induction entries with
  | nil => exact hhead []
  | cons entry rest ih =>
      rw [insertEntry]
      split
      · exact hhead _
      · next heq =>
          have hid : id = entry.1 := Std.compare_eq_iff_eq.1 heq
          rw [hhead, List.lookup_cons]
          by_cases hother : other = id
          · rw [if_pos hother, if_pos hother]
          · have hne : (other == entry.1) = false := beq_eq_false_iff_ne.2 (hid ▸ hother)
            rw [if_neg hother, if_neg hother, hne]
      · next hgt =>
          have hne : id ≠ entry.1 := by
            intro heq
            rw [Std.compare_eq_iff_eq.2 heq] at hgt
            cases hgt
          rw [List.lookup_cons, List.lookup_cons, ih]
          by_cases hother : other = entry.1
          · rw [hother, beq_self_eq_true]
            exact (if_neg (Ne.symm hne)).symm
          · rw [beq_eq_false_iff_ne.2 hother]

/-- The last list that is put in under an id is the one that is there. -/
theorem get?_insert (s : ShardStore) :
    (s.insert id ps).get? other = if other = id then some ps else s.get? other :=
  lookup_insertEntry s.entries

theorem mem_ids_insertEntry (entries : List (String × List Pattern)) :
    other ∈ (insertEntry id ps entries).map (·.1) ↔ other = id ∨ other ∈ entries.map (·.1) := by
  induction entries with
  | nil => simp [insertEntry]
  | cons entry rest ih =>
      rw [insertEntry]
      split
      · simp
      · next heq =>
          have hid : id = entry.1 := Std.compare_eq_iff_eq.1 heq
          simp [hid]
      · rw [List.map_cons, List.mem_cons, ih, List.map_cons, List.mem_cons]
        exact or_left_comm

theorem mem_ids_insert : other ∈ (s.insert id ps).ids ↔ other = id ∨ other ∈ s.ids :=
  mem_ids_insertEntry s.entries

/-! ## Order -/

/-- Entries stand in the order of their ids, each id once. -/
def IsOrdered (s : ShardStore) : Prop :=
  s.entries.Pairwise fun a b => compare a.1 b.1 = .lt

theorem isOrdered_empty : empty.IsOrdered :=
  List.Pairwise.nil

theorem pairwise_insertEntry {entries : List (String × List Pattern)}
    (h : entries.Pairwise fun a b => compare a.1 b.1 = .lt) :
    (insertEntry id ps entries).Pairwise fun a b => compare a.1 b.1 = .lt := by
  induction entries with
  | nil => exact List.pairwise_singleton _ _
  | cons entry rest ih =>
      obtain ⟨hentry, hrest⟩ := List.pairwise_cons.1 h
      rw [insertEntry]
      split
      · next hlt =>
          refine List.pairwise_cons.2 ⟨fun e he => ?_, h⟩
          rcases List.mem_cons.1 he with rfl | he
          · exact hlt
          · exact Std.TransCmp.lt_trans hlt (hentry e he)
      · next heq =>
          have hid : id = entry.1 := Std.compare_eq_iff_eq.1 heq
          exact List.pairwise_cons.2 ⟨fun e he => hid ▸ hentry e he, hrest⟩
      · next hgt =>
          refine List.pairwise_cons.2 ⟨fun e he => ?_, ih hrest⟩
          -- Behind the first entry stand the new one and those that were there.
          have hids : e.1 = id ∨ e.1 ∈ rest.map (·.1) :=
            (mem_ids_insertEntry rest).1 (List.mem_map_of_mem he)
          rcases hids with heq | hold
          · rw [heq]
            exact Std.OrientedCmp.lt_of_gt hgt
          · obtain ⟨e', he', heq⟩ := List.mem_map.1 hold
            rw [← heq]
            exact hentry e' he'

theorem IsOrdered.insert (h : s.IsOrdered) : (s.insert id ps).IsOrdered :=
  pairwise_insertEntry h

theorem IsOrdered.nodup_ids (h : s.IsOrdered) : s.ids.Nodup := by
  refine List.pairwise_map.2 (h.imp fun {a b} hlt heq => ?_)
  rw [Std.compare_eq_iff_eq.2 heq] at hlt
  nomatch hlt

theorem lookup_of_mem {entries : List (String × List Pattern)} (h : (entries.map (·.1)).Nodup)
    {entry : String × List Pattern} (hentry : entry ∈ entries) :
    entries.lookup entry.1 = some entry.2 := by
  induction entries with
  | nil => nomatch hentry
  | cons first rest ih =>
      rw [List.map_cons, List.nodup_cons] at h
      rw [List.lookup_cons]
      rcases List.mem_cons.1 hentry with rfl | hentry
      · rw [beq_self_eq_true]
      · have hne : (entry.1 == first.1) = false := by
          rw [beq_eq_false_iff_ne]
          intro heq
          exact h.1 (heq ▸ List.mem_map_of_mem hentry)
        rw [hne]
        exact ih h.2 hentry

/-- What a store merges, from its ids and its answers. -/
theorem IsOrdered.merged_eq (h : s.IsOrdered) :
    s.merged = mergePatterns (s.ids.flatMap fun id => (s.get? id).getD []) := by
  rw [merged, ids, List.flatMap_map]
  refine congrArg mergePatterns (List.flatMap_congr fun entry hentry => ?_)
  rw [get?, lookup_of_mem h.nodup_ids hentry]
  rfl

/-! ## Lists by key -/

/-- Each key stored with the list that it stands for. -/
def keyed (g : String → List Pattern) (keys : List String) : ShardStore :=
  keys.foldl (fun s key => s.insert key (g key)) empty

theorem keyed_append (g : String → List Pattern) (keys : List String) (key : String) :
    keyed g (keys ++ [key]) = (keyed g keys).insert key (g key) :=
  List.foldl_append

theorem isOrdered_keyed (g : String → List Pattern) (keys : List String) :
    (keyed g keys).IsOrdered := by
  induction keys using List.reverseRecOn with
  | nil => exact isOrdered_empty
  | append_singleton keys key ih =>
      rw [keyed_append]
      exact ih.insert

theorem mem_ids_keyed (g : String → List Pattern) (keys : List String) :
    other ∈ (keyed g keys).ids ↔ other ∈ keys := by
  induction keys using List.reverseRecOn with
  | nil => rfl
  | append_singleton keys key ih =>
      rw [keyed_append, mem_ids_insert, ih, List.mem_append, List.mem_singleton]
      exact or_comm

theorem get?_keyed (g : String → List Pattern) {keys : List String} (h : other ∈ keys) :
    (keyed g keys).get? other = some (g other) := by
  induction keys using List.reverseRecOn with
  | nil => nomatch h
  | append_singleton keys key ih =>
      rw [keyed_append, get?_insert]
      by_cases heq : other = key
      · rw [if_pos heq, heq]
      · rw [if_neg heq]
        rw [List.mem_append, List.mem_singleton] at h
        exact ih (h.resolve_right heq)

/-- Neither the order of the keys nor how often each is stored shows in what is
merged. -/
theorem merged_of_keyed (g : String → List Pattern) {keys once : List String} (hnodup : once.Nodup)
    (hmem : ∀ key, key ∈ once ↔ key ∈ keys) :
    (keyed g keys).merged = mergePatterns (once.flatMap g) := by
  have hordered := isOrdered_keyed g keys
  have hanswers : ((keyed g keys).ids.flatMap fun id => ((keyed g keys).get? id).getD []) =
      (keyed g keys).ids.flatMap g := by
    refine List.flatMap_congr fun id hid => ?_
    rw [get?_keyed g ((mem_ids_keyed g keys).1 hid)]
    rfl
  have hids : (keyed g keys).ids.Perm once := by
    refine (List.perm_ext_iff_of_nodup hordered.nodup_ids hnodup).2 fun key => ?_
    rw [mem_ids_keyed, hmem]
  rw [hordered.merged_eq, hanswers]
  exact mergePatterns_perm (hids.flatMap_right g)

/-- Entries with different ids are merged as they are. -/
theorem merged_foldl_insert {entries : List (String × List Pattern)}
    (hnodup : (entries.map (·.1)).Nodup) :
    (entries.foldl (fun s entry => s.insert entry.1 entry.2) empty).merged =
      mergePatterns (entries.flatMap (·.2)) := by
  let g : String → List Pattern := fun id => (entries.lookup id).getD []
  have hg : ∀ entry ∈ entries, g entry.1 = entry.2 := by
    intro entry hentry
    show (entries.lookup entry.1).getD [] = entry.2
    rw [lookup_of_mem hnodup hentry]
    rfl
  have hkeyed : entries.foldl (fun s entry => s.insert entry.1 entry.2) empty =
      keyed g (entries.map (·.1)) := by
    rw [keyed, List.foldl_map]
    refine List.foldl_ext _ _ _ fun s entry hentry => ?_
    rw [hg entry hentry]
  rw [hkeyed, merged_of_keyed g hnodup fun _ => Iff.rfl, List.flatMap_map]
  exact congrArg mergePatterns (List.flatMap_congr hg)

end EditMining.ShardStore
