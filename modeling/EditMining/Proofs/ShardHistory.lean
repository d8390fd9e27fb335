import EditMining.Proofs.ShardStore

/-!
# Storing shards again

Shards are mined again and again, late or twice, and each time their patterns are
stored. What a store is then like is a question about the whole history of calls,
and the answer is that only the last call for each id counts
(`latest_inserts_decide`).

It rests on two facts. A store whose entries stand in the order of their ids is
known from its answers (`IsOrdered.ext`), so calls that leave the same answers
leave the same store, whatever is done with it afterwards. And its answers are the
last lists that were stored (`get?_afterAll`), by induction on the history, one
call at its end.
-/

namespace EditMining.ShardStore

variable {s s' : ShardStore} {id id' : String} {ps ps' : List Pattern}

/-! ## Ordered stores -/

theorem IsOrdered.mem_entries_iff (h : s.IsOrdered) {entry : String × List Pattern} :
    entry ∈ s.entries ↔ s.get? entry.1 = some entry.2 := by
  constructor
  · exact lookup_of_mem h.nodup_ids
  · intro hlookup
    obtain ⟨front, back, hentries, -⟩ := List.lookup_eq_some_iff.1 hlookup
    rw [hentries]
    exact List.mem_append_right front List.mem_cons_self

/-- An ordered store is known from its answers. -/
theorem IsOrdered.ext (h : s.IsOrdered) (h' : s'.IsOrdered)
    (hanswers : ∀ id, s.get? id = s'.get? id) : s = s' := by
  have hentries : s.entries = s'.entries := by
    refine eq_of_mem_iff_of_pairwise_lt (compareOn Prod.fst) (fun entry => ?_) h h'
    rw [h.mem_entries_iff, h'.mem_entries_iff, hanswers]
  cases s
  cases s'
  exact congrArg ShardStore.mk hentries

theorem IsOrdered.insert_comm (h : s.IsOrdered) (hne : id ≠ id') :
    (s.insert id ps).insert id' ps' = (s.insert id' ps').insert id ps := by
  refine h.insert.insert.ext h.insert.insert fun other => ?_
  rw [get?_insert, get?_insert, get?_insert, get?_insert]
  by_cases hother : other = id
  · rw [if_pos hother, if_neg (hother ▸ hne), if_pos hother]
  · rw [if_neg hother, if_neg hother]

theorem IsOrdered.insert_of_get? (h : s.IsOrdered) (hstored : s.get? id = some ps) :
    s.insert id ps = s := by
  refine h.insert.ext h fun other => ?_
  rw [get?_insert]
  split
  · next hother => rw [hother, hstored]
  · rfl

theorem beq_eq_false_of_compare_ne (h : compare id id' ≠ .eq) : (id == id') = false :=
  beq_eq_false_iff_ne.2 fun heq => h (Std.compare_eq_iff_eq.2 heq)

/-- Where an id would belong, there is nothing behind that has this id. -/
theorem IsOrdered.replacedEntry_eq (h : s.IsOrdered) :
    replacedEntry id s.entries = s.get? id := by
  obtain ⟨entries⟩ := s
  show replacedEntry id entries = entries.lookup id
  have hentries : entries.Pairwise fun a b => compare a.1 b.1 = .lt := h
  induction entries with
  | nil => rfl
  | cons entry rest ih =>
      obtain ⟨hentry, hrest⟩ := List.pairwise_cons.1 hentries
      rw [replacedEntry]
      split
      · next hlt =>
          have hbefore : ∀ e ∈ entry :: rest, compare id e.1 = .lt := by
            intro e he
            rcases List.mem_cons.1 he with rfl | he
            · exact hlt
            · exact Std.TransCmp.lt_trans hlt (hentry e he)
          refine (List.lookup_eq_none_iff.2 fun e he => ?_).symm
          rw [bne, beq_eq_false_of_compare_ne (by rw [hbefore e he]; decide)]
          rfl
      · next heq => rw [List.lookup_cons, Std.compare_eq_iff_eq.1 heq, beq_self_eq_true]
      · next hgt =>
          rw [List.lookup_cons, beq_eq_false_of_compare_ne (by rw [hgt]; decide)]
          exact ih hrest hrest

/-! ## Histories -/

/-- The store behind some calls, each with an id and the patterns to be stored
under it. -/
def afterAll (history : List (String × List Pattern)) : ShardStore :=
  history.foldl (fun s call => (s.exchange call.1 call.2).2) empty

/-- The patterns that the last call for an id stored. -/
def latest? (history : List (String × List Pattern)) (id : String) : Option (List Pattern) :=
  history.reverse.lookup id

variable {history : List (String × List Pattern)}

theorem afterAll_concat (history : List (String × List Pattern)) (call : String × List Pattern) :
    afterAll (history ++ [call]) = (afterAll history).insert call.1 call.2 :=
  List.foldl_append

theorem afterAll_append {history' : List (String × List Pattern)}
    (h : afterAll history = afterAll history') (later : List (String × List Pattern)) :
    afterAll (history ++ later) = afterAll (history' ++ later) := by
  rw [afterAll, List.foldl_append, ← afterAll, h, afterAll, ← List.foldl_append]
  rfl

theorem latest?_concat (history : List (String × List Pattern)) (call : String × List Pattern) :
    latest? (history ++ [call]) id = if id = call.1 then some call.2 else latest? history id := by
  rw [latest?, List.reverse_append, List.reverse_singleton, List.singleton_append, List.lookup_cons]
  by_cases heq : id = call.1
  · rw [if_pos heq, heq, beq_self_eq_true]
  · rw [if_neg heq, beq_eq_false_iff_ne.2 heq]
    rfl

theorem isOrdered_afterAll (history : List (String × List Pattern)) :
    (afterAll history).IsOrdered := by
  induction history using List.reverseRecOn with
  | nil => exact isOrdered_empty
  | append_singleton history call ih =>
      rw [afterAll_concat]
      exact ih.insert

/-- A store answers with what was stored last. -/
theorem get?_afterAll (history : List (String × List Pattern)) (id : String) :
    (afterAll history).get? id = latest? history id := by
  induction history using List.reverseRecOn with
  | nil => rfl
  | append_singleton history call ih => rw [afterAll_concat, get?_insert, latest?_concat, ih]

theorem mem_ids_afterAll : id ∈ (afterAll history).ids ↔ id ∈ history.map (·.1) := by
  induction history using List.reverseRecOn with
  | nil => rfl
  | append_singleton history call ih =>
      rw [afterAll_concat, mem_ids_insert, ih, List.map_append, List.mem_append, List.map_singleton,
        List.mem_singleton]
      exact or_comm

/-- What is merged is the last list for each id that was used, in whatever order
these are enumerated. -/
theorem merged_afterAll {ids : List String} (hnodup : ids.Nodup)
    (hids : ∀ id, id ∈ ids ↔ id ∈ history.map (·.1)) :
    (afterAll history).merged =
      mergePatterns (ids.flatMap fun id => (latest? history id).getD []) := by
  have hordered := isOrdered_afterAll history
  have hperm : (afterAll history).ids.Perm ids := by
    refine (List.perm_ext_iff_of_nodup hordered.nodup_ids hnodup).2 fun id => ?_
    rw [mem_ids_afterAll, hids]
  rw [hordered.merged_eq]
  simp only [get?_afterAll]
  exact mergePatterns_perm (hperm.flatMap_right _)

/-- After any history of calls, what is merged are the last lists of the ids that
were used, and these ids are there in order, each once. Every call gives back the
list that it replaces. Calls for different ids can change places, and a call that
stores once more what was stored last changes nothing, wherever it comes in.

Supports are natural numbers here. A sum of supports is the one of 64-bit counts as
long as it stays below `2 ^ 64`; no equation rests on that bound, as each adds the
same supports on both of its sides. -/
theorem latest_inserts_decide (history : List (String × List Pattern)) :
    (∀ ids : List String, ids.Nodup → (∀ id, id ∈ ids ↔ id ∈ history.map (·.1)) →
      (afterAll history).merged =
        mergePatterns (ids.flatMap fun id => (latest? history id).getD [])) ∧
    ((afterAll history).ids.Pairwise (fun id id' => compare id id' = .lt) ∧
      ∀ id, id ∈ (afterAll history).ids ↔ id ∈ history.map (·.1)) ∧
    (∀ id ps, ((afterAll history).exchange id ps).1 = latest? history id) ∧
    (∀ id id' ps ps' later, id ≠ id' →
      afterAll (history ++ [(id, ps), (id', ps')] ++ later) =
        afterAll (history ++ [(id', ps'), (id, ps)] ++ later)) ∧
    ∀ id ps later, latest? history id = some ps →
      afterAll (history ++ [(id, ps)] ++ later) = afterAll (history ++ later) := by
  have hordered := isOrdered_afterAll history
  refine ⟨fun ids => merged_afterAll, ⟨List.pairwise_map.2 hordered, fun id => mem_ids_afterAll⟩,
    fun id ps => ?_, fun id id' ps ps' later hne => ?_, fun id ps later hlatest => ?_⟩
  · exact hordered.replacedEntry_eq.trans (get?_afterAll history id)
  · have hpair : ∀ call call' : String × List Pattern,
        afterAll (history ++ [call, call']) =
          ((afterAll history).insert call.1 call.2).insert call'.1 call'.2 := by
      intro call call'
      rw [List.append_cons, afterAll_concat, afterAll_concat]
    refine afterAll_append ?_ later
    rw [hpair, hpair]
    exact hordered.insert_comm hne
  · refine afterAll_append ?_ later
    rw [afterAll_concat]
    exact hordered.insert_of_get? ((get?_afterAll history id).trans hlatest)

theorem latest_inserts_decide_of_rerun :
    let small : Pattern := ⟨[⟨.removed, "a"⟩, ⟨.added, "b"⟩], 2⟩
    let large : Pattern := ⟨[⟨.removed, "a"⟩, ⟨.added, "b"⟩], 3⟩
    let history := [("2020", [large]), ("2019", [small]), ("2020", [small])]
    ["2019", "2020"].Nodup ∧ (∀ id, id ∈ ["2019", "2020"] ↔ id ∈ history.map (·.1)) ∧
      (afterAll history).merged = mergePatterns [small, small] ∧
      "2019" ≠ "2020" ∧
      afterAll (history ++ [("2019", [large]), ("2020", [])]) =
        afterAll (history ++ [("2020", []), ("2019", [large])]) ∧
      latest? history "2020" = some [small] ∧
      afterAll (history ++ [("2020", [small])]) = afterAll history := by
  intro small large history
  obtain ⟨hmerged, -, -, hswap, hagain⟩ := latest_inserts_decide history
  have hids : ∀ id, id ∈ ["2019", "2020"] ↔ id ∈ history.map (·.1) := by
    intro id
    simp only [history, List.map_cons, List.map_nil, List.mem_cons, List.not_mem_nil, or_false]
    tauto
  have hlatest : latest? history "2020" = some [small] := rfl
  refine ⟨by decide, hids, hmerged _ (by decide) hids, by decide, ?_, hlatest, ?_⟩
  · simpa using hswap "2019" "2020" [large] [] [] (by decide)
  · simpa using hagain "2020" [small] [] hlatest

end EditMining.ShardStore
