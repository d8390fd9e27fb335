import EditMining.Proofs.Order
import EditMining.Shard
import Mathlib.Data.List.Induction
import Mathlib.Data.List.Nodup

/-!
# Records in shards

Shards are defined by what they hold: for each id that occurs, the records with this id.
Here they are built the other way round, from one record after the other. A record goes
to the end of the shard with its id, or makes a shard of its own in the place that the id
has among the others (`insertRecord`). Both come to the same shards (`sorted_eq_partition`).

The reason is that ordered shards without an empty one are known from the records that
they hold under each id (`IsOrdered.ext`). A step keeps the order, and adds its record to
what is held under the record's id; so behind any records, by induction with one record
more at the end, what is held under an id is what a filter leaves of them.

Whatever the years are, their ids are told apart. They are written with digits, behind a
sign if they are negative; so no word is one of them, and no two years are written alike
(`idOf_byYear_eq_iff`).
-/

namespace EditMining.Shard

variable {sharding : Sharding} {r : Record} {records : List Record} {s : Shard}
  {shards shards' : List Shard} {id : String}

/-! ## The ids of records -/

theorem notMem_repr {c : Char} (hdigit : c.isDigit = false) (n : Nat) : c ∉ n.repr.toList := by
  intro h
  rw [Nat.repr, String.toList_ofList] at h
  have hc : c.isDigit = true := Nat.isDigit_of_mem_toDigits (by decide) (by decide) h
  nomatch hdigit.symm.trans hc

theorem notMem_yearId {c : Char} (hdigit : c.isDigit = false) (hsign : c ≠ '-') (year : Int) :
    c ∉ (yearId year).toList := by
  cases year with
  | ofNat n => exact notMem_repr hdigit n
  | negSucc n =>
      show c ∉ ("-" ++ (n + 1).repr).toList
      rw [String.toList_append, List.mem_append, not_or]
      exact ⟨fun h => hsign (List.mem_singleton.1 h), notMem_repr hdigit (n + 1)⟩

theorem repr_inj {m n : Nat} (h : m.repr = n.repr) : m = n := by
  rw [Nat.repr, Nat.repr, String.ofList_inj] at h
  exact Decimal.digits_inj.1 h

theorem yearId_inj {year year' : Int} (h : yearId year = yearId year') : year = year' := by
  have hne : ∀ m n : Nat, m.repr ≠ "-" ++ n.repr := by
    intro m n heq
    refine notMem_repr (c := '-') rfl m ?_
    rw [heq, String.toList_append]
    exact List.mem_append_left _ List.mem_cons_self
  cases year with
  | ofNat m =>
      cases year' with
      | ofNat n => exact congrArg Int.ofNat (repr_inj h)
      | negSucc n => exact absurd h (hne m (n + 1))
  | negSucc m =>
      cases year' with
      | ofNat n => exact absurd h.symm (hne n (m + 1))
      | negSucc n =>
          have hrepr : (m + 1).repr = (n + 1).repr := by
            have hlist := congrArg String.toList h
            rw [yearId, yearId, String.toList_append, String.toList_append,
              List.append_cancel_left_eq] at hlist
            exact String.toList_inj.1 hlist
          exact congrArg Int.negSucc (Nat.succ.inj (repr_inj hrepr))

theorem yearId_ne_unknownId (year : Int) : yearId year ≠ unknownId := by
  intro h
  exact notMem_yearId (c := 'u') rfl (by decide) year (h ▸ List.mem_cons_self)

/-- By years, records go together if they are of one year, or both without a time. -/
theorem idOf_byYear_eq_iff (r r' : Record) :
    idOf .byYear r = idOf .byYear r' ↔ r.year = r'.year := by
  rw [idOf, idOf]
  cases r.year with
  | none =>
      cases r'.year with
      | none => exact ⟨fun _ => rfl, fun _ => rfl⟩
      | some year => exact ⟨fun h => absurd h.symm (yearId_ne_unknownId year), nofun⟩
  | some year =>
      cases r'.year with
      | none => exact ⟨fun h => absurd h (yearId_ne_unknownId year), nofun⟩
      | some year' => exact ⟨fun h => congrArg some (yearId_inj h), fun h => by rw [h]⟩

/-! ## What is held under an id -/

/-- The records of the shard with an id; none, if there is no such shard. -/
def recordsIn (shards : List Shard) (id : String) : List Record :=
  ((shards.find? fun s => s.id = id).map Shard.records).getD []

theorem recordsIn_cons (s : Shard) (shards : List Shard) (id : String) :
    recordsIn (s :: shards) id = if s.id = id then s.records else recordsIn shards id := by
  rw [recordsIn, List.find?_cons]
  by_cases h : s.id = id
  · rw [decide_eq_true h, if_pos h]
    rfl
  · rw [decide_eq_false h, if_neg h]
    rfl

theorem recordsIn_eq_nil (h : id ∉ shards.map Shard.id) : recordsIn shards id = [] := by
  have hnone : (shards.find? fun s => s.id = id) = none := by
    refine List.find?_eq_none.2 fun s hs heq => h ?_
    exact List.mem_map.2 ⟨s, hs, of_decide_eq_true heq⟩
  rw [recordsIn, hnone]
  rfl

/-- No two shards have one id, and they stand in the order of their ids; there is no shard
without a record. -/
structure IsOrdered (shards : List Shard) : Prop where
  increasing : shards.Pairwise fun s t => compare s.id t.id = .lt
  nonempty : ∀ s ∈ shards, s.records ≠ []

theorem IsOrdered.nodup_ids (h : IsOrdered shards) : (shards.map Shard.id).Nodup := by
  refine List.pairwise_map.2 (h.increasing.imp fun {s t} hlt heq => ?_)
  rw [heq, Std.compare_eq_iff_eq.2 rfl] at hlt
  nomatch hlt

theorem recordsIn_of_mem (h : (shards.map Shard.id).Nodup) (hs : s ∈ shards) :
    recordsIn shards s.id = s.records := by
  rw [recordsIn, (find?_key_eq_some_iff Shard.id h).2 ⟨hs, rfl⟩]
  rfl

theorem IsOrdered.mem_iff (h : IsOrdered shards) :
    s ∈ shards ↔ s.records ≠ [] ∧ recordsIn shards s.id = s.records := by
  constructor
  · intro hs
    exact ⟨h.nonempty s hs, recordsIn_of_mem h.nodup_ids hs⟩
  · intro hown
    obtain ⟨hne, hrecords⟩ := hown
    cases hfind : shards.find? fun t => t.id = s.id with
    | none =>
        rw [recordsIn, hfind] at hrecords
        exact absurd hrecords.symm hne
    | some t =>
        rw [recordsIn, hfind] at hrecords
        obtain ⟨ht, hid⟩ := (find?_key_eq_some_iff Shard.id h.nodup_ids).1 hfind
        cases t
        cases s
        cases hid
        cases hrecords
        exact ht

theorem IsOrdered.ext (h : IsOrdered shards) (h' : IsOrdered shards')
    (hrecords : ∀ id, recordsIn shards id = recordsIn shards' id) : shards = shards' := by
  refine eq_of_mem_iff_of_pairwise_lt (compareOn Shard.id) (fun s => ?_) h.increasing h'.increasing
  rw [h.mem_iff, h'.mem_iff, hrecords]

/-! ## The shards of some records -/

theorem mem_ids : id ∈ ids sharding records ↔ ∃ r ∈ records, idOf sharding r = id := by
  rw [ids, List.mem_mergeSort, mem_distinct, List.mem_map]

theorem map_id_partition (sharding : Sharding) (records : List Record) :
    (partition sharding records).map Shard.id = ids sharding records := by
  rw [partition, List.map_map]
  exact List.map_id _

theorem isOrdered_partition (sharding : Sharding) (records : List Record) :
    IsOrdered (partition sharding records) where
  increasing := by
    have hids : ((partition sharding records).map Shard.id).Pairwise fun a b =>
        compare a b = .lt := by
      rw [map_id_partition]
      exact pairwise_mergeSort_lt (nodup_distinct _)
    exact List.pairwise_map.1 hids
  nonempty s hs := by
    obtain ⟨id, hid, rfl⟩ := List.mem_map.1 hs
    obtain ⟨r, hr, hr'⟩ := mem_ids.1 hid
    exact List.ne_nil_of_mem (List.mem_filter.2 ⟨hr, decide_eq_true hr'⟩)

theorem recordsIn_partition (sharding : Sharding) (records : List Record) (id : String) :
    recordsIn (partition sharding records) id =
      records.filter fun r => idOf sharding r = id := by
  by_cases h : id ∈ ids sharding records
  · have hmem : withId sharding records id ∈ partition sharding records := List.mem_map_of_mem h
    exact recordsIn_of_mem (isOrdered_partition sharding records).nodup_ids hmem
  · rw [recordsIn_eq_nil (by rwa [map_id_partition])]
    refine (List.filter_eq_nil_iff.2 fun r hr hid => h ?_).symm
    exact mem_ids.2 ⟨r, hr, of_decide_eq_true hid⟩

/-! ## One record after the other -/

/-- Put a record at the end of its shard, or in a new one if it has none yet. -/
def insertRecord (sharding : Sharding) (r : Record) : List Shard → List Shard
  | [] => [⟨idOf sharding r, [r]⟩]
  | s :: rest =>
      match compare (idOf sharding r) s.id with
      | .lt => ⟨idOf sharding r, [r]⟩ :: s :: rest
      | .eq => ⟨s.id, s.records ++ [r]⟩ :: rest
      | .gt => s :: insertRecord sharding r rest

/-- The shards behind some records, put in one after the other. -/
def sorted (sharding : Sharding) (records : List Record) : List Shard :=
  records.foldl (fun shards r => insertRecord sharding r shards) []

theorem sorted_concat (sharding : Sharding) (records : List Record) (r : Record) :
    sorted sharding (records ++ [r]) = insertRecord sharding r (sorted sharding records) :=
  List.foldl_append

theorem mem_insertRecord (h : s ∈ insertRecord sharding r shards) :
    s.id = idOf sharding r ∧ s.records ≠ [] ∨ s ∈ shards := by
  induction shards with
  | nil =>
      cases List.mem_singleton.1 h
      exact .inl ⟨rfl, List.cons_ne_nil _ _⟩
  | cons t rest ih =>
      rw [insertRecord] at h
      split at h
      · next hlt =>
          rcases List.mem_cons.1 h with rfl | h
          · exact .inl ⟨rfl, List.cons_ne_nil _ _⟩
          · exact .inr h
      · next heq =>
          rcases List.mem_cons.1 h with rfl | h
          · exact .inl ⟨(Std.compare_eq_iff_eq.1 heq).symm, by simp⟩
          · exact .inr (List.mem_cons_of_mem _ h)
      · next hgt =>
          rcases List.mem_cons.1 h with rfl | h
          · exact .inr List.mem_cons_self
          · exact (ih h).imp (fun hnew => hnew) (List.mem_cons_of_mem _)

theorem compare_lt_of_mem {t : Shard} (hlt : compare id s.id = .lt)
    (h : (s :: shards).Pairwise fun s t => compare s.id t.id = .lt) (ht : t ∈ s :: shards) :
    compare id t.id = .lt := by
  rcases List.mem_cons.1 ht with rfl | ht
  · exact hlt
  · exact Std.TransCmp.lt_trans hlt (List.rel_of_pairwise_cons h ht)

theorem pairwise_insertRecord (h : shards.Pairwise fun s t => compare s.id t.id = .lt) :
    (insertRecord sharding r shards).Pairwise fun s t => compare s.id t.id = .lt := by
  induction shards with
  | nil => exact List.pairwise_singleton _ _
  | cons s rest ih =>
      obtain ⟨hs, hrest⟩ := List.pairwise_cons.1 h
      rw [insertRecord]
      split
      · next hlt => exact h.cons fun t ht => compare_lt_of_mem hlt h ht
      · next heq => exact hrest.cons hs
      · next hgt =>
          refine (ih hrest).cons fun t ht => ?_
          rcases mem_insertRecord ht with ⟨hid, -⟩ | ht
          · rw [hid]
            exact Std.OrientedCmp.lt_of_gt hgt
          · exact hs t ht

theorem IsOrdered.insertRecord (h : IsOrdered shards) (sharding : Sharding) (r : Record) :
    IsOrdered (insertRecord sharding r shards) where
  increasing := pairwise_insertRecord h.increasing
  nonempty s hs := by
    rcases mem_insertRecord hs with ⟨-, hne⟩ | hs
    · exact hne
    · exact h.nonempty s hs

/-- A record is added to what is held under its id, and to nothing else. -/
theorem recordsIn_insertRecord (h : shards.Pairwise fun s t => compare s.id t.id = .lt) :
    recordsIn (insertRecord sharding r shards) id =
      recordsIn shards id ++ [r].filter fun r => idOf sharding r = id := by
  induction shards with
  | nil =>
      rw [insertRecord, recordsIn_cons]
      by_cases hid : idOf sharding r = id <;> simp [hid, recordsIn]
  | cons s rest ih =>
      obtain ⟨hs, hrest⟩ := List.pairwise_cons.1 h
      rw [insertRecord]
      split
      · next hlt =>
          rw [recordsIn_cons]
          by_cases hid : idOf sharding r = id
          · -- All shards are behind the place of the new one, so none has its id.
            have hnew : id ∉ (s :: rest).map Shard.id := by
              intro hmem
              obtain ⟨t, ht, rfl⟩ := List.mem_map.1 hmem
              have hbehind := compare_lt_of_mem hlt h ht
              rw [Std.compare_eq_iff_eq.2 hid] at hbehind
              nomatch hbehind
            rw [recordsIn_eq_nil hnew]
            simp [hid]
          · simp [hid]
      · next heq =>
          have hown : idOf sharding r = s.id := Std.compare_eq_iff_eq.1 heq
          rw [recordsIn_cons, recordsIn_cons]
          by_cases hid : s.id = id <;> simp [hown, hid]
      · next hgt =>
          rw [recordsIn_cons, recordsIn_cons, ih hrest]
          by_cases hid : s.id = id
          · have hne : idOf sharding r ≠ id := by
              intro heq
              rw [heq, hid, Std.compare_eq_iff_eq.2 rfl] at hgt
              nomatch hgt
            simp [hid, hne]
          · simp [hid]

theorem isOrdered_sorted (sharding : Sharding) (records : List Record) :
    IsOrdered (sorted sharding records) := by
  induction records using List.reverseRecOn with
  | nil => exact ⟨List.Pairwise.nil, nofun⟩
  | append_singleton records r ih =>
      rw [sorted_concat]
      exact ih.insertRecord sharding r

theorem recordsIn_sorted (sharding : Sharding) (records : List Record) (id : String) :
    recordsIn (sorted sharding records) id = records.filter fun r => idOf sharding r = id := by
  induction records using List.reverseRecOn with
  | nil => rfl
  | append_singleton records r ih =>
      rw [sorted_concat, recordsIn_insertRecord (isOrdered_sorted sharding records).increasing, ih,
        List.filter_append]

theorem sorted_eq_partition (sharding : Sharding) (records : List Record) :
    sorted sharding records = partition sharding records := by
  refine (isOrdered_sorted sharding records).ext (isOrdered_partition sharding records) ?_
  intro id
  rw [recordsIn_sorted, recordsIn_partition]

theorem flatMap_insertRecord (sharding : Sharding) (r : Record) (shards : List Shard) :
    ((insertRecord sharding r shards).flatMap Shard.records).Perm
      (shards.flatMap Shard.records ++ [r]) := by
  induction shards with
  | nil => exact .refl _
  | cons s rest ih =>
      rw [insertRecord]
      split
      · exact (List.perm_append_singleton r _).symm
      · rw [List.flatMap_cons, List.flatMap_cons, List.append_assoc, List.append_assoc]
        exact List.perm_append_comm.append_left _
      · rw [List.flatMap_cons, List.flatMap_cons, List.append_assoc]
        exact ih.append_left _

theorem flatMap_partition (sharding : Sharding) (records : List Record) :
    ((partition sharding records).flatMap Shard.records).Perm records := by
  rw [← sorted_eq_partition]
  induction records using List.reverseRecOn with
  | nil => exact .refl _
  | append_singleton records r ih =>
      rw [sorted_concat]
      exact (flatMap_insertRecord sharding r _).trans (ih.append_right [r])

/-! ## What a partition is -/

/-- For any records, told apart by their years or not at all: the shards stand in the
order of their ids, and none is empty. A shard has all records with its id, in the order
in which they came. So the shards have the records among them, each as often as it was
there, in the one shard with its id. This id is `all`, or the year in decimal, or
`unknown`, and by it records are told apart that differ in the year. When records come in
two parts, each shard has what it has of the first part, then what it has of the second. -/
theorem partition_exact (sharding : Sharding) (records : List Record) :
    let shards := partition sharding records
    shards = records.foldl (fun shards r => insertRecord sharding r shards) [] ∧
    (shards.Pairwise (fun s t => compare s.id t.id = .lt) ∧ (shards.map Shard.id).Nodup) ∧
    (∀ s ∈ shards, s.records ≠ [] ∧
      s.records = records.filter fun r => idOf sharding r = s.id) ∧
    ((shards.flatMap Shard.records).Perm records ∧
      ∀ r ∈ records, ∃ s ∈ shards, s.id = idOf sharding r ∧
        s.records.count r = records.count r ∧ ∀ t ∈ shards, r ∈ t.records → t = s) ∧
    ((∀ r, idOf .single r = "all") ∧
      (∀ name hunk, idOf .byYear ⟨name, none, hunk⟩ = "unknown") ∧
      (∀ name time hunk, idOf .byYear ⟨name, some time, hunk⟩ = toString time.year) ∧
      ∀ r r', idOf .byYear r = idOf .byYear r' ↔ r.year = r'.year) ∧
    ∀ more,
      partition sharding (records ++ more) =
        (ids sharding (records ++ more)).map (fun id =>
          ⟨id, recordsIn shards id ++ recordsIn (partition sharding more) id⟩) ∧
      ∀ id, id ∈ ids sharding (records ++ more) ↔
        id ∈ shards.map Shard.id ∨ id ∈ (partition sharding more).map Shard.id := by
  intro shards
  have hordered : IsOrdered shards := isOrdered_partition sharding records
  have hrecords : ∀ s ∈ shards, s.records = records.filter fun r => idOf sharding r = s.id := by
    intro s hs
    rw [← recordsIn_partition]
    exact (recordsIn_of_mem hordered.nodup_ids hs).symm
  refine ⟨(sorted_eq_partition sharding records).symm, ⟨hordered.increasing, hordered.nodup_ids⟩,
    fun s hs => ⟨hordered.nonempty s hs, hrecords s hs⟩,
    ⟨flatMap_partition sharding records, fun r hr => ?_⟩,
    ⟨fun r => rfl, fun name hunk => rfl, fun name time hunk => ?_, idOf_byYear_eq_iff⟩,
    fun more => ⟨?_, fun id => ?_⟩⟩
  · have hid : idOf sharding r ∈ shards.map Shard.id := by
      rw [map_id_partition]
      exact mem_ids.2 ⟨r, hr, rfl⟩
    obtain ⟨s, hs, hid⟩ := List.mem_map.1 hid
    refine ⟨s, hs, hid, ?_, fun t ht hrt => ?_⟩
    · rw [hrecords s hs]
      exact List.count_filter (decide_eq_true hid.symm)
    · rw [hrecords t ht] at hrt
      have hown : idOf sharding r = t.id := of_decide_eq_true (List.mem_filter.1 hrt).2
      exact List.inj_on_of_nodup_map hordered.nodup_ids ht hs (hown.symm.trans hid.symm)
  · show yearId time.year = toString time.year
    cases time.year <;> rfl
  · refine List.map_congr_left fun id _ => ?_
    rw [recordsIn_partition, recordsIn_partition, ← List.filter_append]
    rfl
  · rw [map_id_partition, map_id_partition, mem_ids, mem_ids, mem_ids]
    simp only [List.mem_append, or_and_right, exists_or]

/-- Ids are ordered as texts, not as numbers. -/
theorem partition_exact_of_years :
    let record (year : Int) (line : String) : Record :=
      ⟨none, some ⟨year, 6, 1, 0, 0, 0, 0⟩, ⟨[line], ["b"]⟩⟩
    let untimed : Record := ⟨none, none, ⟨["a"], ["b"]⟩⟩
    let early := [record 987 "a", untimed, record 1066 "a"]
    let late := [record (-4) "a", record 1066 "c"]
    partition .byYear (early ++ late) =
        [⟨"-4", [record (-4) "a"]⟩, ⟨"1066", [record 1066 "a", record 1066 "c"]⟩,
          ⟨"987", [record 987 "a"]⟩, ⟨"unknown", [untimed]⟩] ∧
      record 987 "a" ∈ early ∧
      (∃ s ∈ partition .byYear early, s.id = "987" ∧ s.records.count (record 987 "a") = 1) ∧
      idOf .byYear (record 987 "c") = "987" ∧
      "-4" ∈ ids .byYear (early ++ late) := by
  intro record untimed early late
  obtain ⟨hinserted, -⟩ := partition_exact .byYear (early ++ late)
  obtain ⟨-, -, -, ⟨-, hown⟩, ⟨-, -, hname, -⟩, hparts⟩ := partition_exact .byYear early
  have hmem : record 987 "a" ∈ early := List.mem_cons_self
  obtain ⟨s, hs, hid, hcount, -⟩ := hown _ hmem
  have hlate : "-4" ∈ (partition .byYear late).map Shard.id := by
    rw [map_id_partition]
    exact mem_ids.2 ⟨record (-4) "a", List.mem_cons_self, rfl⟩
  exact ⟨hinserted.trans (by decide), hmem, ⟨s, hs, hid, hcount⟩,
    hname _ _ _, ((hparts late).2 "-4").2 (.inr hlate)⟩

end EditMining.Shard
