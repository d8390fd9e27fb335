import EditMining.Proofs.MiningRounds
import EditMining.Proofs.ReportingOrder
import EditMining.Proofs.Totals

/-!
# Mining over projected databases

A pattern that waits to be reported need not carry its own rests. It can keep the
database of the pattern that it extends, and project that one by its last token when
its turn comes (`turn`). Rests without any token are dropped then: nothing grows out of
them, and the support of the pattern was taken before, when the tokens of the database
were counted, each once for every sequence that it is in (`countsIn`).

Turn by turn such a stack stands for the stack of frames (`forall₂_turns`). The counted
tokens that are frequent are the frequent extensions, in the same order
(`children_eq`), and the frames behind a projection are the ones behind all rests.
So the loop reports what the miner does (`Miner.head?_waitingAfter`).
-/

namespace EditMining

namespace Mining

variable {minSupport n : Nat} {t : Token} {db : List TokenSequence}

/-! ## Counting the tokens of a database -/

/-- The tokens of a sequence counted, save for those that were seen in it before. -/
def countTokens (counts : List (Token × Nat)) (seen : List Token) :
    TokenSequence → List (Token × Nat)
  | [] => counts
  | t :: rest =>
      if t ∈ seen then countTokens counts seen rest
      else countTokens (addTotal t 1 counts) (t :: seen) rest

/-- The tokens of a database, each with the number of sequences that it is in. -/
def countsIn (db : List TokenSequence) : List (Token × Nat) :=
  db.foldl (fun counts s => countTokens counts [] s) []

/-- One for each token of a sequence. -/
def onesOf (s : TokenSequence) : List (Token × Nat) :=
  (distinct s).map (·, 1)

theorem map_fst_onesOf (s : TokenSequence) : (onesOf s).map Prod.fst = distinct s := by
  rw [onesOf, List.map_map]
  exact List.map_id _

theorem countTokens_totalsOf (entries : List (Token × Nat)) (seen : List Token)
    (s : TokenSequence) :
    countTokens (totalsOf entries) seen s =
      totalsOf (entries ++ ((distinct s).filter (· ∉ seen)).map (·, 1)) := by
  induction s generalizing entries seen with
  | nil => simp [countTokens, distinct]
  | cons t rest ih =>
      rw [countTokens, distinct]
      by_cases ht : t ∈ seen
      · have hsame : (distinct rest).filter (· ∉ seen) =
            ((distinct rest).filter (· ≠ t)).filter (· ∉ seen) := by
          rw [List.filter_filter]
          refine List.filter_congr fun u _ => ?_
          by_cases hu : u = t <;> simp [hu, ht]
        rw [if_pos ht, ih, List.filter_cons_of_neg (by simp [ht]), hsame]
      · have hsame : (distinct rest).filter (· ∉ t :: seen) =
            ((distinct rest).filter (· ≠ t)).filter (· ∉ seen) := by
          rw [List.filter_filter]
          refine List.filter_congr fun u _ => ?_
          by_cases hu : u = t <;> simp [hu]
        rw [if_neg ht, ← totalsOf_concat entries (t, 1), ih,
          List.filter_cons_of_pos (by simp [ht]), hsame, List.map_cons, List.append_assoc,
          List.singleton_append]

theorem countsIn_eq (db : List TokenSequence) : countsIn db = totalsOf (db.flatMap onesOf) := by
  have hfold : ∀ entries, db.foldl (fun counts s => countTokens counts [] s) (totalsOf entries) =
      totalsOf (entries ++ db.flatMap onesOf) := by
    induction db with
    | nil => simp
    | cons s rest ih =>
        intro entries
        rw [List.foldl_cons, countTokens_totalsOf, ih, List.flatMap_cons, onesOf]
        simp
  exact hfold []

theorem totalAt_onesOf (s : TokenSequence) (t : Token) :
    totalAt (onesOf s) t = if t ∈ s then 1 else 0 := by
  have hnodup : ((onesOf s).map Prod.fst).Nodup := by
    rw [map_fst_onesOf]
    exact nodup_distinct s
  by_cases ht : t ∈ s
  · have hmem : (t, 1) ∈ onesOf s := List.mem_map_of_mem (mem_distinct.2 ht)
    rw [if_pos ht, ← ((mem_iff_of_nodup_keys hnodup).1 hmem).2]
  · rw [if_neg ht, totalAt_eq_zero]
    rwa [map_fst_onesOf, mem_distinct]

theorem totalAt_flatMap_onesOf (db : List TokenSequence) (t : Token) :
    totalAt (db.flatMap onesOf) t = db.countP (t ∈ ·) := by
  induction db with
  | nil => rfl
  | cons s rest ih =>
      rw [List.flatMap_cons, totalAt_append, totalAt_onesOf, ih, List.countP_cons, Nat.add_comm]
      simp

/-- What is counted of a token is the number of sequences that it is in. -/
theorem mem_countsIn : (t, n) ∈ countsIn db ↔ t ∈ db.flatten ∧ n = db.countP (t ∈ ·) := by
  rw [countsIn_eq, mem_totalsOf, totalAt_flatMap_onesOf, List.map_flatMap]
  simp only [map_fst_onesOf, List.mem_flatMap, mem_distinct, List.mem_flatten]

/-! ## Frequent tokens and frequent extensions -/

/-- Whether a counted token comes no later than another. -/
def countLe (c d : Token × Nat) : Bool :=
  ((compare d.2 c.2).then (compare c.1 d.1)).isLE

/-- The tokens that enough sequences have, more frequent ones first. -/
def frequentTokens (minSupport : Nat) (db : List TokenSequence) : List (Token × Nat) :=
  ((countsIn db).filter fun c => minSupport ≤ c.2).mergeSort countLe

/-- A pattern that waits to be reported, with the database of the pattern that it extends
by its last token. -/
structure Waiting where
  tokens : List Token
  support : Nat
  parent : List TokenSequence

namespace Waiting

def pattern (w : Waiting) : Pattern :=
  ⟨w.tokens, w.support⟩

def ofPattern (parent : List TokenSequence) (p : Pattern) : Waiting :=
  ⟨p.tokens, p.support, parent⟩

end Waiting

/-- The frequent extensions of a pattern with some database. -/
def children (minSupport : Nat) (tokens : List Token) (db : List TokenSequence) : List Waiting :=
  (frequentTokens minSupport db).map fun c => ⟨tokens ++ [c.1], c.2, db⟩

theorem length_restsBehind (t : Token) (db : List TokenSequence) :
    (restsBehind t db).length = db.countP (t ∈ ·) := by
  rw [restsBehind, List.length_filterMap_eq_countP]
  refine List.countP_congr fun s _ => ?_
  rw [decide_eq_true_eq, ← List.singleton_sublist, ← restAfter_isSome_iff, restAfter,
    Option.isSome_bind]
  simp [restAfter]

theorem pattern_extended (tokens : List Token) (db : List TokenSequence) (t : Token) :
    ((Frame.mk tokens db).extended t).pattern = ⟨tokens ++ [t], db.countP (t ∈ ·)⟩ :=
  congrArg (Pattern.mk _) (length_restsBehind t db)

/-- The pattern of some tokens and a counted one. -/
def counted (tokens : List Token) (c : Token × Nat) : Pattern :=
  ⟨tokens ++ [c.1], c.2⟩

theorem map_counted_frequentTokens (tokens : List Token) (db : List TokenSequence) :
    (frequentTokens minSupport db).map (counted tokens) =
      (((countsIn db).filter fun c => minSupport ≤ c.2).map (counted tokens)).mergeSort
        Pattern.supportLe := by
  refine List.map_mergeSort fun c _ d _ => ?_
  rw [countLe, Pattern.supportLe, Pattern.supportOrder, counted, counted, compare_append_singleton]

theorem nodup_map_counted (tokens : List Token) (db : List TokenSequence) :
    ((countsIn db).map (counted tokens)).Nodup := by
  have hkeys : ((countsIn db).map Prod.fst).Nodup := by
    rw [countsIn_eq]
    exact nodup_keys_totalsOf _
  refine List.pairwise_map.2 ((List.pairwise_map.1 hkeys).imp fun hne heq => hne ?_)
  have htokens := congrArg Pattern.tokens heq
  simpa [counted] using htokens

/-- The frequent tokens of a database are those by which its frequent extensions go on. -/
theorem map_counted_eq (tokens : List Token) (db : List TokenSequence) :
    (frequentTokens minSupport db).map (counted tokens) =
      ((Frame.mk tokens db).extensions minSupport).map Frame.pattern := by
  rw [map_counted_frequentTokens, Frame.map_pattern_extensions]
  refine mergeSort_isLE_eq_of_perm ?_
  rw [List.perm_ext_iff_of_nodup]
  · intro p
    simp only [List.mem_map, List.mem_filter, decide_eq_true_eq]
    constructor
    · intro hp
      obtain ⟨⟨t, n⟩, ⟨hcount, hfrequent⟩, rfl⟩ := hp
      obtain ⟨ht, rfl⟩ := mem_countsIn.1 hcount
      refine ⟨_, ⟨⟨t, mem_distinct.2 ht, rfl⟩, ?_⟩, pattern_extended tokens db t⟩
      exact hfrequent.trans_eq (length_restsBehind t db).symm
    · intro hp
      obtain ⟨g, ⟨⟨t, ht, rfl⟩, hfrequent⟩, rfl⟩ := hp
      refine ⟨(t, db.countP fun s => decide (t ∈ s)), ⟨mem_countsIn.2 ⟨mem_distinct.1 ht, rfl⟩, ?_⟩,
        (pattern_extended tokens db t).symm⟩
      exact hfrequent.trans_eq (length_restsBehind t db)
  · exact (List.filter_sublist.map _).nodup (nodup_map_counted tokens db)
  · exact (List.filter_sublist.map _).nodup (Frame.nodup_map_extended _ (nodup_distinct _))

theorem children_eq (minSupport : Nat) (tokens : List Token) (db : List TokenSequence) :
    children minSupport tokens db =
      ((Frame.mk tokens db).extensions minSupport).map fun g => .ofPattern db g.pattern := by
  calc
    children minSupport tokens db
        = ((frequentTokens minSupport db).map (counted tokens)).map (.ofPattern db) := by
          rw [List.map_map]; rfl
    _ = (((Frame.mk tokens db).extensions minSupport).map Frame.pattern).map (.ofPattern db) := by
          rw [map_counted_eq]
    _ = ((Frame.mk tokens db).extensions minSupport).map fun g => .ofPattern db g.pattern :=
          List.map_map

/-! ## Turns -/

/-- What follows the first occurrence of a token, in each sequence where something does. -/
def project (t : Token) (db : List TokenSequence) : List TokenSequence :=
  db.filterMap fun s => (restBehind t s).filter fun rest => !rest.isEmpty

/-- One turn: the pattern on top is reported, its database is made, and the frequent
extensions come in its place. -/
def turn (minSupport : Nat) : List Waiting → List Waiting
  | [] => []
  | w :: rest =>
      match w.tokens.getLast? with
      | none => rest
      | some t =>
          let db := project t w.parent
          if db.isEmpty then rest else children minSupport w.tokens db ++ rest

def nonEmpty (rests : List TokenSequence) : List TokenSequence :=
  rests.filter fun rest => !rest.isEmpty

theorem project_eq (t : Token) (db : List TokenSequence) :
    project t db = nonEmpty (restsBehind t db) :=
  List.filter_filterMap.symm

theorem restsBehind_nonEmpty (t : Token) (rests : List TokenSequence) :
    restsBehind t (nonEmpty rests) = restsBehind t rests := by
  rw [restsBehind, restsBehind, nonEmpty, List.filterMap_filter]
  refine List.filterMap_congr fun rest _ => ?_
  cases rest <;> rfl

/-- Rests without any token lead nowhere. -/
theorem extensions_nonEmpty (minSupport : Nat) (f : Frame) :
    (Frame.mk f.tokens (nonEmpty f.rests)).extensions minSupport = f.extensions minSupport := by
  have hextended : (Frame.mk f.tokens (nonEmpty f.rests)).extended = f.extended := by
    funext t
    rw [Frame.extended, Frame.extended, restsBehind_nonEmpty]
  rw [Frame.extensions, Frame.extensions, hextended, nonEmpty, List.flatten_filter_not_isEmpty]

/-- A waiting pattern and the frame that it stands for. -/
structure StandsFor (w : Waiting) (f : Frame) : Prop where
  pattern_eq : w.pattern = f.pattern
  rests_eq : ∃ t, w.tokens.getLast? = some t ∧ project t w.parent = nonEmpty f.rests

theorem forall₂_children (tokens : List Token) (db : List TokenSequence) :
    List.Forall₂ StandsFor (children minSupport tokens db)
      ((Frame.mk tokens db).extensions minSupport) := by
  rw [children_eq, List.forall₂_map_left_iff, List.forall₂_same]
  intro g hg
  rw [Frame.extensions, List.mem_mergeSort, List.mem_filter, List.mem_map] at hg
  obtain ⟨⟨t, -, rfl⟩, -⟩ := hg
  exact ⟨rfl, t, List.getLast?_concat, project_eq t db⟩

theorem children_nil (minSupport : Nat) (tokens : List Token) :
    children minSupport tokens [] = [] := by
  simp [children, frequentTokens, countsIn]

variable {waiting : List Waiting} {stack : List Frame}

theorem forall₂_turn (h : List.Forall₂ StandsFor waiting stack) :
    List.Forall₂ StandsFor (turn minSupport waiting) (round minSupport stack) := by
  cases h with
  | nil => exact .nil
  | cons hw hrest =>
      next w f waiting stack =>
      obtain ⟨hpattern, t, hlast, hproject⟩ := hw
      have htokens : w.tokens = f.tokens := congrArg Pattern.tokens hpattern
      have hchildren : List.Forall₂ StandsFor
          (children minSupport w.tokens (project t w.parent)) (f.extensions minSupport) := by
        rw [← extensions_nonEmpty, ← hproject, ← htokens]
        exact forall₂_children w.tokens (project t w.parent)
      rw [turn, round, hlast]
      simp only []
      split
      · next hempty =>
          rw [List.isEmpty_iff.1 hempty, children_nil, List.forall₂_nil_left_iff] at hchildren
          rw [hchildren]
          exact hrest
      · exact List.rel_append hchildren hrest

theorem head?_map_pattern (h : List.Forall₂ StandsFor waiting stack) :
    waiting.head?.map Waiting.pattern = stack.head?.map Frame.pattern := by
  cases h with
  | nil => rfl
  | cons hw hrest => exact congrArg some hw.pattern_eq

theorem forall₂_turns (h : List.Forall₂ StandsFor waiting stack) (n : Nat) :
    List.Forall₂ StandsFor ((turn minSupport)^[n] waiting) ((round minSupport)^[n] stack) := by
  induction n with
  | zero => exact h
  | succ n ih =>
      rw [Function.iterate_succ_apply', Function.iterate_succ_apply']
      exact forall₂_turn ih

end Mining

namespace Miner

open Mining

variable (m : Miner) (corpus : List TokenSequence)

/-- The patterns that wait after so many turns. The first ones are the frequent tokens of
the sequences that are looked at and not empty. -/
def waitingAfter (n : Nat) : List Waiting :=
  (turn m.minSupport)^[n] (children m.minSupport [] (nonEmpty (m.minable corpus)))

theorem forall₂_waitingAfter (n : Nat) :
    List.Forall₂ StandsFor (m.waitingAfter corpus n) (m.stackAfter corpus n) := by
  refine forall₂_turns ?_ n
  rw [← extensions_nonEmpty]
  exact forall₂_children [] _

/-- The loop has nothing left to do after as many turns as there are patterns. -/
theorem waitingAfter_eq_nil_iff (n : Nat) :
    m.waitingAfter corpus n = [] ↔ (m.mine corpus).patterns.length ≤ n := by
  have hlength := (m.forall₂_waitingAfter corpus n).length_eq
  calc
    m.waitingAfter corpus n = [] ↔ m.stackAfter corpus n = [] := by
      rw [← List.length_eq_zero_iff, hlength, List.length_eq_zero_iff]
    _ ↔ (m.mine corpus).patterns.length ≤ n := rounds_eq_nil_iff n

/-- What the loop reports, one turn after the other, are the patterns of the miner. -/
theorem head?_waitingAfter (n : Nat) :
    (m.waitingAfter corpus n).head?.map Waiting.pattern = (m.mine corpus).patterns[n]? :=
  (head?_map_pattern (m.forall₂_waitingAfter corpus n)).trans (head?_rounds n)

end Miner

end EditMining
