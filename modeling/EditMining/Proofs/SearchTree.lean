import EditMining.Mining
import EditMining.Proofs.Order
import Mathlib.Algebra.Order.BigOperators.Group.List
import Mathlib.Algebra.Order.Group.Nat
import Mathlib.Data.List.Nodup

/-!
# The search tree of the miner

The miner keeps a stack of frames, and a frame keeps only what follows its
tokens in each sequence. This file says what the stack stands for.

A frame's rests are the ends behind the leftmost embedding of its tokens:
`restAfter` follows that embedding through a whole list of tokens, and it is
there exactly when the tokens are a sub-sequence at all. So a frame that grew
out of the root is determined by the corpus and its tokens
(`Frame.ofTokens`), and its support is the number of sequences that contain
the tokens (`supportIn`). Every extension is again such a frame.

The stack is a tree walked depth first. `grown` is the subtree of one frame,
and a stack gives the subtrees of its frames one after the other, so facts
about the whole run are facts about a subtree, proved from those about its
children: `growth_induction` is that principle, with the termination measure
of the miner inside.
-/

namespace EditMining.Mining

/-! ## Leftmost embeddings -/

/-- What follows the leftmost embedding of some tokens in a sequence. -/
def restAfter : List Token → TokenSequence → Option TokenSequence
  | [], s => some s
  | t :: ts, s => (restBehind t s).bind (restAfter ts)

theorem restAfter_append (ts us : List Token) (s : TokenSequence) :
    restAfter (ts ++ us) s = (restAfter ts s).bind (restAfter us) := by
  induction ts generalizing s with
  | nil => rfl
  | cons t ts ih =>
      rw [List.cons_append, restAfter, restAfter, Option.bind_assoc]
      exact Option.bind_congr fun r _ => ih r

/-- An embedding can always be moved so that its first token is matched with
the first occurrence. -/
theorem cons_sublist_iff {t : Token} {ts : List Token} {s : TokenSequence} :
    (t :: ts).Sublist s ↔ ∃ r, restBehind t s = some r ∧ ts.Sublist r := by
  induction s with
  | nil => simp [restBehind]
  | cons u s ih =>
      rw [restBehind]
      split
      · next h =>
          subst h
          rw [List.cons_sublist_cons]
          simp
      · next h =>
          rw [← ih]
          constructor
          · intro hsub
            cases hsub with
            | cons _ hsub => exact hsub
            | cons_cons _ hsub => exact absurd rfl h
          · exact fun hsub => hsub.cons u

/-- The leftmost embedding exists whenever there is one. -/
theorem restAfter_isSome_iff {ts : List Token} {s : TokenSequence} :
    (restAfter ts s).isSome = true ↔ ts.Sublist s := by
  induction ts generalizing s with
  | nil => simp [restAfter]
  | cons t ts ih =>
      rw [cons_sublist_iff, restAfter, Option.isSome_bind, Option.any_eq_true]
      exact exists_congr fun r => and_congr_right fun _ => ih

/-! ## Support -/

/-- The number of sequences of a corpus that contain some tokens in order, gaps
allowed. -/
def supportIn (corpus : List TokenSequence) (ts : List Token) : Nat :=
  corpus.countP fun s => ts.Sublist s

theorem supportIn_pos {corpus : List TokenSequence} {ts : List Token} :
    0 < supportIn corpus ts ↔ ∃ s ∈ corpus, ts.Sublist s := by
  simp [supportIn, List.countP_pos_iff]

theorem supportIn_anti (corpus : List TokenSequence) {ts us : List Token} (h : ts.Sublist us) :
    supportIn corpus us ≤ supportIn corpus ts := by
  refine List.countP_mono_left fun s _ hus => ?_
  rw [decide_eq_true_eq] at hus ⊢
  exact h.trans hus

theorem supportIn_perm {corpus corpus' : List TokenSequence} (h : corpus.Perm corpus')
    (ts : List Token) : supportIn corpus ts = supportIn corpus' ts :=
  h.countP_eq _

theorem supportIn_flatMap {α : Type} (f : α → List TokenSequence) (xs : List α) (ts : List Token) :
    supportIn (xs.flatMap f) ts = (xs.map fun x => supportIn (f x) ts).sum := by
  rw [supportIn, List.countP_flatMap]
  rfl

/-! ## Frames that grew out of the root -/

def Frame.ofTokens (corpus : List TokenSequence) (ts : List Token) : Frame :=
  ⟨ts, corpus.filterMap (restAfter ts)⟩

namespace Frame

variable {corpus : List TokenSequence} {ts : List Token} {minSupport : Nat}

theorem root_eq_ofTokens (corpus : List TokenSequence) : root corpus = ofTokens corpus [] := by
  rw [root, ofTokens, show restAfter [] = some from rfl, List.filterMap_some]

@[simp] theorem support_ofTokens : (ofTokens corpus ts).support = supportIn corpus ts := by
  rw [support, ofTokens, supportIn, List.length_filterMap_eq_countP]
  refine List.countP_congr fun s _ => ?_
  rw [restAfter_isSome_iff, decide_eq_true_eq]

@[simp] theorem pattern_ofTokens :
    (ofTokens corpus ts).pattern = ⟨ts, supportIn corpus ts⟩ := by
  rw [pattern, support_ofTokens]
  rfl

theorem extended_ofTokens (corpus : List TokenSequence) (ts : List Token) (t : Token) :
    (ofTokens corpus ts).extended t = ofTokens corpus (ts ++ [t]) := by
  rw [extended, ofTokens, ofTokens, restsBehind, List.filterMap_filterMap]
  congr 2
  funext s
  rw [restAfter_append]
  refine Option.bind_congr fun r _ => ?_
  rw [restAfter]
  cases restBehind t r with
  | none => rfl
  | some r => rfl

theorem mem_rests_ofTokens {t : Token} :
    t ∈ (ofTokens corpus ts).rests.flatten ↔ 0 < supportIn corpus (ts ++ [t]) := by
  rw [supportIn_pos, List.mem_flatten]
  constructor
  · rintro ⟨r, hr, ht⟩
    obtain ⟨s, hs, hrest⟩ := List.mem_filterMap.1 hr
    refine ⟨s, hs, restAfter_isSome_iff.1 ?_⟩
    rw [restAfter_append, hrest, Option.bind_some, restAfter_isSome_iff]
    exact List.singleton_sublist.2 ht
  · rintro ⟨s, hs, hsub⟩
    rw [← restAfter_isSome_iff, restAfter_append, Option.isSome_bind, Option.any_eq_true] at hsub
    obtain ⟨r, hr, ht⟩ := hsub
    exact ⟨r, List.mem_filterMap.2 ⟨s, hs, hr⟩,
      List.singleton_sublist.1 (restAfter_isSome_iff.1 ht)⟩

theorem mem_extensions_ofTokens (hpos : 0 < minSupport) {g : Frame} :
    g ∈ (ofTokens corpus ts).extensions minSupport ↔
      ∃ t, g = ofTokens corpus (ts ++ [t]) ∧ minSupport ≤ supportIn corpus (ts ++ [t]) := by
  rw [extensions, List.mem_mergeSort, List.mem_filter, List.mem_map, decide_eq_true_eq]
  constructor
  · rintro ⟨⟨t, -, rfl⟩, hg⟩
    rw [extended_ofTokens] at hg ⊢
    exact ⟨t, rfl, by rwa [support_ofTokens] at hg⟩
  · rintro ⟨t, rfl, ht⟩
    refine ⟨⟨t, ?_, extended_ofTokens corpus ts t⟩, by rwa [support_ofTokens]⟩
    exact mem_distinct.2 (mem_rests_ofTokens.2 (Nat.lt_of_lt_of_le hpos ht))

theorem map_pattern_extensions (minSupport : Nat) (f : Frame) :
    (f.extensions minSupport).map pattern =
      ((((distinct f.rests.flatten).map f.extended).filter
        fun g => minSupport ≤ g.support).map pattern).mergeSort Pattern.supportLe :=
  List.map_mergeSort fun _ _ _ _ => rfl

theorem nodup_map_extended (f : Frame) {us : List Token} (h : us.Nodup) :
    ((us.map f.extended).map pattern).Nodup := by
  rw [List.map_map]
  refine h.map fun t u htu => ?_
  have htokens : f.tokens ++ [t] = f.tokens ++ [u] := congrArg Pattern.tokens htu
  simpa using htokens

/-- Siblings come with strictly descending support, ties with ascending
tokens. -/
theorem pairwise_extensions (minSupport : Nat) (f : Frame) :
    ((f.extensions minSupport).map pattern).Pairwise fun p q => p.supportOrder q = .lt := by
  rw [map_pattern_extensions]
  refine pairwise_mergeSort_lt ?_
  exact ((List.filter_sublist).map pattern).nodup (nodup_map_extended f (nodup_distinct _))

end Frame

/-! ## Subtrees -/

/-- The patterns reported from one frame on: its own and those of all that
grows out of it. -/
def grown (minSupport : Nat) (f : Frame) : List Pattern :=
  mineFrom minSupport [f]

theorem mineFrom_append (minSupport : Nat) (s t : List Frame) :
    mineFrom minSupport (s ++ t) = mineFrom minSupport s ++ mineFrom minSupport t := by
  fun_induction mineFrom minSupport s with
  | case1 => rfl
  | case2 f rest ih =>
      rw [List.cons_append, mineFrom, ← List.append_assoc, ih, List.cons_append]

/-- A stack gives the subtrees of its frames, the top one first. -/
theorem mineFrom_eq_flatMap (minSupport : Nat) (stack : List Frame) :
    mineFrom minSupport stack = stack.flatMap (grown minSupport) := by
  induction stack with
  | nil => rw [mineFrom, List.flatMap_nil]
  | cons f rest ih =>
      rw [List.flatMap_cons, ← ih, grown, ← mineFrom_append, List.singleton_append]

theorem grown_eq (minSupport : Nat) (f : Frame) :
    grown minSupport f = f.pattern :: (f.extensions minSupport).flatMap (grown minSupport) := by
  rw [grown, mineFrom, List.append_nil, mineFrom_eq_flatMap]

theorem weight_lt_of_mem_extensions {minSupport : Nat} {f g : Frame}
    (h : g ∈ f.extensions minSupport) : g.weight < f.weight :=
  Nat.lt_of_le_of_lt (List.le_sum_of_mem (List.mem_map_of_mem h))
    (stackWeight_extensions_lt minSupport f)

/-- What holds of some tokens as soon as it holds of all their frequent
extensions holds of all tokens. -/
theorem growth_induction (corpus : List TokenSequence) {minSupport : Nat} (hpos : 0 < minSupport)
    {motive : List Token → Prop}
    (step : ∀ ts, (∀ t, minSupport ≤ supportIn corpus (ts ++ [t]) → motive (ts ++ [t])) →
      motive ts) (ts : List Token) : motive ts := by
  -- The measure is the weight of the frame, which the miner itself ends by.
  induction hn : (Frame.ofTokens corpus ts).weight using Nat.strongRecOn generalizing ts with
  | ind n ih =>
      subst hn
      refine step ts fun t ht => ih _ ?_ _ rfl
      exact weight_lt_of_mem_extensions
        ((Frame.mem_extensions_ofTokens hpos).2 ⟨t, rfl, ht⟩)

end EditMining.Mining
