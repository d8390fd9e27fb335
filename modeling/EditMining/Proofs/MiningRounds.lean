import EditMining.Proofs.Mining
import Mathlib.Logic.Function.Iterate

/-!
# The stack of the miner empties

A round of the miner takes one frame off the stack and may put many in its place,
so the stack can grow for a long time. What goes down with every round is its
weight, the number of patterns that its frames may still give
(`stackWeight_round_lt`). So there are no more rounds than the weight of the first
stack, and that is the number of non-empty sub-sequences of the minable sequences
at most, each counted as often as it can be cut out.

A round reports one pattern, the one on top. Hence the patterns not yet reported
after some rounds are what is mined from the stack as it is then (`drop_mineFrom`),
and from this the stack is empty just when all have been reported.

What is on the stack is always a frame of a frequent pattern (`Frame.IsFrequent`).
Some minable sequence contains its tokens, so there are no more of them than that
sequence has.
-/

namespace EditMining

namespace Mining

/-- One round of the miner: the frame on top of the stack gives way to its frequent
extensions. -/
def round (minSupport : Nat) : List Frame → List Frame
  | [] => []
  | f :: rest => f.extensions minSupport ++ rest

variable {minSupport : Nat} {stack : List Frame}

/-! ## Rounds and reported patterns -/

theorem mineFrom_cons (f : Frame) (rest : List Frame) :
    mineFrom minSupport (f :: rest) =
      f.pattern :: mineFrom minSupport (round minSupport (f :: rest)) := by
  rw [mineFrom, round]

theorem mineFrom_nil : mineFrom minSupport [] = [] := by
  rw [mineFrom]

theorem mineFrom_eq_nil_iff : mineFrom minSupport stack = [] ↔ stack = [] := by
  cases stack with
  | nil => simp [mineFrom_nil]
  | cons f rest => simp [mineFrom_cons]

/-- The pattern reported next is the one on top. -/
theorem head?_mineFrom :
    (mineFrom minSupport stack).head? = stack.head?.map Frame.pattern := by
  cases stack with
  | nil => rw [mineFrom_nil]; rfl
  | cons f rest => rw [mineFrom_cons, List.head?_cons, List.head?_cons, Option.map_some]

theorem tail_mineFrom :
    (mineFrom minSupport stack).tail = mineFrom minSupport (round minSupport stack) := by
  cases stack with
  | nil => rw [round, mineFrom_nil, List.tail_nil]
  | cons f rest => rw [mineFrom_cons, List.tail_cons]

/-- After some rounds the stack gives the patterns that have not been reported in
them. -/
theorem drop_mineFrom (n : Nat) :
    (mineFrom minSupport stack).drop n = mineFrom minSupport ((round minSupport)^[n] stack) := by
  induction n generalizing stack with
  | zero => rfl
  | succ n ih => rw [Function.iterate_succ_apply, ← ih, ← tail_mineFrom, List.drop_tail]

theorem rounds_eq_nil_iff (n : Nat) :
    (round minSupport)^[n] stack = [] ↔ (mineFrom minSupport stack).length ≤ n := by
  calc
    (round minSupport)^[n] stack = []
        ↔ mineFrom minSupport ((round minSupport)^[n] stack) = [] := mineFrom_eq_nil_iff.symm
    _ ↔ (mineFrom minSupport stack).drop n = [] := by rw [drop_mineFrom]
    _ ↔ (mineFrom minSupport stack).length ≤ n := List.drop_eq_nil_iff

theorem head?_rounds (n : Nat) :
    ((round minSupport)^[n] stack).head?.map Frame.pattern = (mineFrom minSupport stack)[n]? := by
  calc
    ((round minSupport)^[n] stack).head?.map Frame.pattern
        = (mineFrom minSupport ((round minSupport)^[n] stack)).head? := head?_mineFrom.symm
    _ = ((mineFrom minSupport stack).drop n).head? := by rw [drop_mineFrom]
    _ = (mineFrom minSupport stack)[n]? := List.head?_drop

/-! ## The weight of the stack -/

theorem stackWeight_cons (f : Frame) (rest : List Frame) :
    stackWeight (f :: rest) = f.weight + stackWeight rest := by
  rw [stackWeight, List.map_cons, List.sum_cons, stackWeight]

theorem stackWeight_round_lt (h : stack ≠ []) :
    stackWeight (round minSupport stack) < stackWeight stack := by
  cases stack with
  | nil => exact absurd rfl h
  | cons f rest =>
      have happend : stackWeight (round minSupport (f :: rest)) =
          stackWeight (f.extensions minSupport) + stackWeight rest := by
        simp only [round, stackWeight, List.map_append, List.sum_append]
      rw [happend, stackWeight_cons]
      exact Nat.add_lt_add_right (stackWeight_extensions_lt minSupport f) _

/-- There are no more rounds than the stack weighs. -/
theorem length_mineFrom_le (minSupport : Nat) (stack : List Frame) :
    (mineFrom minSupport stack).length ≤ stackWeight stack := by
  fun_induction mineFrom minSupport stack with
  | case1 => exact Nat.zero_le _
  | case2 f rest ih =>
      have hround : stackWeight (f.extensions minSupport ++ rest) < stackWeight (f :: rest) :=
        stackWeight_round_lt (List.cons_ne_nil f rest)
      rw [List.length_cons]
      omega

/-! ## The frames on the stack -/

theorem forall_mem_round {P : Frame → Prop}
    (hextend : ∀ f, P f → ∀ g ∈ f.extensions minSupport, P g) (h : ∀ f ∈ stack, P f) :
    ∀ f ∈ round minSupport stack, P f := by
  cases stack with
  | nil => exact h
  | cons f rest =>
      intro g hg
      rcases List.mem_append.1 hg with hg | hg
      · exact hextend f (h f List.mem_cons_self) g hg
      · exact h g (List.mem_cons_of_mem f hg)

/-- What extensions inherit holds of every frame that is ever on the stack. -/
theorem forall_mem_rounds {P : Frame → Prop}
    (hextend : ∀ f, P f → ∀ g ∈ f.extensions minSupport, P g) (h : ∀ f ∈ stack, P f) (n : Nat) :
    ∀ f ∈ (round minSupport)^[n] stack, P f := by
  induction n with
  | zero => exact h
  | succ n ih =>
      rw [Function.iterate_succ_apply']
      exact forall_mem_round hextend ih

namespace Frame

variable {corpus : List TokenSequence} {f : Frame}

/-- The frame of a pattern that is frequent in a corpus. -/
def IsFrequent (minSupport : Nat) (corpus : List TokenSequence) (f : Frame) : Prop :=
  ∃ ts, f = ofTokens corpus ts ∧ minSupport ≤ supportIn corpus ts

theorem isFrequent_of_mem_extensions (hpos : 0 < minSupport) {ts : List Token}
    (hf : f ∈ (ofTokens corpus ts).extensions minSupport) : f.IsFrequent minSupport corpus := by
  obtain ⟨t, hft, ht⟩ := (mem_extensions_ofTokens hpos).1 hf
  exact ⟨ts ++ [t], hft, ht⟩

theorem IsFrequent.exists_sublist (hpos : 0 < minSupport) (hf : f.IsFrequent minSupport corpus) :
    ∃ s ∈ corpus, f.tokens.Sublist s := by
  obtain ⟨ts, rfl, hts⟩ := hf
  exact supportIn_pos.1 (Nat.lt_of_lt_of_le hpos hts)

end Frame

end Mining

namespace Miner

open Mining

/-- The stack of a miner after so many rounds. The first stack holds the frequent
tokens of the corpus. -/
def stackAfter (m : Miner) (corpus : List TokenSequence) (n : Nat) : List Frame :=
  (round m.minSupport)^[n] ((Frame.root (m.minable corpus)).extensions m.minSupport)

theorem isFrequent_of_mem_stackAfter {m : Miner} {corpus : List TokenSequence} {n : Nat}
    {f : Frame} (hf : f ∈ m.stackAfter corpus n) :
    f.IsFrequent m.minSupport (m.minable corpus) := by
  refine forall_mem_rounds (fun g hg g' hg' => ?_) (fun g hg => ?_) n f hf
  · obtain ⟨ts, rfl, -⟩ := hg
    exact Frame.isFrequent_of_mem_extensions m.minSupport_pos hg'
  · -- The root itself is never on the stack, and it may be rare.
    rw [Frame.root_eq_ofTokens] at hg
    exact Frame.isFrequent_of_mem_extensions m.minSupport_pos hg

theorem length_patterns_le (m : Miner) (corpus : List TokenSequence) :
    (m.mine corpus).patterns.length ≤ ((m.minable corpus).map restWeight).sum := by
  have hrounds : (m.mine corpus).patterns.length ≤
      stackWeight ((Frame.root (m.minable corpus)).extensions m.minSupport) :=
    length_mineFrom_le m.minSupport _
  have hroot : stackWeight ((Frame.root (m.minable corpus)).extensions m.minSupport) <
      1 + ((m.minable corpus).map restWeight).sum :=
    stackWeight_extensions_lt m.minSupport (Frame.root (m.minable corpus))
  omega

/-- The stack of the miner is empty after exactly as many rounds as there are
patterns, each round reporting the one on top. There are at most as many as the
minable sequences have non-empty selections of places, and no frame that is ever
on the stack has more tokens than the longest of these sequences. -/
theorem stack_empties (m : Miner) (corpus : List TokenSequence) :
    let minable := corpus.filter fun s => s.length ≤ m.maxLength
    let patterns := (m.mine corpus).patterns
    (∀ n, m.stackAfter corpus n = [] ↔ patterns.length ≤ n) ∧
      (∀ n, (m.stackAfter corpus n).head?.map Frame.pattern = patterns[n]?) ∧
      patterns.length ≤ (minable.map fun s => 2 ^ s.length - 1).sum ∧
      ∀ n, ∀ f ∈ m.stackAfter corpus n, ∃ s ∈ minable, f.tokens.length ≤ s.length := by
  refine ⟨rounds_eq_nil_iff, head?_rounds, m.length_patterns_le corpus, fun n f hf => ?_⟩
  obtain ⟨s, hs, hsublist⟩ :=
    (isFrequent_of_mem_stackAfter hf).exists_sublist m.minSupport_pos
  exact ⟨s, hs, hsublist.length_le⟩

end Miner

end EditMining
