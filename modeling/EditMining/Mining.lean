import EditMining.Distinct
import EditMining.Pattern.Merge
import EditMining.TokenDiff

/-!
# Mining frequent patterns

Every list of tokens that is a sub-sequence of enough sequences of a corpus is a
pattern. They are found by growing: a pattern is extended by one token at a
time, and to count how often an extension occurs it is enough to look at what
follows, in each sequence, the first place where the pattern is complete. These
are the pattern's *rests*; there are as many of them as sequences support it.

Patterns that still have to be reported and extended wait on a stack. Each round
reports the one on top and puts its frequent extensions in its place, those with
more support first and, of equal supports, in the order of their tokens. Since
the rests of an extension are shorter, and tokens of one rest lead to rests of
different lengths, a pattern weighs more than all its extensions together.
-/

namespace EditMining

namespace Mining

/-- What follows the first occurrence of a token. -/
def restBehind (t : Token) : TokenSequence → Option TokenSequence
  | [] => none
  | u :: rest => if u = t then some rest else restBehind t rest

/-- What follows the first occurrence of a token, in each sequence that has
it. -/
def restsBehind (t : Token) (sequences : List TokenSequence) : List TokenSequence :=
  sequences.filterMap (restBehind t)

/-- A pattern that still has to be reported and extended. -/
structure Frame where
  tokens : List Token
  rests : List TokenSequence
  deriving DecidableEq, Inhabited, Repr

namespace Frame

/-- The number of sequences that the pattern occurs in. -/
def support (f : Frame) : Nat :=
  f.rests.length

def pattern (f : Frame) : Pattern :=
  ⟨f.tokens, f.support⟩

/-- The pattern with one more token. -/
def extended (f : Frame) (t : Token) : Frame :=
  ⟨f.tokens ++ [t], restsBehind t f.rests⟩

/-- Whether a pattern is reported no later than another extension of the same
pattern. -/
def le (f g : Frame) : Bool :=
  f.pattern.supportLe g.pattern

/-- The frequent extensions of a pattern, in the order in which they are
reported. -/
def extensions (minSupport : Nat) (f : Frame) : List Frame :=
  (((distinct f.rests.flatten).map f.extended).filter fun g => minSupport ≤ g.support).mergeSort le

/-- The pattern without tokens, which occurs everywhere. -/
def root (sequences : List TokenSequence) : Frame :=
  ⟨[], sequences⟩

end Frame

/-! ## Weights -/

/-- One less than the number of sub-sequences of a rest. -/
def restWeight (rest : TokenSequence) : Nat :=
  2 ^ rest.length - 1

/-- How many patterns a frame may still give, itself among them. -/
def Frame.weight (f : Frame) : Nat :=
  1 + (f.rests.map restWeight).sum

def stackWeight (stack : List Frame) : Nat :=
  (stack.map Frame.weight).sum

/-- The number of sub-sequences of a sequence that begin with a token. -/
def headWeight (t : Token) (s : TokenSequence) : Nat :=
  match restBehind t s with
  | some rest => 2 ^ rest.length
  | none => 0

theorem headWeight_cons (t u : Token) (s : TokenSequence) :
    headWeight t (u :: s) = if u = t then 2 ^ s.length else headWeight t s := by
  by_cases h : u = t <;> simp [headWeight, restBehind, h]

theorem sum_map_add {α : Type} (f g : α → Nat) (xs : List α) :
    (xs.map fun x => f x + g x).sum = (xs.map f).sum + (xs.map g).sum := by
  induction xs with
  | nil => rfl
  | cons x rest ih => simp only [List.map_cons, List.sum_cons, ih]; omega

theorem sum_map_le {α : Type} {f g : α → Nat} {xs : List α} (h : ∀ x ∈ xs, f x ≤ g x) :
    (xs.map f).sum ≤ (xs.map g).sum := by
  induction xs with
  | nil => simp
  | cons x rest ih =>
      simp only [List.map_cons, List.sum_cons]
      have := h x (by simp)
      have := ih fun y hy => h y (List.mem_cons_of_mem _ hy)
      omega

theorem sum_map_comm {α β : Type} (f : α → β → Nat) (xs : List α) (ys : List β) :
    (xs.map fun x => (ys.map (f x)).sum).sum = (ys.map fun y => (xs.map (f · y)).sum).sum := by
  induction ys with
  | nil => induction xs <;> simp_all
  | cons y rest ih => simp only [List.map_cons, List.sum_cons, sum_map_add, ih]

theorem sum_filter_le {α : Type} (f : α → Nat) (p : α → Bool) (xs : List α) :
    ((xs.filter p).map f).sum ≤ (xs.map f).sum := by
  induction xs with
  | nil => simp
  | cons x rest ih =>
      by_cases h : p x
      · simp only [h, List.filter_cons_of_pos, List.map_cons, List.sum_cons]
        omega
      · simp only [h, List.map_cons, List.sum_cons, List.filter_cons_of_neg, Bool.false_eq_true,
          not_false_eq_true]
        omega

/-- Only one token of a list without repetitions is the first of a sequence. -/
theorem sum_headWeight_cons_le (u : Token) (s : TokenSequence) {ts : List Token} (h : ts.Nodup) :
    (ts.map (headWeight · (u :: s))).sum ≤ 2 ^ s.length + (ts.map (headWeight · s)).sum := by
  induction ts with
  | nil => simp
  | cons t ts ih =>
      obtain ⟨hnot, hnodup⟩ := List.nodup_cons.1 h
      simp only [List.map_cons, List.sum_cons, headWeight_cons]
      by_cases hu : u = t
      · have : (ts.map fun t => if u = t then 2 ^ s.length else headWeight t s)
            = ts.map (headWeight · s) := by
          refine List.map_congr_left fun t' ht' => ?_
          have : u ≠ t' := by
            rintro rfl
            exact hnot (hu ▸ ht')
          simp [this]
        rw [this, if_pos hu]
        omega
      · have := ih hnodup
        simp only [headWeight_cons] at this
        rw [if_neg hu]
        omega

/-- The sub-sequences that begin with one of some tokens are fewer than all. -/
theorem sum_headWeight_lt (s : TokenSequence) {ts : List Token} (h : ts.Nodup) :
    (ts.map (headWeight · s)).sum ≤ restWeight s := by
  induction s with
  | nil => induction ts <;> simp_all [headWeight, restBehind, restWeight]
  | cons u s ih =>
      have := sum_headWeight_cons_le u s h
      have hpos : 0 < 2 ^ s.length := Nat.two_pow_pos _
      simp only [restWeight, List.length_cons, Nat.pow_succ] at ih ⊢
      omega

theorem restBehind_isSome_of_mem {t : Token} {s : TokenSequence} (h : t ∈ s) :
    (restBehind t s).isSome := by
  induction s with
  | nil => simp at h
  | cons u s ih =>
      by_cases hu : u = t
      · simp [restBehind, hu]
      · rw [restBehind, if_neg hu]
        exact ih ((List.mem_cons.1 h).resolve_left fun e => hu e.symm)

/-- Each rest takes one from the weight of its sequence. -/
theorem sum_restsBehind (t : Token) (sequences : List TokenSequence) :
    ((restsBehind t sequences).map restWeight).sum + (restsBehind t sequences).length
      = (sequences.map (headWeight t)).sum := by
  induction sequences with
  | nil => rfl
  | cons s rest ih =>
      simp only [restsBehind] at ih
      cases hs : restBehind t s with
      | none => simpa [restsBehind, hs, headWeight] using ih
      | some r =>
          have hpos : 0 < 2 ^ r.length := Nat.two_pow_pos _
          simp only [restsBehind, List.filterMap_cons, hs, List.map_cons, List.sum_cons,
            List.length_cons, restWeight, headWeight] at ih ⊢
          omega

theorem weight_extended_le (f : Frame) {t : Token} (h : t ∈ f.rests.flatten) :
    (f.extended t).weight ≤ (f.rests.map (headWeight t)).sum := by
  have hsum := sum_restsBehind t f.rests
  have hpos : 0 < (restsBehind t f.rests).length := by
    obtain ⟨s, hs, ht⟩ := List.mem_flatten.1 h
    obtain ⟨r, hr⟩ := Option.isSome_iff_exists.1 (restBehind_isSome_of_mem ht)
    exact List.length_pos_of_mem (List.mem_filterMap.2 ⟨s, hs, hr⟩)
  simp only [Frame.weight, Frame.extended]
  omega

/-- A pattern weighs more than all its extensions together. -/
theorem stackWeight_extensions_lt (minSupport : Nat) (f : Frame) :
    stackWeight (f.extensions minSupport) < f.weight := by
  have hperm : stackWeight (f.extensions minSupport)
      = stackWeight (((distinct f.rests.flatten).map f.extended).filter
          fun g => minSupport ≤ g.support) :=
    ((List.mergeSort_perm _ _).map _).sum_nat
  have hfilter := sum_filter_le Frame.weight (fun g => decide (minSupport ≤ g.support))
    ((distinct f.rests.flatten).map f.extended)
  have hextended : (((distinct f.rests.flatten).map f.extended).map Frame.weight).sum
      ≤ ((distinct f.rests.flatten).map fun t => (f.rests.map (headWeight t)).sum).sum := by
    rw [List.map_map]
    exact sum_map_le fun t ht => weight_extended_le f (mem_distinct.1 ht)
  have hrests : (f.rests.map fun s => ((distinct f.rests.flatten).map (headWeight · s)).sum).sum
      ≤ (f.rests.map restWeight).sum :=
    sum_map_le fun s _ => sum_headWeight_lt s (nodup_distinct _)
  rw [sum_map_comm] at hextended
  rw [hperm]
  simp only [stackWeight, Frame.weight] at *
  omega

/-- Report the patterns on a stack and all that grow out of them. -/
def mineFrom (minSupport : Nat) (stack : List Frame) : List Pattern :=
  match stack with
  | [] => []
  | f :: rest => f.pattern :: mineFrom minSupport (f.extensions minSupport ++ rest)
termination_by stackWeight stack
decreasing_by
  have := stackWeight_extensions_lt minSupport f
  simp only [stackWeight, List.map_append, List.sum_append, List.map_cons, List.sum_cons] at *
  omega

end Mining

/-- How many sequences a pattern has to occur in, and how long a sequence may be
to be looked at. -/
structure Miner where
  minSupport : Nat
  maxLength : Nat
  minSupport_pos : 0 < minSupport

/-- What mining a corpus gives: the patterns in the order in which they are
found, and the sequences that were too long. -/
structure MiningOutcome where
  patterns : List Pattern
  oversized : List TokenSequence
  deriving DecidableEq, Inhabited, Repr

namespace Miner

/-- The miner with some limits. -/
def create (minSupport maxLength : Nat) : Result Miner :=
  if h : 0 < minSupport then .ok ⟨minSupport, maxLength, h⟩
  else
    .error
      (.mismatch "min_support must be a positive integer" "min_support" ">= 1" minSupport.repr)

/-- Whether a sequence is looked at. -/
def isMinable (m : Miner) (s : TokenSequence) : Bool :=
  s.length ≤ m.maxLength

/-- All frequent patterns of a corpus. -/
def mine (m : Miner) (corpus : List TokenSequence) : MiningOutcome :=
  { patterns :=
      Mining.mineFrom m.minSupport
        ((Mining.Frame.root (corpus.filter m.isMinable)).extensions m.minSupport)
    oversized := corpus.filter fun s => !m.isMinable s }

end Miner

/-- A pattern that says something about an edit: it has more than one token, and
not all of them are kept. -/
def Pattern.isChangePattern (p : Pattern) : Bool :=
  1 < p.tokens.length && p.hasEdit

/-- The patterns that say something about an edit. -/
def changePatterns (ps : List Pattern) : List Pattern :=
  ps.filter Pattern.isChangePattern

end EditMining
