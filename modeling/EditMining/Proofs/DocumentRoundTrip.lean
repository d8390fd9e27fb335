import EditMining.Documents
import EditMining.Proofs.JsonRoundTrip

/-!
# Patterns and corpora read back

Tokens are written with a sign in front of any text whatever, so the document of
a list of patterns, and that of a corpus, says all there is to say of it. The
numbers in these documents are supports: as long as they fit a word, the text
that is written gives the list again (`decode_patterns`, `ofJson_corpus`).
-/

namespace EditMining

open Json

theorem mapM_map_eq_some {α : Type} {read : Json → Option α} {write : α → Json} {xs : List α}
    (h : ∀ x ∈ xs, read (write x) = some x) : (xs.map write).mapM read = some xs := by
  induction xs with
  | nil => rfl
  | cons x rest ih =>
      rw [List.map_cons, List.mapM_cons, h x List.mem_cons_self,
        ih fun y hy => h y (List.mem_cons_of_mem x hy)]
      rfl

theorem Token.ofJson?_toJson (t : Token) : Token.ofJson? t.toJson = some t := by
  rw [Token.ofJson?, Token.toJson, asString, Option.bind_some, Token.parse_render]
  rfl

theorem haveCountsOnly_map {α : Type} {write : α → Json} {xs : List α}
    (h : ∀ x ∈ xs, (write x).hasCountsOnly = true) : haveCountsOnly (xs.map write) = true := by
  rw [haveCountsOnly_iff]
  intro v hv
  obtain ⟨x, hx, rfl⟩ := List.mem_map.1 hv
  exact h x hx

/-! ## Patterns -/

namespace Pattern

theorem ofJson?_toJson (p : Pattern) : ofJson? p.toJson = some p := by
  have htokens : asList Token.ofJson? (.array (p.tokens.map Token.toJson)) = some p.tokens :=
    mapM_map_eq_some fun t _ => t.ofJson?_toJson
  have hfields : fields [["pattern"], ["support"]] p.toJson =
      some [some (.array (p.tokens.map Token.toJson)), some (.natural p.support)] := rfl
  simp [ofJson?, hfields, required, htokens, asNatural]

theorem hasCountsOnly_toJson {p : Pattern} (h : p.support < Decimal.wordLimit) :
    p.toJson.hasCountsOnly = true := by
  have htokens : haveCountsOnly (p.tokens.map Token.toJson) = true :=
    haveCountsOnly_map fun t _ => rfl
  simp [toJson, members, hasCountsOnly, membersHaveCountsOnly, htokens, h]

/-- A list of patterns as it is written. -/
def document (ps : List Pattern) : Json :=
  .array (ps.map toJson)

end Pattern

theorem decode_patterns {ps : List Pattern} (h : ∀ p ∈ ps, p.support < Decimal.wordLimit) :
    decode (asList Pattern.ofJson?) (Pattern.document ps).pretty = some ps := by
  have hcounts : (Pattern.document ps).hasCountsOnly = true :=
    haveCountsOnly_map fun p hp => Pattern.hasCountsOnly_toJson (h p hp)
  rw [decode_pretty _ hcounts]
  exact mapM_map_eq_some fun p _ => p.ofJson?_toJson

/-! ## Corpora -/

namespace Corpus

theorem sequenceOfJson_tokens (index : Nat) (s : TokenSequence) :
    sequenceOfJson index (.array (s.map Token.toJson)) = .ok s := by
  rw [sequenceOfJson]
  induction s with
  | nil => rfl
  | cons t rest ih =>
      rw [List.map_cons, List.mapM_cons, ih, Token.toJson, tokenOfJson, Token.parse_render]
      rfl

theorem sequencesFrom_corpus (index : Nat) (corpus : List TokenSequence) :
    sequencesFrom index (corpus.map fun s => .array (s.map Token.toJson)) = .ok corpus := by
  induction corpus generalizing index with
  | nil => rfl
  | cons s rest ih =>
      rw [List.map_cons, sequencesFrom, sequenceOfJson_tokens, ih]
      rfl

theorem ofJson_toJson (corpus : List TokenSequence) : ofJson (toJson corpus) = .ok corpus :=
  sequencesFrom_corpus 0 corpus

theorem hasCountsOnly_toJson (corpus : List TokenSequence) :
    (toJson corpus).hasCountsOnly = true :=
  haveCountsOnly_map fun _ _ => haveCountsOnly_map fun _ _ => rfl

theorem areReadable_map {α : Type} {write : α → Json} {xs : List α}
    (h : ∀ x ∈ xs, (write x).isReadable = true) : areReadable (xs.map write) = true := by
  induction xs with
  | nil => rfl
  | cons x rest ih =>
      rw [List.map_cons, areReadable, h x List.mem_cons_self,
        ih fun y hy => h y (List.mem_cons_of_mem x hy)]
      rfl

theorem depthOfItems_map_le {α : Type} {write : α → Json} {xs : List α} {n : Nat}
    (h : ∀ x ∈ xs, (write x).depth ≤ n) : depthOfItems (xs.map write) ≤ n := by
  induction xs with
  | nil => exact Nat.zero_le n
  | cons x rest ih =>
      rw [List.map_cons, depthOfItems]
      exact Nat.max_le.2 ⟨h x List.mem_cons_self,
        ih fun y hy => h y (List.mem_cons_of_mem x hy)⟩

/-- The document of a corpus is whole: it is nested two deep, however long. -/
theorem isWhole_toJson (corpus : List TokenSequence) : (toJson corpus).isWhole = true := by
  have hdepth : (toJson corpus).depth ≤ 2 := by
    refine Nat.succ_le_succ (depthOfItems_map_le fun s _ => ?_)
    exact Nat.succ_le_succ (depthOfItems_map_le fun t _ => Nat.le_refl 0)
  have hreadable : (toJson corpus).isReadable = true :=
    areReadable_map fun s _ => areReadable_map fun t _ => rfl
  rw [isWhole, hreadable, Bool.true_and, decide_eq_true_eq]
  exact Nat.le_trans hdepth (by decide)

end Corpus

theorem decode_corpus (corpus : List TokenSequence) :
    decode (fun v => if v.isWhole then some v else none) (Corpus.toJson corpus).pretty =
      some (Corpus.toJson corpus) := by
  rw [decode_pretty _ (Corpus.hasCountsOnly_toJson corpus), if_pos (Corpus.isWhole_toJson corpus)]

end EditMining
