import EditMining.Proofs.SearchTree

/-!
# Mining is sound, complete and exact

The miner reports every list of tokens that enough sequences of the corpus
contain, each once, with the number of sequences that contain it.

Soundness and completeness are one equivalence about a subtree
(`mem_grown_iff`): what is reported from a frame on are the continuations of
its tokens that are frequent. One direction goes down the tree with the
search; the other needs that a continuation's first token alone is frequent
already, which is where support being antitone enters. Nothing is reported
twice because two siblings differ in a token that all that grows out of them
keeps (`nodup_tokens_grown`).

The same view of the tree says that the list of patterns is a function of the
supports alone (`grown_congr`), so the order of the corpus does not show.
-/

namespace EditMining.Mining

variable {corpus corpus' : List TokenSequence} {minSupport : Nat}

theorem mem_grown_iff (hpos : 0 < minSupport) {ts : List Token} {q : Pattern} :
    q ∈ grown minSupport (Frame.ofTokens corpus ts) ↔
      ∃ us, q = ⟨ts ++ us, supportIn corpus (ts ++ us)⟩ ∧
        (us = [] ∨ minSupport ≤ supportIn corpus (ts ++ us)) := by
  induction ts using growth_induction corpus hpos generalizing q with
  | step ts ih =>
      rw [grown_eq, List.mem_cons, List.mem_flatMap, Frame.pattern_ofTokens]
      constructor
      · rintro (rfl | ⟨g, hg, hq⟩)
        · exact ⟨[], by rw [List.append_nil], .inl rfl⟩
        · obtain ⟨t, rfl, ht⟩ := (Frame.mem_extensions_ofTokens hpos).1 hg
          obtain ⟨us, rfl, hus⟩ := (ih t ht).1 hq
          refine ⟨t :: us, by rw [List.append_cons ts t us], .inr ?_⟩
          rcases hus with rfl | hus
          · exact ht
          · rwa [List.append_cons ts t us]
      · rintro ⟨us, rfl, hus⟩
        cases us with
        | nil => exact .inl (by rw [List.append_nil])
        | cons t us =>
            -- A frequent continuation has a frequent first token.
            have hlong : minSupport ≤ supportIn corpus (ts ++ t :: us) :=
              hus.resolve_left (List.cons_ne_nil t us)
            have hfirst : (ts ++ [t]).Sublist (ts ++ t :: us) :=
              (List.Sublist.refl ts).append (List.singleton_sublist.2 List.mem_cons_self)
            have ht : minSupport ≤ supportIn corpus (ts ++ [t]) :=
              Nat.le_trans hlong (supportIn_anti corpus hfirst)
            refine .inr ⟨_, (Frame.mem_extensions_ofTokens hpos).2 ⟨t, rfl, ht⟩, ?_⟩
            exact (ih t ht).2 ⟨us, by rw [List.append_cons], .inr (by rwa [← List.append_cons])⟩

theorem prefix_of_mem_grown (hpos : 0 < minSupport) {ts us : List Token}
    (h : us ∈ (grown minSupport (Frame.ofTokens corpus ts)).map Pattern.tokens) : ts <+: us := by
  obtain ⟨q, hq, rfl⟩ := List.mem_map.1 h
  obtain ⟨us, rfl, -⟩ := (mem_grown_iff hpos).1 hq
  exact List.prefix_append ts us

theorem disjoint_grown (hpos : 0 < minSupport) {ts : List Token} {t u : Token} (h : t ≠ u) :
    List.Disjoint ((grown minSupport (Frame.ofTokens corpus (ts ++ [t]))).map Pattern.tokens)
      ((grown minSupport (Frame.ofTokens corpus (ts ++ [u]))).map Pattern.tokens) := by
  intro us ht hu
  obtain ⟨vs, hvs⟩ := prefix_of_mem_grown hpos ht
  obtain ⟨ws, hws⟩ := prefix_of_mem_grown hpos hu
  rw [← hws, List.append_assoc, List.append_assoc, List.append_cancel_left_eq] at hvs
  simp only [List.cons_append, List.nil_append, List.cons.injEq] at hvs
  exact h hvs.1

theorem nodup_tokens_grown (hpos : 0 < minSupport) (ts : List Token) :
    ((grown minSupport (Frame.ofTokens corpus ts)).map Pattern.tokens).Nodup := by
  induction ts using growth_induction corpus hpos with
  | step ts ih =>
      rw [grown_eq, List.map_cons, List.nodup_cons, List.map_flatMap, List.nodup_flatMap,
        Frame.pattern_ofTokens]
      refine ⟨?_, ?_, ?_⟩
      · -- All below the frame are longer than its own tokens.
        intro h
        obtain ⟨g, hg, hts⟩ := List.mem_flatMap.1 h
        obtain ⟨t, rfl, -⟩ := (Frame.mem_extensions_ofTokens hpos).1 hg
        have hlen := (prefix_of_mem_grown hpos hts).length_le
        rw [List.length_append, List.length_singleton] at hlen
        exact Nat.not_succ_le_self _ hlen
      · intro g hg
        obtain ⟨t, rfl, ht⟩ := (Frame.mem_extensions_ofTokens hpos).1 hg
        exact ih t ht
      · refine List.Pairwise.imp_of_mem ?_
          (List.pairwise_map.1 (Frame.pairwise_extensions minSupport (Frame.ofTokens corpus ts)))
        intro g g' hg hg' hlt
        obtain ⟨t, rfl, -⟩ := (Frame.mem_extensions_ofTokens hpos).1 hg
        obtain ⟨u, rfl, -⟩ := (Frame.mem_extensions_ofTokens hpos).1 hg'
        refine disjoint_grown hpos ?_
        rintro rfl
        exact Std.OrientedCmp.not_lt_of_lt hlt hlt

/-! ## The patterns depend on the supports alone -/

theorem map_pattern_extensions_congr (hpos : 0 < minSupport)
    (h : ∀ us, supportIn corpus us = supportIn corpus' us) (ts : List Token) :
    ((Frame.ofTokens corpus ts).extensions minSupport).map Frame.pattern =
      ((Frame.ofTokens corpus' ts).extensions minSupport).map Frame.pattern := by
  refine eq_of_mem_iff_of_pairwise_lt Pattern.supportOrder (fun q => ?_)
    (Frame.pairwise_extensions _ _) (Frame.pairwise_extensions _ _)
  simp only [List.mem_map, Frame.mem_extensions_ofTokens hpos, h]
  constructor
  · rintro ⟨g, ⟨t, rfl, ht⟩, rfl⟩
    exact ⟨_, ⟨t, rfl, ht⟩, by simp [h]⟩
  · rintro ⟨g, ⟨t, rfl, ht⟩, rfl⟩
    exact ⟨_, ⟨t, rfl, ht⟩, by simp [h]⟩

theorem flatMap_grown_extensions (hpos : 0 < minSupport) (ts : List Token) :
    ((Frame.ofTokens corpus ts).extensions minSupport).flatMap (grown minSupport) =
      (((Frame.ofTokens corpus ts).extensions minSupport).map Frame.pattern).flatMap
        fun p => grown minSupport (Frame.ofTokens corpus p.tokens) := by
  rw [List.flatMap_map]
  refine List.flatMap_congr fun g hg => ?_
  obtain ⟨t, rfl, -⟩ := (Frame.mem_extensions_ofTokens hpos).1 hg
  rw [Frame.pattern_ofTokens]

/-- Two corpora with the same supports give the same patterns in the same
order. -/
theorem grown_congr (hpos : 0 < minSupport)
    (h : ∀ us, supportIn corpus us = supportIn corpus' us) (ts : List Token) :
    grown minSupport (Frame.ofTokens corpus ts) =
      grown minSupport (Frame.ofTokens corpus' ts) := by
  induction ts using growth_induction corpus hpos with
  | step ts ih =>
      rw [grown_eq, grown_eq, Frame.pattern_ofTokens, Frame.pattern_ofTokens, h,
        flatMap_grown_extensions hpos, flatMap_grown_extensions hpos,
        ← map_pattern_extensions_congr hpos h]
      congr 1
      refine List.flatMap_congr fun p hp => ?_
      obtain ⟨g, hg, rfl⟩ := List.mem_map.1 hp
      obtain ⟨t, rfl, ht⟩ := (Frame.mem_extensions_ofTokens hpos).1 hg
      rw [Frame.pattern_ofTokens]
      exact ih t ht

end EditMining.Mining

namespace EditMining.Miner

open EditMining.Mining

variable (m : Miner)

def minable (corpus : List TokenSequence) : List TokenSequence :=
  corpus.filter m.isMinable

/-- Mining is the subtree of the pattern without tokens, which is not reported
itself. -/
theorem grown_root (corpus : List TokenSequence) :
    grown m.minSupport (Frame.ofTokens (m.minable corpus) []) =
      ⟨[], supportIn (m.minable corpus) []⟩ :: (m.mine corpus).patterns := by
  rw [grown_eq, Frame.pattern_ofTokens, mine, mineFrom_eq_flatMap, Frame.root_eq_ofTokens]
  rfl

theorem nodup_cons_tokens_mine (corpus : List TokenSequence) :
    ([] :: (m.mine corpus).patterns.map Pattern.tokens).Nodup := by
  have hroot : ((grown m.minSupport (Frame.ofTokens (m.minable corpus) [])).map
      Pattern.tokens).Nodup := nodup_tokens_grown m.minSupport_pos []
  rwa [grown_root, List.map_cons] at hroot

theorem nodup_tokens_mine (corpus : List TokenSequence) :
    ((m.mine corpus).patterns.map Pattern.tokens).Nodup :=
  (List.nodup_cons.1 (nodup_cons_tokens_mine m corpus)).2

/-- The patterns of a corpus are the frequent token lists with their
supports. -/
theorem mem_patterns_mine {corpus : List TokenSequence} {p : Pattern} :
    p ∈ (m.mine corpus).patterns ↔
      p.tokens ≠ [] ∧ p.support = supportIn (m.minable corpus) p.tokens ∧
        m.minSupport ≤ p.support := by
  have hroot : p ∈ grown m.minSupport (Frame.ofTokens (m.minable corpus) []) ↔ _ :=
    mem_grown_iff m.minSupport_pos
  rw [grown_root] at hroot
  simp only [List.nil_append] at hroot
  constructor
  · intro hp
    have hne : p.tokens ≠ [] := by
      intro h
      have hmem : p.tokens ∈ (m.mine corpus).patterns.map Pattern.tokens :=
        List.mem_map_of_mem hp
      rw [h] at hmem
      exact (List.nodup_cons.1 (nodup_cons_tokens_mine m corpus)).1 hmem
    obtain ⟨us, rfl, hus⟩ := hroot.1 (List.mem_cons_of_mem _ hp)
    exact ⟨hne, rfl, hus.resolve_left hne⟩
  · rintro ⟨hne, hsupport, hfrequent⟩
    have hp : p = ⟨p.tokens, supportIn (m.minable corpus) p.tokens⟩ := by
      rw [← hsupport]
    rcases List.mem_cons.1 (hroot.2 ⟨p.tokens, hp, .inr (hsupport ▸ hfrequent)⟩) with h | h
    · exact absurd (congrArg Pattern.tokens h) hne
    · exact h

theorem patterns_mine_perm {corpus corpus' : List TokenSequence} (h : corpus.Perm corpus') :
    (m.mine corpus).patterns = (m.mine corpus').patterns := by
  have hminable : (m.minable corpus).Perm (m.minable corpus') := h.filter _
  have hgrown := grown_congr m.minSupport_pos (supportIn_perm hminable) []
  rw [grown_root, grown_root, List.cons.injEq] at hgrown
  exact hgrown.2

/-- Each non-empty list of tokens that enough of the minable sequences contain
is reported once, with their number, and nothing else is; the sequences that
are too long are put aside in their order. -/
theorem mine_exact (corpus : List TokenSequence) :
    ((m.mine corpus).patterns.map Pattern.tokens).Nodup ∧
      (∀ p, p ∈ (m.mine corpus).patterns ↔
        p.tokens ≠ [] ∧
        p.support = (corpus.filter fun s => s.length ≤ m.maxLength).countP
          (fun s => p.tokens.Sublist s) ∧
        m.minSupport ≤ p.support) ∧
      (m.mine corpus).oversized = corpus.filter fun s => m.maxLength < s.length := by
  refine ⟨nodup_tokens_mine m corpus, fun p => mem_patterns_mine m, ?_⟩
  refine List.filter_congr fun s _ => ?_
  rw [isMinable, Bool.eq_iff_iff]
  simp

end EditMining.Miner
