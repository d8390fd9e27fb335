import EditMining.Proofs.Mining

/-!
# The order in which patterns are reported

The miner's stack is fed with siblings in reverse and interrupted by children,
but what comes out is simply the search tree walked depth first. Two patterns in
it are related by the place where their tokens part. If one ends there, it comes
first; otherwise the two belong to different siblings, and siblings come with
descending support, those of one support with ascending tokens (`Precedes`).

So the order of any two patterns is known from their tokens and the corpus
(`patterns_follow_precedes`), wherever in the tree they are: below one sibling by
induction, below different ones by the siblings' own order, which all that grows
out of them inherits. And since two lists part in one place only, this leaves a
set of patterns no other order (`eq_of_perm_of_pairwise_precedes`).
-/

namespace EditMining

theorem compare_append_singleton (ts : List Token) (t u : Token) :
    compare (ts ++ [t]) (ts ++ [u]) = compare t u := by
  induction ts with
  | nil =>
      rw [List.nil_append, List.nil_append, List.compare_cons_cons, List.compare_nil_nil,
        Ordering.then_eq]
  | cons s ts ih =>
      have hself : compare s s = .eq := Std.ReflCmp.compare_self
      rw [List.cons_append, List.cons_append, List.compare_cons_cons, hself, ih, Ordering.eq_then]

namespace Mining

/-- One list of tokens begins another that is longer, or the two part behind a
common front and the first goes on with more support, or with as much support
and a smaller token. -/
def Precedes (corpus : List TokenSequence) (ts us : List Token) : Prop :=
  (ts <+: us ∧ ts ≠ us) ∨
    ∃ front t u, (front ++ [t]) <+: ts ∧ (front ++ [u]) <+: us ∧ t ≠ u ∧
      (supportIn corpus (front ++ [u]) < supportIn corpus (front ++ [t]) ∨
        supportIn corpus (front ++ [t]) = supportIn corpus (front ++ [u]) ∧ compare t u = .lt)

variable {corpus : List TokenSequence} {minSupport : Nat} {ts us : List Token}

theorem eq_of_prefix_concat {front : List Token} {t u : Token} (ht : (front ++ [t]) <+: ts)
    (hu : (front ++ [u]) <+: ts) : t = u := by
  have hsame : front ++ [t] = front ++ [u] := by
    refine (List.prefix_of_prefix_length_le ht hu ?_).eq_of_length ?_
    · rw [List.length_append, List.length_append, List.length_singleton, List.length_singleton]
    · rw [List.length_append, List.length_append, List.length_singleton, List.length_singleton]
  simpa using hsame

/-- Two lists part in one place only. -/
theorem length_le_of_part {front front' : List Token} {t u t' : Token} (hne : t ≠ u)
    (ht : (front ++ [t]) <+: ts) (hu : (front ++ [u]) <+: us) (ht' : front' <+: ts)
    (hu' : (front' ++ [t']) <+: us) : front'.length ≤ front.length := by
  refine Nat.le_of_not_lt fun hlt => hne ?_
  have hlength : ∀ v : Token, (front ++ [v]).length ≤ front'.length := fun v => by
    rw [List.length_append]
    exact hlt
  have hbehind : (front ++ [u]) <+: front' :=
    List.prefix_of_prefix_length_le hu ((List.prefix_append front' [t']).trans hu') (hlength u)
  exact eq_of_prefix_concat (List.prefix_of_prefix_length_le ht ht' (hlength t)) hbehind

theorem Precedes.asymm (h : Precedes corpus ts us) : ¬Precedes corpus us ts := by
  intro h'
  rcases h with ⟨hbegins, hne⟩ | ⟨front, t, u, ht, hu, hne, hmore⟩
  · rcases h' with ⟨hbegins', -⟩ | ⟨front, t, u, ht, hu, hne', -⟩
    · exact hne (hbegins.eq_of_length_le hbegins'.length_le)
    · exact hne' (eq_of_prefix_concat ht (hu.trans hbegins))
  · rcases h' with ⟨hbegins, -⟩ | ⟨front', t', u', ht', hu', hne', hmore'⟩
    · exact hne (eq_of_prefix_concat ht (hu.trans hbegins))
    · have hfront : front' <+: ts := (List.prefix_append front' [u']).trans hu'
      have hfront' : front <+: us := (List.prefix_append front [u]).trans hu
      have hlength : front.length = front'.length :=
        Nat.le_antisymm (length_le_of_part hne' ht' hu' hfront' ht)
          (length_le_of_part hne ht hu hfront ht')
      obtain rfl : front = front' := by
        have hprefix : front <+: ts := (List.prefix_append front [t]).trans ht
        exact (List.prefix_of_prefix_length_le hprefix hfront hlength.le).eq_of_length hlength
      obtain rfl : t = u' := eq_of_prefix_concat ht hu'
      obtain rfl : u = t' := eq_of_prefix_concat hu ht'
      rcases hmore with hmore | ⟨heq, hlt⟩
      · rcases hmore' with hmore' | ⟨heq, -⟩
        · exact Nat.lt_asymm hmore hmore'
        · exact Nat.ne_of_lt hmore heq
      · rcases hmore' with hmore' | ⟨-, hlt'⟩
        · exact Nat.ne_of_lt hmore' heq
        · exact Std.OrientedCmp.not_lt_of_lt hlt hlt'

/-- What grows out of two siblings is in the order of the siblings. -/
theorem precedes_of_siblings {front : List Token} {t u : Token}
    (hsiblings : (Frame.ofTokens corpus (front ++ [t])).pattern.supportOrder
      (Frame.ofTokens corpus (front ++ [u])).pattern = .lt)
    (ht : (front ++ [t]) <+: ts) (hu : (front ++ [u]) <+: us) : Precedes corpus ts us := by
  have hne : t ≠ u := by
    rintro rfl
    exact Std.OrientedCmp.not_lt_of_lt hsiblings hsiblings
  rw [Frame.pattern_ofTokens, Frame.pattern_ofTokens, Pattern.supportOrder_eq_lt_iff,
    compare_append_singleton] at hsiblings
  exact .inr ⟨front, t, u, ht, hu, hne, hsiblings⟩

theorem pairwise_precedes_grown (hpos : 0 < minSupport) (ts : List Token) :
    ((grown minSupport (Frame.ofTokens corpus ts)).map Pattern.tokens).Pairwise
      (Precedes corpus) := by
  induction ts using growth_induction corpus hpos with
  | step ts ih =>
      have hnodup : ((grown minSupport (Frame.ofTokens corpus ts)).map Pattern.tokens).Nodup :=
        nodup_tokens_grown hpos ts
      have hprefix : ∀ us ∈ (grown minSupport (Frame.ofTokens corpus ts)).map Pattern.tokens,
          ts <+: us := fun us => prefix_of_mem_grown hpos
      rw [grown_eq, List.map_cons, Frame.pattern_ofTokens] at hnodup hprefix ⊢
      refine List.pairwise_cons.2 ⟨fun us hus => .inl ⟨?_, ?_⟩, ?_⟩
      · exact hprefix us (List.mem_cons_of_mem ts hus)
      · rintro rfl
        exact (List.nodup_cons.1 hnodup).1 hus
      · rw [List.map_flatMap, List.pairwise_flatMap]
        constructor
        · intro g hg
          obtain ⟨t, rfl, ht⟩ := (Frame.mem_extensions_ofTokens hpos).1 hg
          exact ih t ht
        · refine List.Pairwise.imp_of_mem ?_
            (List.pairwise_map.1 (Frame.pairwise_extensions minSupport (Frame.ofTokens corpus ts)))
          intro g g' hg hg' hsiblings us hus us' hus'
          obtain ⟨t, rfl, -⟩ := (Frame.mem_extensions_ofTokens hpos).1 hg
          obtain ⟨u, rfl, -⟩ := (Frame.mem_extensions_ofTokens hpos).1 hg'
          exact precedes_of_siblings hsiblings (prefix_of_mem_grown hpos hus)
            (prefix_of_mem_grown hpos hus')

/-- Patterns can be put into one such order only. -/
theorem eq_of_perm_of_pairwise_precedes {ps qs : List Pattern} (h : ps.Perm qs)
    (hps : ps.Pairwise fun p q => Precedes corpus p.tokens q.tokens)
    (hqs : qs.Pairwise fun p q => Precedes corpus p.tokens q.tokens) : ps = qs :=
  h.eq_of_pairwise (fun _ _ _ _ hpq hqp => absurd hqp hpq.asymm) hps hqs

end Mining

/-- Of any two patterns of a corpus, the one that is reported first begins the
other, or it goes on, behind the longest front they share, with a token that has
more support there, or as much and is the smaller one. -/
theorem Miner.patterns_follow_precedes (m : Miner) (corpus : List TokenSequence) :
    let minable := corpus.filter fun s => s.length ≤ m.maxLength
    (m.mine corpus).patterns.Pairwise fun p q => Mining.Precedes minable p.tokens q.tokens := by
  intro minable
  have hgrown : ((Mining.grown m.minSupport (Mining.Frame.ofTokens (m.minable corpus) [])).map
      Pattern.tokens).Pairwise (Mining.Precedes minable) :=
    Mining.pairwise_precedes_grown m.minSupport_pos []
  rw [grown_root, List.map_cons, List.pairwise_cons] at hgrown
  exact List.pairwise_map.1 hgrown.2

end EditMining
