import EditMining.Pipeline
import EditMining.Proofs.Traversals

/-!
# Accepted configurations

A configuration that passes its checks makes a pipeline, unless its dictionary cannot be
read or its language is not known. What such a pipeline is made of is taken from the
configuration, and its miner can be made: the threshold that the miner refuses when it is
zero is the one that was checked before.
-/

namespace EditMining

theorem Configuration.minSupport_pos {holds : String → Bool} {c : Configuration}
    (h : c.validate holds = .ok ()) : 0 < c.mining.minSupport := by
  obtain ⟨_, -, h⟩ := exists_of_bind_eq_ok h
  obtain ⟨_, -, h⟩ := exists_of_bind_eq_ok h
  obtain ⟨_, hmining, -⟩ := exists_of_bind_eq_ok h
  rw [checkMining, checkPositive] at hmining
  split at hmining
  · nomatch hmining
  · next hne => exact Nat.pos_of_ne_zero hne

namespace Pipeline

variable {files : FileView} {tools : Tools} {c : Configuration} {p : Pipeline} {m : Miner}

/-- What a pipeline takes from its configuration. -/
theorem parts_of_create (h : create files tools c = .ok p) :
    c.validate files.holds = .ok () ∧ p.configuration = c ∧
      ReservedNames.ofSettings files.read c.abstraction = .ok p.reserved ∧
      Language.ofName? c.sequencing.language = some p.defaultLanguage ∧ p.tools = tools := by
  obtain ⟨_, hvalid, h⟩ := exists_of_bind_eq_ok h
  obtain ⟨reserved, hreserved, h⟩ := exists_of_bind_eq_ok h
  split at h
  · nomatch h
  · next l hlanguage =>
      cases h
      exact ⟨hvalid, rfl, hreserved, hlanguage, rfl⟩

/-- All that can be refused is refused before there is a pipeline. -/
theorem create_eq_ok {reserved : ReservedNames} {l : Language}
    (hvalid : c.validate files.holds = .ok ())
    (hreserved : ReservedNames.ofSettings files.read c.abstraction = .ok reserved)
    (hlanguage : Language.ofName? c.sequencing.language = some l) :
    create files tools c = .ok ⟨c, reserved, l, tools⟩ := by
  simp only [create, hvalid, hreserved, hlanguage]
  rfl

theorem miner_eq_ok (h : 0 < p.configuration.mining.minSupport) :
    p.miner = .ok ⟨p.configuration.mining.minSupport,
      p.configuration.sequencing.maxSequenceTokens, h⟩ :=
  dif_pos h

/-- The limits of a miner are those of the configuration. -/
theorem limits_of_miner (h : p.miner = .ok m) :
    m.minSupport = p.configuration.mining.minSupport ∧
      m.maxLength = p.configuration.sequencing.maxSequenceTokens := by
  rw [miner, Miner.create] at h
  split at h
  · cases h
    exact ⟨rfl, rfl⟩
  · nomatch h

/-- A pipeline that was made can make its miner. -/
theorem exists_miner_of_create (h : create files tools c = .ok p) : ∃ m, p.miner = .ok m := by
  obtain ⟨hvalid, rfl, -⟩ := parts_of_create h
  exact ⟨_, miner_eq_ok (Configuration.minSupport_pos hvalid)⟩

theorem mineCorpus_eq (hm : p.miner = .ok m) (shard : String) (corpus : List TokenSequence) :
    p.mineCorpus shard corpus = .ok (.ofMining shard corpus (m.mine corpus)) := by
  rw [mineCorpus, hm]
  rfl

end Pipeline

end EditMining
