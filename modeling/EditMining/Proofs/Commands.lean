import EditMining.CommandLine.Execution
import EditMining.Proofs.DocumentRoundTrip
import EditMining.Proofs.FileTree

/-!
# What commands leave behind

A command works on files, prints, and asks an oracle. The files are those of a
tree, which stands beside the oracle's memory (`Storage.beside`), so neither can
touch the other. What is said of a command is how it ends: from a tree, with
whatever was printed before and whatever the oracle remembers, it returns a value
and leaves a tree of which something holds. The one way out is that the tree refuses
one of the command's own outputs (`Ends`).

Each kind of step has its rule, and the commands are followed step by step. The
loop over the shards is followed by induction: a shard's files are its own, since
the id is in their names, so what one shard has written is kept while the others
are (`ends_forM_writeShard`).
-/

namespace EditMining

/-- Storage beside something that is remembered. -/
def Storage.beside {m : Type → Type} [Monad m] (σ : Type) (s : Storage m) :
    Storage (StateT σ m) where
  read path := StateT.lift (s.read path)
  write path text := StateT.lift (s.write path text)
  createDirectories path := StateT.lift (s.createDirectories path)
  holds path := StateT.lift (s.holds path)

section Beside

variable {σ : Type} {m : Type → Type} [Monad m] [LawfulMonad m] {α β : Type}

theorem lift_bind (x : m α) (f : α → m β) :
    (StateT.lift (x >>= f) : StateT σ m β) = StateT.lift x >>= fun a => StateT.lift (f a) :=
  monadLift_bind (m := m) (n := StateT σ m) x f

theorem lift_pure (a : α) : (StateT.lift (pure a) : StateT σ m α) = pure a :=
  monadLift_pure (m := m) (n := StateT σ m) a

theorem Storage.readJson_beside (s : Storage m) (read : Json → Option α) (path : String) :
    (s.beside σ).readJson read path = StateT.lift (s.readJson read path) := by
  rw [readJson, readJson, lift_bind]
  refine bind_congr fun r => ?_
  split
  · split <;> exact (lift_pure _).symm
  all_goals exact (lift_pure _).symm

theorem Storage.readCorpus_beside (s : Storage m) (path : String) :
    (s.beside σ).readCorpus path = StateT.lift (s.readCorpus path) := by
  rw [readCorpus, readCorpus, lift_bind, readJson_beside]
  exact bind_congr fun r => (lift_pure _).symm

theorem Storage.createParent_beside (s : Storage m) (path : String) :
    (s.beside σ).createParent path = StateT.lift (s.createParent path) := by
  rw [createParent, createParent]
  split
  · exact (lift_pure _).symm
  · rw [lift_bind]
    refine bind_congr fun r => ?_
    split <;> exact (lift_pure _).symm

theorem Storage.writeJson_beside (s : Storage m) (path : String) (v : Json) :
    (s.beside σ).writeJson path v = StateT.lift (s.writeJson path v) := by
  rw [writeJson, writeJson, lift_bind, createParent_beside]
  refine bind_congr fun r => ?_
  split
  · exact (lift_pure _).symm
  · rw [lift_bind]
    refine bind_congr fun r => ?_
    split <;> exact (lift_pure _).symm

end Beside

namespace CommandLine

open FileTree (KeepsOutside)

variable {σ α β : Type} {t : FileTree} {P : α → FileTree → Prop} {outputs : String → Prop}

/-- Work on the files of a tree, with an oracle that remembers. -/
abbrev FileWork (σ : Type) := Work (StateT σ (StateM FileTree))

/-- The files of a tree, for such work. -/
abbrev files (σ : Type) : Storage (StateT σ (StateM FileTree)) :=
  FileTree.storage.beside σ

/-- Whatever was printed before and whatever the oracle remembers, the work ends
with a value and a tree as they should be, unless the tree it leaves refuses one of
the work's outputs. -/
def Ends (outputs : String → Prop) (x : FileWork σ α) (t : FileTree)
    (P : α → FileTree → Prop) : Prop :=
  ∀ transcript memory,
    let ended := ((x.run.run transcript).run memory).run t
    match ended.1.1.1 with
    | .ok a => P a ended.2
    | .error failure =>
        ∃ path e, outputs path ∧ ended.2.Refuses path e ∧ failure = .fault e

/-! ## Steps -/

theorem Ends.pure {a : α} (h : P a t) : Ends outputs (pure a : FileWork σ α) t P :=
  fun _ _ => h

theorem Ends.bind {x : FileWork σ β} {f : β → FileWork σ α} {Q : β → FileTree → Prop}
    (hx : Ends outputs x t Q) (hf : ∀ b t', Q b t' → Ends outputs (f b) t' P) :
    Ends outputs (x >>= f) t P := by
  intro transcript memory
  have hended := hx transcript memory
  have hrun : (((x >>= f).run.run transcript).run memory).run t =
      let ended := ((x.run.run transcript).run memory).run t
      (((ExceptT.bindCont f ended.1.1.1).run ended.1.1.2).run ended.1.2).run ended.2 := rfl
  rw [hrun]
  dsimp only at hended ⊢
  cases hresult : (((x.run.run transcript).run memory).run t).1.1.1 with
  | ok b =>
      rw [hresult] at hended
      exact hf b _ hended _ _
  | error failure =>
      rw [hresult] at hended
      exact hended

theorem Ends.mono {x : FileWork σ α} {Q : α → FileTree → Prop} (hx : Ends outputs x t Q)
    (h : ∀ a t', Q a t' → P a t') : Ends outputs x t P := by
  intro transcript memory
  have hended := hx transcript memory
  dsimp only at hended ⊢
  split at hended
  · exact h _ _ hended
  · exact hended

theorem Ends.widen {outputs' : String → Prop} {x : FileWork σ α} (hx : Ends outputs x t P)
    (h : ∀ path, outputs path → outputs' path) : Ends outputs' x t P := by
  intro transcript memory
  have hended := hx transcript memory
  dsimp only at hended ⊢
  split at hended
  · exact hended
  · obtain ⟨path, e, hpath, hrefused⟩ := hended
    exact ⟨path, e, h path hpath, hrefused⟩

theorem ends_print {P : Unit → FileTree → Prop} (lines : List String) (h : P () t) :
    Ends outputs (print lines : FileWork σ Unit) t P :=
  fun _ _ => h

theorem ends_warn {P : Unit → FileTree → Prop} (lines : List String) (h : P () t) :
    Ends outputs (warn lines : FileWork σ Unit) t P :=
  fun _ _ => h

theorem ends_outside {act : StateM FileTree α} (h : P (act.run t).1 (act.run t).2) :
    Ends outputs (outside (StateT.lift act) : FileWork σ α) t P :=
  fun _ _ => h

theorem ends_accept {a : α} {r : Result α} (hr : r = .ok a) (h : P a t) :
    Ends outputs (accept r : FileWork σ α) t P := by
  rw [hr]
  exact Ends.pure h

/-- What the oracle remembers may change, but not what comes of asking it. -/
theorem ends_consult {act : Session σ α} {a : α} (hact : ∀ memory, (act.run.run memory).1 = .ok a)
    (h : P a t) : Ends outputs (consult act : FileWork σ α) t P := by
  have hasked : Ends outputs (outside (modifyGet act.run.run) : FileWork σ (Result α)) t
      fun r t' => r = .ok a ∧ t' = t := fun _ memory => ⟨hact memory, rfl⟩
  refine hasked.bind ?_
  rintro r t' ⟨hr, rfl⟩
  exact ends_accept hr h

theorem ends_attempt {act : StateM FileTree (Result α)} {a : α} {t' : FileTree}
    (hact : act.run t = (.ok a, t')) (h : P a t') :
    Ends outputs (attempt (StateT.lift act) : FileWork σ α) t P := by
  refine (ends_outside (P := fun r u => r = .ok a ∧ u = t') ?_).bind ?_
  · rw [hact]
    exact ⟨rfl, rfl⟩
  · rintro r u ⟨rfl, rfl⟩
    exact Ends.pure h

theorem ends_attemptDuring {act : StateM FileTree (Result α)} {a : α} {t' : FileTree}
    (activity : String) (hact : act.run t = (.ok a, t')) (h : P a t') :
    Ends outputs (attemptDuring activity (StateT.lift act) : FileWork σ α) t P := by
  refine (ends_outside (P := fun r u => r = .ok a ∧ u = t') ?_).bind ?_
  · rw [hact]
    exact ⟨rfl, rfl⟩
  · rintro r u ⟨rfl, rfl⟩
    exact Ends.pure h

/-! ## Documents -/

variable {path text : String}

theorem run_readPatterns {ps : List Pattern}
    (hread : t.read path = .ok (Pattern.document ps).pretty)
    (hcounts : ∀ q ∈ ps, q.support < Decimal.wordLimit) :
    (FileTree.storage.readPatterns path).run t = (.ok ps, t) :=
  FileTree.run_readJson hread (decode_patterns hcounts)

theorem run_readCorpus {corpus : List TokenSequence}
    (hread : t.read path = .ok (Corpus.toJson corpus).pretty) :
    (FileTree.storage.readCorpus path).run t = (.ok corpus, t) := by
  have hdocument := FileTree.run_readJson hread (decode_corpus corpus)
  have hrun : (FileTree.storage.readCorpus path).run t =
      let read :=
        (FileTree.storage.readJson (fun v => if v.isWhole then some v else none) path).run t
      (read.1.bind Corpus.ofJson, read.2) := rfl
  rw [hrun, hdocument, ← Corpus.ofJson_toJson corpus]
  rfl

theorem ends_readRecords {records : List Record} (hread : t.read path = .ok text)
    (hdecode : Json.decode (Json.asList Record.ofJson?) text = some records)
    {P : List Record → FileTree → Prop} (h : P records t) :
    Ends outputs (attempt ((files σ).readRecords path) : FileWork σ _) t P := by
  rw [Storage.readRecords, Storage.readJson_beside]
  exact ends_attempt (FileTree.run_readJson hread hdecode) h

/-- A document is written, and all other files are kept. -/
theorem ends_writeJson {P : Unit → FileTree → Prop} (v : Json) (hpath : outputs path)
    (h : ∀ t', t'.read path = .ok v.pretty → KeepsOutside (· = t.placeOf path) t t' → P () t') :
    Ends outputs (attempt ((files σ).writeJson path v) : FileWork σ Unit) t P := by
  rw [Storage.writeJson_beside]
  refine (ends_outside (P := fun r t' =>
    (∃ e, t'.Refuses path e ∧ r = .error e) ∨ r = .ok () ∧ P () t') ?_).bind ?_
  · rcases FileTree.run_writeJson t path v with
      ⟨e, t', hrefused, hrun⟩ | ⟨t', hrun, hread, hkeeps⟩
    · rw [hrun]
      exact .inl ⟨e, hrefused, rfl⟩
    · rw [hrun]
      exact .inr ⟨rfl, h t' hread hkeeps⟩
  · rintro r t' (⟨e, hrefused, rfl⟩ | ⟨rfl, h⟩)
    · exact fun _ _ => ⟨path, e, hpath, hrefused, rfl⟩
    · exact Ends.pure h

/-! ## The files of a shard -/

/-- The kinds of files that a shard may have. -/
def shardKinds : List String :=
  ["shards", "sequences", "oversized"]

/-- The places of a shard's files in a directory. -/
def IsShardPlace (out : List String) (id : String) (place : List String) : Prop :=
  ∃ kind ∈ shardKinds, place = out ++ [kind, id ++ ".json"]

/-- The places where mining writes. -/
def IsMiningPlace (out place : List String) : Prop :=
  place = out ++ ["patterns.json"] ∨ ∃ id, IsShardPlace out id place

/-- The paths that mining writes to. -/
def IsMiningOutput (out path : String) : Prop :=
  path = Path.join out "patterns.json" ∨ ∃ kind ∈ shardKinds, ∃ id, path = shardFile out kind id

theorem isName_shardKind {kind : String} (h : kind ∈ shardKinds) : FileTree.IsName kind := by
  rw [shardKinds, List.mem_cons, List.mem_cons, List.mem_singleton] at h
  rcases h with rfl | rfl | rfl <;> exact ⟨by decide, by decide, by decide, by decide⟩

theorem isName_document {id : String} (h : '/' ∉ id.toList) : FileTree.IsName (id ++ ".json") := by
  have hlength : 5 ≤ (id ++ ".json").toList.length := by
    rw [String.toList_append, List.length_append]
    exact Nat.le_add_left _ _
  have hne : ∀ short : String, short.toList.length < 5 → id ++ ".json" ≠ short := by
    rintro short hshort rfl
    exact absurd hlength (Nat.not_le_of_lt hshort)
  refine ⟨?_, hne "" (by decide), hne "." (by decide), hne ".." (by decide)⟩
  rw [String.toList_append, List.mem_append, not_or]
  exact ⟨h, by decide⟩

theorem placeOf_shardFile (t : FileTree) (out : String) {kind id : String}
    (hkind : kind ∈ shardKinds) (hid : '/' ∉ id.toList) :
    t.placeOf (shardFile out kind id) = t.placeOf out ++ [kind, id ++ ".json"] := by
  rw [shardFile, t.placeOf_join (isName_document hid), t.placeOf_join (isName_shardKind hkind),
    List.append_assoc]
  rfl

theorem shardFile_injective (out kind : String) : Function.Injective (shardFile out kind) := by
  intro id id' h
  exact (String.append_left_inj ".json").1 (Path.join_injective (Path.join out kind) h)

theorem placeOf_patterns (t : FileTree) (out : String) :
    t.placeOf (Path.join out "patterns.json") = t.placeOf out ++ ["patterns.json"] :=
  t.placeOf_join ⟨by decide, by decide, by decide, by decide⟩ out

/-- The id of a shard is in the names of its files. -/
theorem IsShardPlace.eq {out place : List String} {id id' : String} (h : IsShardPlace out id place)
    (h' : IsShardPlace out id' place) : id = id' := by
  obtain ⟨kind, -, rfl⟩ := h
  obtain ⟨kind', -, heq⟩ := h'
  have hnames := List.append_cancel_left heq
  simp only [List.cons.injEq, and_true] at hnames
  exact (String.append_left_inj ".json").1 hnames.2

theorem IsShardPlace.ne_patterns {out place : List String} {id : String}
    (h : IsShardPlace out id place) : place ≠ out ++ ["patterns.json"] := by
  obtain ⟨kind, -, rfl⟩ := h
  intro heq
  have hlength := congrArg List.length (List.append_cancel_left heq)
  nomatch hlength

/-- A tree has what a shard gave. -/
structure HasShard (t : FileTree) (out : String) (dumpsSequences : Bool) (o : ShardOutcome) :
    Prop where
  patterns : t.read (shardFile out "shards" o.shard) = .ok (Pattern.document o.patterns).pretty
  sequences : dumpsSequences = true →
    t.read (shardFile out "sequences" o.shard) = .ok (Corpus.toJson o.sequences).pretty

theorem HasShard.kept {t' : FileTree} {changed : List String → Prop} {out : String}
    {dumpsSequences : Bool} {o : ShardOutcome} (hname : '/' ∉ o.shard.toList)
    (h : HasShard t out dumpsSequences o) (hkeeps : KeepsOutside changed t t')
    (hapart : ∀ place, IsShardPlace (t.placeOf out) o.shard place → ¬ changed place) :
    HasShard t' out dumpsSequences o := by
  have hkept : ∀ kind ∈ shardKinds, ¬ changed (t.placeOf (shardFile out kind o.shard)) :=
    fun kind hkind => hapart _ ⟨kind, hkind, placeOf_shardFile t out hkind hname⟩
  exact ⟨hkeeps.read h.patterns (hkept _ (by decide)),
    fun hdumps => hkeeps.read (h.sequences hdumps) (hkept _ (by decide))⟩

/-- One file of a shard is written, and its files of other kinds are kept. -/
theorem ends_writeShardFile (out kind : String) {id : String} (hkind : kind ∈ shardKinds)
    (hid : '/' ∉ id.toList) (v : Json) :
    Ends (IsMiningOutput out)
        (attempt ((files σ).writeJson (shardFile out kind id) v) : FileWork σ Unit) t fun _ t' =>
      t'.read (shardFile out kind id) = .ok v.pretty ∧
        KeepsOutside (IsShardPlace (t.placeOf out) id) t t' ∧
        ∀ other ∈ shardKinds, other ≠ kind → ∀ text,
          t.read (shardFile out other id) = .ok text →
            t'.read (shardFile out other id) = .ok text := by
  refine ends_writeJson v (.inr ⟨kind, hkind, id, rfl⟩)
    fun t' hread hkeeps => ⟨hread, hkeeps.mono ?_, ?_⟩
  · rintro place rfl
    exact ⟨kind, hkind, placeOf_shardFile t out hkind hid⟩
  · intro other hother hne text htext
    refine hkeeps.read htext fun heq => hne ?_
    rw [placeOf_shardFile t out hother hid, placeOf_shardFile t out hkind hid,
      List.append_cancel_left_eq] at heq
    exact (List.cons.inj heq).1

theorem ends_writeShard (out : String) (dumpsSequences : Bool) {o : ShardOutcome}
    (hname : '/' ∉ o.shard.toList) :
    Ends (IsMiningOutput out) (writeShard (files σ) out dumpsSequences o) t fun _ t' =>
      KeepsOutside (IsShardPlace (t.placeOf out) o.shard) t t' ∧
        HasShard t' out dumpsSequences o := by
  rw [writeShard]
  refine (ends_writeShardFile out "shards" (by decide) hname
    (Pattern.document o.patterns)).bind ?_
  rintro - t₁ ⟨hpatterns, hkeeps, -⟩
  cases dumpsSequences with
  | false => exact Ends.pure ⟨hkeeps, hpatterns, fun h => nomatch h⟩
  | true =>
      have hplace := FileTree.placeOf_congr hkeeps.workingDirectory_eq out
      refine (ends_writeShardFile out "sequences" (by decide) hname
        (Corpus.toJson o.sequences)).bind ?_
      rintro - t₂ ⟨hsequences, hkeeps₂, hothers₂⟩
      rw [hplace] at hkeeps₂
      have hpatterns₂ := hothers₂ "shards" (by decide) (by decide) _ hpatterns
      have hplace₂ := FileTree.placeOf_congr hkeeps₂.workingDirectory_eq out
      split
      · refine (ends_writeShardFile out "oversized" (by decide) hname
          (Corpus.toJson o.oversized)).mono ?_
        rintro - t₃ ⟨-, hkeeps₃, hothers₃⟩
        rw [hplace₂, hplace] at hkeeps₃
        exact ⟨(hkeeps.trans hkeeps₂).trans hkeeps₃,
          hothers₃ "shards" (by decide) (by decide) _ hpatterns₂,
          fun _ => hothers₃ "sequences" (by decide) (by decide) _ hsequences⟩
      · exact Ends.pure ⟨hkeeps.trans hkeeps₂, hpatterns₂, fun _ => hsequences⟩

/-- What a shard has written is kept while the other shards write. -/
theorem ends_forM_writeShard (out : String) (dumpsSequences : Bool) {outcomes : List ShardOutcome}
    (hids : (outcomes.map ShardOutcome.shard).Nodup)
    (hnames : ∀ o ∈ outcomes, '/' ∉ o.shard.toList) :
    Ends (IsMiningOutput out)
        (outcomes.forM (writeShard (files σ) out dumpsSequences)) t fun _ t' =>
      KeepsOutside (fun place => ∃ o ∈ outcomes, IsShardPlace (t.placeOf out) o.shard place) t t' ∧
        ∀ o ∈ outcomes, HasShard t' out dumpsSequences o := by
  induction outcomes generalizing t with
  | nil => exact Ends.pure ⟨KeepsOutside.refl _ t, fun _ h => nomatch h⟩
  | cons o rest ih =>
      obtain ⟨hfresh, hids⟩ := List.nodup_cons.1 hids
      have hname := hnames o List.mem_cons_self
      refine (ends_writeShard out dumpsSequences hname).bind ?_
      rintro - t₁ ⟨hkeeps, hshard⟩
      refine (ih hids fun x hx => hnames x (List.mem_cons_of_mem o hx)).mono ?_
      rintro - t₂ ⟨hkeeps₂, hshards⟩
      refine ⟨?_, ?_⟩
      · rw [FileTree.placeOf_congr hkeeps.workingDirectory_eq] at hkeeps₂
        refine (hkeeps.mono fun place h => ?_).trans (hkeeps₂.mono fun place h => ?_)
        · exact ⟨o, List.mem_cons_self, h⟩
        · obtain ⟨x, hx, hplace⟩ := h
          exact ⟨x, List.mem_cons_of_mem o hx, hplace⟩
      · intro x hx
        rcases List.mem_cons.1 hx with rfl | hx
        · -- A shard that shares a place with the first one would have its id.
          refine hshard.kept hname hkeeps₂ ?_
          rintro place hplace ⟨y, hy, hplace'⟩
          exact hfresh (hplace.eq hplace' ▸ List.mem_map_of_mem hy)
        · exact hshards x hx

/-- A tree has what some shards gave: the patterns of each of them, and those of all
together. -/
structure HasShards (t : FileTree) (out : String) (dumpsSequences : Bool)
    (outcomes : List ShardOutcome) : Prop where
  patterns : t.read (Path.join out "patterns.json") =
    .ok (Pattern.document (Pipeline.mergeShards outcomes)).pretty
  shards : ∀ o ∈ outcomes, HasShard t out dumpsSequences o

theorem ends_writeShards (out : String) (dumpsSequences : Bool) {outcomes : List ShardOutcome}
    (hids : (outcomes.map ShardOutcome.shard).Nodup)
    (hnames : ∀ o ∈ outcomes, '/' ∉ o.shard.toList) :
    Ends (IsMiningOutput out) (writeShards (files σ) out dumpsSequences outcomes) t fun merged t' =>
      merged = Pipeline.mergeShards outcomes ∧ HasShards t' out dumpsSequences outcomes ∧
        KeepsOutside (IsMiningPlace (t.placeOf out)) t t' := by
  rw [writeShards]
  refine (ends_forM_writeShard out dumpsSequences hids hnames).bind ?_
  rintro - t₁ ⟨hkeeps, hshards⟩
  have hplace := FileTree.placeOf_congr hkeeps.workingDirectory_eq out
  have hwritten : Ends (IsMiningOutput out)
      (attempt ((files σ).writePatterns (Path.join out "patterns.json")
        (Pipeline.mergeShards outcomes)) : FileWork σ Unit) t₁ fun _ t₂ =>
        HasShards t₂ out dumpsSequences outcomes ∧
          KeepsOutside (IsMiningPlace (t.placeOf out)) t t₂ := by
    refine ends_writeJson (Pattern.document (Pipeline.mergeShards outcomes)) (.inl rfl)
      fun t₂ hread hkeeps₂ => ?_
    rw [placeOf_patterns, hplace] at hkeeps₂
    refine ⟨⟨hread, fun o ho => (hshards o ho).kept (hnames o ho) hkeeps₂ ?_⟩, ?_⟩
    · intro place hshard
      rw [hplace] at hshard
      exact hshard.ne_patterns
    · refine (hkeeps.mono fun place h => ?_).trans (hkeeps₂.mono fun place h => .inl h)
      obtain ⟨o, -, hshard⟩ := h
      exact .inr ⟨o.shard, hshard⟩
  refine hwritten.bind fun _ t₂ h => ?_
  exact (ends_print _ h).bind fun _ _ h => Ends.pure ⟨rfl, h⟩

end CommandLine

end EditMining
