import EditMining.Proofs.AcceptedConfigurations
import EditMining.Proofs.Commands

/-!
# What a command works with

Before it works, a command loads a configuration, looks at the files that the
configuration names, and makes a pipeline. All of this is a function of the files
(`pipelineFrom`), and of few of them: a tree in which these files read as before
gives the same pipeline (`pipelineFrom_kept`).

Filtering and mining use the same pipeline but for the settings of the filter,
which mining does not look at (`Pipeline.mine_withFilter`).
-/

namespace EditMining

open FileTree (KeepsOutside)

/-! ## Pipelines that differ in filtering -/

namespace Pipeline

/-- The same pipeline with other settings for filtering. -/
def withFilter (p : Pipeline) (s : FilterSettings) : Pipeline :=
  { p with configuration := { p.configuration with filter := s } }

variable {σ : Type}

theorem sequenceRecords_withFilter (p : Pipeline) (s : FilterSettings) (o : Oracle σ)
    (records : List Record) (w : ShardWork) :
    (p.withFilter s).sequenceRecords o records w = p.sequenceRecords o records w := by
  induction records generalizing w with
  | nil => rfl
  | cons r rest ih =>
      have hlanguage : (p.withFilter s).languageOf r = p.languageOf r := rfl
      have htools : (p.withFilter s).tools = p.tools := rfl
      have hhunk : ∀ tk, (p.withFilter s).sequenceHunk o tk r.hunk = p.sequenceHunk o tk r.hunk :=
        fun _ => rfl
      simp only [sequenceRecords, ih, hlanguage, htools, hhunk]

theorem mineShard_withFilter (p : Pipeline) (s : FilterSettings) (o : Oracle σ) :
    (p.withFilter s).mineShard o = p.mineShard o := by
  funext shard
  rw [mineShard, mineShard, sequenceRecords_withFilter]
  rfl

/-- Mining does not look at the settings for filtering. -/
theorem mine_withFilter (p : Pipeline) (s : FilterSettings) (o : Oracle σ)
    (records : List Record) : (p.withFilter s).mine o records = p.mine o records := by
  rw [mine, mine, mineShard_withFilter]
  rfl

end Pipeline

namespace CommandLine

variable {σ α : Type} {t t' : FileTree} {tools : Tools} {path text : String}
  {outputs : String → Prop}

/-! ## Files that are read -/

theorem eq_ok_of_toOption {ε : Type} {x : Except ε α} {a : α} (h : x.toOption = some a) :
    x = .ok a := by
  cases x with
  | ok b => exact congrArg Except.ok (Option.some.inj h)
  | error e => nomatch h

/-- The value that a file stands for. -/
def valueFrom (t : FileTree) (path : String) (value : String → Option α) : Option α :=
  (t.read path).toOption.bind value

theorem valueFrom_eq_some {value : String → Option α} {a : α}
    (h : valueFrom t path value = some a) :
    ∃ text, t.read path = .ok text ∧ value text = some a := by
  obtain ⟨text, hread, hvalue⟩ := Option.bind_eq_some_iff.1 h
  exact ⟨text, eq_ok_of_toOption hread, hvalue⟩

theorem valueFrom_of_read {value : String → Option α} (hread : t.read path = .ok text) :
    valueFrom t path value = value text := by
  rw [valueFrom, hread]
  rfl

theorem valueFrom_kept {value : String → Option α} {a : α} {changed : List String → Prop}
    (h : valueFrom t path value = some a) (hkeeps : KeepsOutside changed t t')
    (hapart : ¬ changed (t.placeOf path)) : valueFrom t' path value = some a := by
  obtain ⟨text, hread, hvalue⟩ := valueFrom_eq_some h
  rw [valueFrom_of_read (hkeeps.read hread hapart), hvalue]

/-- The records in a file. -/
def recordsFrom (t : FileTree) (path : String) : Option (List Record) :=
  valueFrom t path (Json.decode (Json.asList Record.ofJson?))

/-- The configuration of a command before it is checked. -/
def configurationFrom (t : FileTree) (o : MiningOverrides) : Option Configuration :=
  match o.configuration with
  | none => some (o.apply .default)
  | some path =>
      (valueFrom t path fun text => (Configuration.parseYaml text).toOption).map o.apply

/-- What a tree shows of the files that a configuration names. -/
def seen (t : FileTree) (c : Configuration) : FileView :=
  match c.abstraction.dictionaryPath with
  | none => ⟨fun _ => false, fun _ => .error .notFound⟩
  | some path => ⟨fun _ => t.holds path, fun _ => t.read path⟩

/-- The pipeline of a command that changes the configuration it loads. -/
def pipelineFrom (t : FileTree) (tools : Tools) (o : MiningOverrides)
    (change : Configuration → Configuration) : Option Pipeline :=
  (configurationFrom t o).bind fun c =>
    (Pipeline.create (seen t (change c)) tools (change c)).toOption

/-- The files that say how a command works. -/
def settingFiles (o : MiningOverrides) (p : Pipeline) : List String :=
  o.configuration.toList ++ p.configuration.abstraction.dictionaryPath.toList

theorem pipelineFrom_eq_some {o : MiningOverrides} {change : Configuration → Configuration}
    {p : Pipeline} (h : pipelineFrom t tools o change = some p) :
    ∃ c, configurationFrom t o = some c ∧
      Pipeline.create (seen t (change c)) tools (change c) = .ok p := by
  obtain ⟨c, hc, hcreate⟩ := Option.bind_eq_some_iff.1 h
  exact ⟨c, hc, eq_ok_of_toOption hcreate⟩

/-- Settings for filtering that are given make no other difference. -/
theorem pipelineFrom_filter {o : MiningOverrides} {filterOverrides : FilterOverrides}
    {p p' : Pipeline} (h : pipelineFrom t tools o id = some p)
    (h' : pipelineFrom t tools o filterOverrides.apply = some p') :
    p' = p.withFilter p'.configuration.filter := by
  obtain ⟨c, hc, hcreate⟩ := pipelineFrom_eq_some h
  obtain ⟨c', hc', hcreate'⟩ := pipelineFrom_eq_some h'
  obtain rfl : c = c' := Option.some.inj (hc.symm.trans hc')
  obtain ⟨-, hconfiguration, hreserved, hlanguage, htools⟩ := Pipeline.parts_of_create hcreate
  obtain ⟨-, hconfiguration', hreserved', hlanguage', htools'⟩ := Pipeline.parts_of_create hcreate'
  obtain ⟨configuration, reserved, language, _⟩ := p
  obtain ⟨configuration', reserved', language', _⟩ := p'
  dsimp only at hconfiguration hconfiguration' htools htools'
  subst hconfiguration hconfiguration' htools htools'
  cases Except.ok.inj (hreserved.symm.trans hreserved')
  cases Option.some.inj (hlanguage.symm.trans hlanguage')
  rfl

/-! ## Files that are kept -/

variable {changed : List String → Prop}

theorem holds_of_read (h : t.read path = .ok text) : t.holds path = true := by
  obtain ⟨hlocate, hentry⟩ := FileTree.read_eq_ok.1 h
  rw [FileTree.holds, hlocate]
  dsimp only
  rw [hentry]
  rfl

theorem configurationFrom_kept {o : MiningOverrides} {c : Configuration}
    (h : configurationFrom t o = some c) (hkeeps : KeepsOutside changed t t')
    (hapart : ∀ path ∈ o.configuration, ¬ changed (t.placeOf path)) :
    configurationFrom t' o = some c := by
  rw [configurationFrom] at h ⊢
  cases hpath : o.configuration with
  | none =>
      rw [hpath] at h
      exact h
  | some path =>
      rw [hpath] at h
      obtain ⟨c₀, hvalue, hc⟩ := Option.map_eq_some_iff.1 h
      have hkept := valueFrom_kept hvalue hkeeps (hapart path hpath)
      exact Option.map_eq_some_iff.2 ⟨c₀, hkept, hc⟩

/-- A pipeline that was made has read its dictionary. -/
theorem exists_read_of_create {c : Configuration} {p : Pipeline}
    (h : Pipeline.create (seen t c) tools c = .ok p)
    (hpath : c.abstraction.dictionaryPath = some path) : ∃ text, t.read path = .ok text := by
  obtain ⟨-, -, hreserved, -, -⟩ := Pipeline.parts_of_create h
  rw [seen, ReservedNames.ofSettings, hpath] at hreserved
  obtain ⟨names, hnames, -⟩ := exists_of_bind_eq_ok hreserved
  rw [ReservedNames.readDictionary] at hnames
  dsimp only at hnames
  cases hread : t.read path with
  | ok text => exact ⟨text, rfl⟩
  | error fault =>
      rw [hread] at hnames
      nomatch hnames

theorem seen_kept {c : Configuration} {p : Pipeline}
    (h : Pipeline.create (seen t c) tools c = .ok p) (hkeeps : KeepsOutside changed t t')
    (hapart : ∀ path ∈ c.abstraction.dictionaryPath, ¬ changed (t.placeOf path)) :
    seen t' c = seen t c := by
  rw [seen, seen]
  cases hpath : c.abstraction.dictionaryPath with
  | none => rfl
  | some path =>
      -- Other files may go or come, but a file that can be read is there.
      obtain ⟨text, hread⟩ := exists_read_of_create h hpath
      have hread' := hkeeps.read hread (hapart path hpath)
      dsimp only
      rw [hread, hread', holds_of_read hread, holds_of_read hread']

theorem pipelineFrom_kept {o : MiningOverrides} {change : Configuration → Configuration}
    {p : Pipeline} (h : pipelineFrom t tools o change = some p) (hkeeps : KeepsOutside changed t t')
    (hapart : ∀ path ∈ settingFiles o p, ¬ changed (t.placeOf path)) :
    pipelineFrom t' tools o change = some p := by
  obtain ⟨c, hc, hcreate⟩ := pipelineFrom_eq_some h
  obtain ⟨-, hconfiguration, -⟩ := Pipeline.parts_of_create hcreate
  have hsettings : ∀ path ∈ o.configuration, ¬ changed (t.placeOf path) := fun path hpath =>
    hapart path (List.mem_append_left _ (Option.mem_toList.2 hpath))
  have hdictionary : ∀ path ∈ (change c).abstraction.dictionaryPath,
      ¬ changed (t.placeOf path) := by
    intro path hpath
    rw [← hconfiguration] at hpath
    exact hapart path (List.mem_append_right _ (Option.mem_toList.2 hpath))
  rw [pipelineFrom, configurationFrom_kept hc hkeeps hsettings, Option.bind_some,
    seen_kept hcreate hkeeps hdictionary, hcreate]
  rfl

/-! ## As steps of a command -/

theorem run_viewOf (t : FileTree) (c : Configuration) :
    (viewOf FileTree.storage c).run t = (seen t c, t) := by
  rw [viewOf, seen]
  cases c.abstraction.dictionaryPath <;> rfl

theorem viewOf_beside {m : Type → Type} [Monad m] [LawfulMonad m] (s : Storage m)
    (c : Configuration) : viewOf (s.beside σ) c = StateT.lift (viewOf s c) := by
  rw [viewOf, viewOf]
  split
  · exact (lift_pure _).symm
  · rw [lift_bind]
    refine bind_congr fun isHeld => ?_
    rw [lift_bind]
    exact bind_congr fun text => (lift_pure _).symm

theorem run_readFile_eq (path : String) (t : FileTree) :
    (Configuration.readFile FileTree.storage path).run t =
      (match t.read path with
        | .ok text => pure (Configuration.parseYaml text)
        | .error fault => pure (.error (.io ("Failed to read config file: " ++ path) fault)) :
          StateM FileTree (Result Configuration)).run t := rfl

theorem run_readFile {c : Configuration} (hread : t.read path = .ok text)
    (hparse : Configuration.parseYaml text = .ok c) :
    (Configuration.readFile FileTree.storage path).run t = (.ok c, t) := by
  rw [run_readFile_eq, hread]
  dsimp only
  rw [hparse]
  rfl

theorem readFile_beside {m : Type → Type} [Monad m] [LawfulMonad m] (s : Storage m)
    (path : String) :
    Configuration.readFile (s.beside σ) path = StateT.lift (Configuration.readFile s path) := by
  rw [Configuration.readFile, Configuration.readFile, lift_bind]
  refine bind_congr fun r => ?_
  split <;> exact (lift_pure _).symm

theorem ends_loadConfiguration {o : MiningOverrides} {c : Configuration}
    (h : configurationFrom t o = some c) :
    Ends outputs (loadConfiguration (files σ) o) t fun c' t' => c' = c ∧ t' = t := by
  rw [loadConfiguration]
  rw [configurationFrom] at h
  cases hpath : o.configuration with
  | none =>
      rw [hpath] at h
      exact Ends.pure ⟨Option.some.inj h, rfl⟩
  | some path =>
      rw [hpath] at h
      obtain ⟨c₀, hvalue, hc⟩ := Option.map_eq_some_iff.1 h
      obtain ⟨text, hread, hparse⟩ := valueFrom_eq_some hvalue
      refine Ends.bind (Q := fun c' t' => c' = c₀ ∧ t' = t) ?_ ?_
      · rw [readFile_beside]
        exact ends_attemptDuring _ (run_readFile hread (eq_ok_of_toOption hparse)) ⟨rfl, rfl⟩
      · rintro c' t' ⟨rfl, rfl⟩
        exact Ends.pure ⟨hc, rfl⟩

theorem ends_preparePipeline {c : Configuration} {p : Pipeline}
    (h : Pipeline.create (seen t c) tools c = .ok p) :
    Ends outputs (preparePipeline (files σ) tools c) t fun p' t' => p' = p ∧ t' = t := by
  obtain ⟨hvalid, -⟩ := Pipeline.parts_of_create h
  rw [preparePipeline, viewOf_beside]
  refine Ends.bind (Q := fun view t' => view = seen t c ∧ t' = t) (ends_outside ?_) ?_
  · rw [run_viewOf]
    exact ⟨rfl, rfl⟩
  · rintro view t' ⟨rfl, rfl⟩
    refine (ends_accept (P := fun _ t'' => t'' = t') hvalid rfl).bind ?_
    rintro - t'' rfl
    exact ends_accept h ⟨rfl, rfl⟩

/-- A command goes on with its pipeline. -/
theorem ends_prepared {o : MiningOverrides} {change : Configuration → Configuration} {p : Pipeline}
    (h : pipelineFrom t tools o change = some p) {x : Pipeline → FileWork σ α}
    {P : α → FileTree → Prop} (hx : Ends outputs (x p) t P) :
    Ends outputs
      (loadConfiguration (files σ) o >>= fun c => preparePipeline (files σ) tools (change c) >>= x)
      t P := by
  obtain ⟨c, hc, hcreate⟩ := pipelineFrom_eq_some h
  refine (ends_loadConfiguration hc).bind ?_
  rintro c' t' ⟨rfl, rfl⟩
  refine (ends_preparePipeline hcreate).bind ?_
  rintro p' t'' ⟨rfl, rfl⟩
  exact hx

end CommandLine

end EditMining
