import EditMining.CommandLine.Report
import EditMining.CommandLine.Request

/-!
# Carrying out requests

Commands read their files, do their work and write what comes of it, wherever
the files are and whatever answers as oracle. What a command has printed before
it fails stays printed.

The stages of a run can be taken one by one: what one of them writes is what the
next one reads.
-/

namespace EditMining.CommandLine

/-- Why a command fails, and while doing what. -/
inductive Failure where
  | fault (e : Error)
  | message (text : String)
  | during (activity : String) (cause : Failure)
  deriving DecidableEq, Inhabited, Repr

/-- A failure and its causes, the outermost first. -/
def Failure.causes : Failure → List String
  | .fault e =>
      match e with
      | .io _ refusal => [e.message, refusal.message]
      | _ => [e.message]
  | .message text => [text]
  | .during activity cause => activity :: cause.causes

/-- What a command prints. -/
structure Transcript where
  out : String
  warnings : List String
  deriving DecidableEq, Inhabited, Repr

/-- Where commands work: how files are kept, what answers as oracle, and which tools
there are. -/
structure Workplace (σ : Type) (m : Type → Type) where
  storage : Storage m
  oracle : OracleSettings → Oracle σ
  tools : Tools

/-- Work of a command. -/
abbrev Work (m : Type → Type) := ExceptT Failure (StateT Transcript m)

variable {σ : Type} {m : Type → Type} [Monad m]

def print (lines : List String) : Work m Unit :=
  modify fun t => { t with out := t.out ++ printed lines }

def printText (text : String) : Work m Unit :=
  modify fun t => { t with out := t.out ++ text }

def warn (lines : List String) : Work m Unit :=
  modify fun t => { t with warnings := t.warnings ++ lines }

def outside {α : Type} (act : m α) : Work m α :=
  ExceptT.lift (StateT.lift act)

/-- Take a result, or fail. -/
def accept {α : Type} (r : Result α) : Work m α :=
  match r with
  | .ok x => pure x
  | .error e => throw (.fault e)

/-- Do something that may fail. -/
def attempt {α : Type} (act : m (Result α)) : Work m α := do
  accept (← outside act)

/-- Do something that may fail, and say what it was for. -/
def attemptDuring {α : Type} (activity : String) (act : m (Result α)) : Work m α := do
  match ← outside act with
  | .ok x => pure x
  | .error e => throw (.during activity (.fault e))

/-- Do something with an oracle, which may fail. -/
def consult {α : Type} [MonadStateOf σ m] (act : Session σ α) : Work m α :=
  attempt (modifyGet act.run.run)

/-! ## Configurations -/

/-- What is known of the files that a configuration names. -/
def viewOf (s : Storage m) (c : Configuration) : m FileView := do
  match c.abstraction.dictionaryPath with
  | none => pure ⟨fun _ => false, fun _ => .error .notFound⟩
  | some path => do
      let isHeld ← s.holds path
      let text ← s.read path
      pure ⟨fun _ => isHeld, fun _ => text⟩

def MiningOverrides.apply (o : MiningOverrides) (c : Configuration) : Configuration :=
  { c with
    mining := { c.mining with minSupport := o.minSupport.getD c.mining.minSupport }
    performance :=
      { c.performance with
        sharding := o.sharding.getD c.performance.sharding
        maxThreads := o.threads <|> c.performance.maxThreads }
    oracle := { c.oracle with dockerImage := o.dockerImage <|> c.oracle.dockerImage } }

def FilterOverrides.apply (o : FilterOverrides) (c : Configuration) : Configuration :=
  { c with
    filter :=
      { c.filter with
        confidenceThreshold := o.threshold.getD c.filter.confidenceThreshold
        minPruningSupport := o.minPruningSupport.getD c.filter.minPruningSupport } }

/-- The configuration of a command before it is checked. -/
def loadConfiguration (s : Storage m) (o : MiningOverrides) : Work m Configuration := do
  let c ← match o.configuration with
    | none => pure Configuration.default
    | some path =>
        attemptDuring ("Failed to load configuration from " ++ path) (Configuration.readFile s path)
  pure (o.apply c)

/-- The pipeline for a configuration. -/
def preparePipeline (s : Storage m) (tools : Tools) (c : Configuration) : Work m Pipeline := do
  let files ← outside (viewOf s c)
  accept (c.validate files.holds)
  accept (Pipeline.create files tools c)

/-! ## Mining -/

/-- The file of a shard. -/
def shardFile (out kind id : String) : String :=
  Path.join (Path.join out kind) (id ++ ".json")

/-- Write what a shard gave. -/
def writeShard (s : Storage m) (out : String) (dumpsSequences : Bool) (o : ShardOutcome) :
    Work m Unit := do
  attempt (s.writePatterns (shardFile out "shards" o.shard) o.patterns)
  if dumpsSequences then
    attempt (s.writeCorpus (shardFile out "sequences" o.shard) o.sequences)
    if !o.oversized.isEmpty then
      attempt (s.writeCorpus (shardFile out "oversized" o.shard) o.oversized)

/-- Write what all shards gave, and their patterns together. -/
def writeShards (s : Storage m) (out : String) (dumpsSequences : Bool)
    (outcomes : List ShardOutcome) : Work m (List Pattern) := do
  outcomes.forM (writeShard s out dumpsSequences)
  let merged := Pipeline.mergeShards outcomes
  let path := Path.join out "patterns.json"
  attempt (s.writePatterns path merged)
  print [mergedLine merged.length path]
  pure merged

section

variable [MonadStateOf σ m] (w : Workplace σ m)

/-- Mine what a request names. -/
def mineSource (p : Pipeline) (source : MiningSource) : Work m (List ShardOutcome) := do
  match source with
  | .sequences path => do
      let corpus ← attemptDuring ("Invalid sequence corpus " ++ path) (w.storage.readCorpus path)
      let outcome ← accept (p.mineCorpus Shard.singleId corpus)
      pure [outcome]
  | .records path => do
      let records ← attempt (w.storage.readRecords path)
      consult (p.mine (w.oracle p.configuration.oracle) records)

def mine (source : MiningSource) (out : String) (dumpsSequences : Bool)
    (overrides : MiningOverrides) : Work m Unit := do
  let c ← loadConfiguration w.storage overrides
  let p ← preparePipeline w.storage w.tools c
  let outcomes ← mineSource w p source
  print (shardTable outcomes)
  discard (writeShards w.storage out dumpsSequences outcomes)
  warn (failureLines outcomes)

/-! ## Merging and filtering -/

def merge (inputs : List String) (out : String) : Work m Unit := do
  let store ← inputs.foldlM (fun (store : ShardStore) path => do
    let patterns ← attemptDuring ("Failed to read patterns from " ++ path)
      (w.storage.readPatterns path)
    pure (store.insert path patterns)) ShardStore.empty
  let merged := store.merged
  attempt (w.storage.writePatterns out merged)
  print [mergeLine store.size merged.length out]

/-- Write patterns that were filtered. -/
def writeArtifact (path : String) (artifact : List ScoredPattern) (report : FilterReport) :
    Work m Unit := do
  attempt (w.storage.writeScoredPatterns path artifact)
  print (filterSummary report ++ [artifactLine artifact.length path])

def filter (patterns heldOut out : String) (overrides : MiningOverrides)
    (filterOverrides : FilterOverrides) : Work m Unit := do
  let c ← loadConfiguration w.storage overrides
  let p ← preparePipeline w.storage w.tools (filterOverrides.apply c)
  let patterns ← attempt (w.storage.readPatterns patterns)
  let heldOut ← attempt (w.storage.readRecords heldOut)
  let (artifact, report) ←
    consult (p.filter (w.oracle p.configuration.oracle) patterns heldOut)
  writeArtifact w out artifact report

def run (training heldOut out : String) (dumpsSequences : Bool) (overrides : MiningOverrides)
    (filterOverrides : FilterOverrides) : Work m Unit := do
  let c ← loadConfiguration w.storage overrides
  let p ← preparePipeline w.storage w.tools (filterOverrides.apply c)
  let training ← attempt (w.storage.readRecords training)
  let heldOut ← attempt (w.storage.readRecords heldOut)
  let oracle := w.oracle p.configuration.oracle
  let outcomes ← consult (p.mine oracle training)
  print (shardTable outcomes)
  let merged ← writeShards w.storage out dumpsSequences outcomes
  let (artifact, report) ← consult (p.filter oracle merged heldOut)
  writeArtifact w (Path.join out "fixes.json") artifact report
  warn (failureLines outcomes)

/-! ## Looking at things -/

def explain (patterns : String) (top : Nat) : Work m Unit := do
  let ps ← attempt (w.storage.readPatterns patterns)
  print (explanation patterns top ps)

def createConfiguration (output : String) (replaces : Bool) : Work m Unit := do
  if (← outside (w.storage.holds output)) && !replaces then
    throw (.message ("Configuration file already exists: " ++ output
      ++ " (use --force to overwrite)"))
  attempt (Configuration.default.writeFile w.storage output)
  print (creationLines output)

/-- Read a configuration and check it. -/
def readValid (s : Storage m) (path : String) : m (Result Configuration) := do
  match ← Configuration.readFile s path with
  | .error e => pure (.error e)
  | .ok c => do
      let files ← viewOf s c
      pure ((c.validate files.holds).map fun _ => c)

def validateConfiguration (path : String) (isDetailed : Bool) : Work m Unit := do
  print ["Validating configuration: " ++ path]
  let c ← attemptDuring ("Configuration validation failed: " ++ path) (readValid w.storage path)
  print (validityLines c)
  if isDetailed then
    print [""]
    printText c.toYaml

/-- Carry out a request. -/
def carryOut : Request → Work m Unit
  | .mine source out dumpsSequences overrides => mine w source out dumpsSequences overrides
  | .merge inputs out => merge w inputs out
  | .filter patterns heldOut out overrides filterOverrides =>
      filter w patterns heldOut out overrides filterOverrides
  | .run training heldOut out dumpsSequences overrides filterOverrides =>
      run w training heldOut out dumpsSequences overrides filterOverrides
  | .explain patterns top => explain w patterns top
  | .listLanguages => print languageLines
  | .printDefaultConfiguration => do
      print defaultConfigurationHeader
      printText Configuration.default.toYaml
  | .createConfiguration output replaces => createConfiguration w output replaces
  | .validateConfiguration path isDetailed => validateConfiguration w path isDetailed

/-! ## Command lines -/

/-- How a command line came out. -/
inductive Outcome where
  | done
  | failed (f : Failure)
  /-- The command line itself makes no sense. -/
  | misused
  deriving DecidableEq, Inhabited, Repr

def Outcome.exitCode : Outcome → Nat
  | .done => 0
  | .failed _ => 1
  | .misused => 2

/-- Carry out a command line. -/
def perform (words : List String) : m (Outcome × Transcript) := do
  match Request.parse words with
  | .error .usage => pure (.misused, ⟨"", []⟩)
  | .error .help => pure (.done, ⟨"", []⟩)
  | .error .version => pure (.done, ⟨printed [versionText], []⟩)
  | .ok request => do
      let (result, transcript) ← ((carryOut w request).run).run ⟨"", []⟩
      match result with
      | .ok _ => pure (.done, transcript)
      | .error failure => pure (.failed failure, transcript)

end

end EditMining.CommandLine
