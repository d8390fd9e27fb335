import EditMining.Configuration
import EditMining.Json.Fields

/-!
# Reading configurations

A configuration can be written in several document formats, which differ in what
counts as a number, a text or a list. A `SettingsView` says how the values of a
format are looked at; with one, a configuration is read alike from all of them.
Every section and every setting may be missing.
-/

namespace EditMining

/-- How the values of a document format are looked at. -/
structure SettingsView (V : Type) where
  /-- The values under some names, in the order of the names. -/
  members : List String → V → Option (List (Option V))
  /-- Whether a value stands for a setting that is not given. -/
  isMissing : V → Bool
  text? : V → Option String
  flag? : V → Option Bool
  count? : V → Option Nat
  share? : V → Option Float
  /-- The name of one of several choices. -/
  choice? : V → Option String
  list? : V → Option (List V)

/-- Settings in JSON. -/
def SettingsView.json : SettingsView Json where
  members names := Json.fields (names.map ([·]))
  isMissing v := match v with
    | .null => true
    | _ => false
  text? := Json.asString
  flag? := Json.asBool
  count? := Json.asNatural
  share? := Json.asReal
  choice? v := match v with
    | .string name => some name
    | .object [(name, .null)] => some name
    | _ => none
  list? v := match v with
    | .array items => some items
    | _ => none

namespace Sharding

def ofName? : String → Option Sharding
  | "year" => some .byYear
  | "none" => some .single
  | _ => none

def name : Sharding → String
  | .byYear => "year"
  | .single => "none"

end Sharding

namespace SettingsView

variable {V : Type} (view : SettingsView V)

/-- A setting that may be marked as missing. -/
def optional {α : Type} (read : V → Option α) (v : V) : Option (Option α) :=
  if view.isMissing v then some none else (read v).map some

def texts? (v : V) : Option (List String) :=
  (view.list? v).bind fun items => items.mapM view.text?

def sharding? (v : V) : Option Sharding :=
  (view.choice? v).bind Sharding.ofName?

open Json (orDefault)

def abstraction? (d : AbstractionSettings) (v : V) : Option AbstractionSettings := do
  match ← view.members
      ["extra_reserved_names", "dictionary_path", "normalize_function_names"] v with
  | [names, path, normalizes] =>
      some
        { extraReservedNames := ← orDefault d.extraReservedNames view.texts? names
          dictionaryPath := ← orDefault d.dictionaryPath (view.optional view.text?) path
          normalizesFunctionNames := ← orDefault d.normalizesFunctionNames view.flag? normalizes }
  | _ => none

def sequencing? (d : SequencingSettings) (v : V) : Option SequencingSettings := do
  match ← view.members ["max_hunk_lines", "max_sequence_tokens", "language"] v with
  | [lines, tokens, language] =>
      some
        { maxHunkLines := ← orDefault d.maxHunkLines view.count? lines
          maxSequenceTokens := ← orDefault d.maxSequenceTokens view.count? tokens
          language := ← orDefault d.language view.text? language }
  | _ => none

def mining? (d : MiningSettings) (v : V) : Option MiningSettings := do
  match ← view.members ["min_support"] v with
  | [support] => some { minSupport := ← orDefault d.minSupport view.count? support }
  | _ => none

def filter? (d : FilterSettings) (v : V) : Option FilterSettings := do
  match ← view.members ["confidence_threshold", "min_pruning_support"] v with
  | [threshold, support] =>
      some
        { confidenceThreshold := ← orDefault d.confidenceThreshold view.share? threshold
          minPruningSupport := ← orDefault d.minPruningSupport view.count? support }
  | _ => none

def oracle? (d : OracleSettings) (v : V) : Option OracleSettings := do
  match ← view.members ["command", "args", "docker_image", "timeout_secs", "scratch_dir"] v with
  | [command, arguments, image, timeout, directory] =>
      some
        { command := ← orDefault d.command view.text? command
          arguments := ← orDefault d.arguments view.texts? arguments
          dockerImage := ← orDefault d.dockerImage (view.optional view.text?) image
          timeoutSeconds := ← orDefault d.timeoutSeconds view.count? timeout
          scratchDirectory := ← orDefault d.scratchDirectory (view.optional view.text?) directory }
  | _ => none

def performance? (d : PerformanceSettings) (v : V) : Option PerformanceSettings := do
  match ← view.members ["max_threads", "shard_by"] v with
  | [threads, sharding] =>
      some
        { maxThreads := ← orDefault d.maxThreads (view.optional view.count?) threads
          sharding := ← orDefault d.sharding view.sharding? sharding }
  | _ => none

/-- The configuration that a document describes; what it leaves open is taken
from another one. -/
def configuration? (d : Configuration) (v : V) : Option Configuration := do
  match ← view.members
      ["abstraction", "sequencing", "mining", "filter", "oracle", "performance"] v with
  | [abstraction, sequencing, mining, filter, oracle, performance] =>
      some
        { abstraction := ← orDefault d.abstraction (view.abstraction? d.abstraction) abstraction
          sequencing := ← orDefault d.sequencing (view.sequencing? d.sequencing) sequencing
          mining := ← orDefault d.mining (view.mining? d.mining) mining
          filter := ← orDefault d.filter (view.filter? d.filter) filter
          oracle := ← orDefault d.oracle (view.oracle? d.oracle) oracle
          performance := ← orDefault d.performance (view.performance? d.performance) performance }
  | _ => none

end SettingsView

namespace Configuration

/-- The configuration that a JSON value describes. -/
def ofJson (v : Json) : Result Configuration :=
  match SettingsView.json.configuration? .default v with
  | some c => .ok c
  | none => .error (.serialization .json)

/-- Read a configuration written in JSON. -/
def parseJson (text : String) : Result Configuration :=
  match Json.parse text with
  | some v => ofJson v
  | none => .error (.serialization .json)

end Configuration

end EditMining
