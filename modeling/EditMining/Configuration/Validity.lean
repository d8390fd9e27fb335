import EditMining.Configuration
import EditMining.Decimal.Layout
import EditMining.Text.Blank

/-!
# Valid configurations

Settings are checked section by section, and the first one that cannot be used
is reported under its full name. A threshold has to be in the unit interval,
which no value that is not a number is.
-/

namespace EditMining.Configuration

/-- A count has to be positive. -/
def checkPositive (field : String) (n : Nat) : Result Unit :=
  if n = 0 then .error (.mismatch (field ++ " must be greater than 0") field "> 0" n.repr)
  else .ok ()

/-- A share has to be between zero and one. -/
def checkUnitRange (field : String) (x : Float) : Result Unit :=
  if 0.0 ≤ x && x ≤ 1.0 then .ok ()
  else
    .error
      (.mismatch (field ++ " must be between 0.0 and 1.0") field "[0.0, 1.0]"
        (Decimal.Layout.plain.text x))

/-- A text has to show something. -/
def checkNotBlank (field text : String) : Result Unit :=
  if Text.isBlankText text then
    .error (.validation (field ++ " must not be empty") none none none)
  else .ok ()

/-- A setting that may be missing is checked where it is there. -/
def checkOptional {α : Type} (check : α → Result Unit) : Option α → Result Unit
  | none => .ok ()
  | some x => check x

/-- A dictionary has to be there. -/
def checkDictionary (pathExists : String → Bool) (path : String) : Result Unit :=
  if pathExists path then .ok ()
  else
    .error
      (.config ("Dictionary file not found: " ++ path) (some "abstraction.dictionary_path"))

def checkAbstraction (pathExists : String → Bool) (s : AbstractionSettings) : Result Unit := do
  s.extraReservedNames.forM (checkNotBlank "abstraction.extra_reserved_names")
  checkOptional (checkDictionary pathExists) s.dictionaryPath

def checkSequencing (s : SequencingSettings) : Result Unit := do
  checkPositive "sequencing.max_hunk_lines" s.maxHunkLines
  checkPositive "sequencing.max_sequence_tokens" s.maxSequenceTokens
  checkNotBlank "sequencing.language" s.language

def checkMining (s : MiningSettings) : Result Unit :=
  checkPositive "mining.min_support" s.minSupport

def checkFilter (s : FilterSettings) : Result Unit := do
  checkUnitRange "filter.confidence_threshold" s.confidenceThreshold
  checkPositive "filter.min_pruning_support" s.minPruningSupport

def checkOracle (s : OracleSettings) : Result Unit := do
  checkNotBlank "oracle.command" s.command
  checkPositive "oracle.timeout_secs" s.timeoutSeconds
  checkOptional (checkNotBlank "oracle.docker_image") s.dockerImage

def checkPerformance (s : PerformanceSettings) : Result Unit :=
  checkOptional (checkPositive "performance.max_threads") s.maxThreads

/-- Check every setting. -/
def validate (pathExists : String → Bool) (c : Configuration) : Result Unit := do
  checkAbstraction pathExists c.abstraction
  checkSequencing c.sequencing
  checkMining c.mining
  checkFilter c.filter
  checkOracle c.oracle
  checkPerformance c.performance

end EditMining.Configuration
