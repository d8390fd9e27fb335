import EditMining.Abstraction.ReservedNames
import EditMining.Filter
import EditMining.Sequencing
import EditMining.Shard

/-!
# Configurations

All settings of a mining run, in sections. A setting that is not given has a
default.
-/

namespace EditMining

/-- How often a pattern has to occur in one shard. -/
structure MiningSettings where
  minSupport : Nat
  deriving DecidableEq, Inhabited, Repr

/-- How the oracle is called: a program with its arguments, perhaps inside a
container, for a limited time and with files in a directory of its own. -/
structure OracleSettings where
  command : String
  arguments : List String
  dockerImage : Option String
  timeoutSeconds : Nat
  scratchDirectory : Option String
  deriving DecidableEq, Inhabited, Repr

/-- How much is done at a time, and what shards there are. -/
structure PerformanceSettings where
  maxThreads : Option Nat
  sharding : Sharding
  deriving DecidableEq, Inhabited, Repr

structure Configuration where
  abstraction : AbstractionSettings
  sequencing : SequencingSettings
  mining : MiningSettings
  filter : FilterSettings
  oracle : OracleSettings
  performance : PerformanceSettings
  deriving Inhabited

namespace Configuration

/-- The settings that hold where nothing else is said. -/
def default : Configuration where
  abstraction :=
    { extraReservedNames := []
      dictionaryPath := none
      normalizesFunctionNames := true }
  sequencing :=
    { maxHunkLines := 5
      maxSequenceTokens := 15
      language := "py" }
  mining := { minSupport := 2 }
  filter :=
    { confidenceThreshold := 0.1
      minPruningSupport := 2 }
  oracle :=
    { command := "gumtree"
      arguments := ["textdiff", "-f", "JSON"]
      dockerImage := none
      timeoutSeconds := 60
      scratchDirectory := none }
  performance :=
    { maxThreads := none
      sharding := .byYear }

end Configuration

end EditMining
