import EditMining.Configuration.Files
import EditMining.Language
import EditMining.Pipeline
import EditMining.Placeholder
import EditMining.Text.Columns
import EditMining.Text.Quoted

/-!
# What commands print

Each report is a list of lines.
-/

namespace EditMining.CommandLine

/-- Lines as they are printed. -/
def printed (lines : List String) : String :=
  String.join (lines.map (· ++ "\n"))

/-- The name and the version of the program. -/
def versionText : String := "fixmine 0.3.0"

/-! ## Mining -/

/-- A row of the table of shards. -/
def shardRow (shard records sequences patterns skipped oversize : String) : String :=
  " ".intercalate
    [Text.padEnd 10 shard, Text.padStart 8 records, Text.padStart 10 sequences,
      Text.padStart 9 patterns, Text.padStart 8 skipped, Text.padStart 9 oversize]

/-- The records of a shard that gave nothing. -/
def ShardStats.skipped (s : ShardStats) : Nat :=
  s.emptySides + s.unsupported + s.skippedHunks

/-- What was left out of a shard for its size. -/
def ShardStats.oversize (s : ShardStats) : Nat :=
  s.sequencing.oversizedHunks + s.sequencing.oversizedSequences + s.oversizedSequences

def outcomeRow (o : ShardOutcome) : String :=
  shardRow o.shard o.stats.records.repr o.sequences.length.repr o.patterns.length.repr
    (ShardStats.skipped o.stats).repr (ShardStats.oversize o.stats).repr

/-- One line for each shard. -/
def shardTable (outcomes : List ShardOutcome) : List String :=
  ["", shardRow "shard" "records" "sequences" "patterns" "skipped" "oversize"]
    ++ outcomes.map outcomeRow ++ [""]

/-- The shards that were not finished. -/
def failureLines (outcomes : List ShardOutcome) : List String :=
  outcomes.filterMap fun o =>
    o.failure.map fun reason =>
      "! shard " ++ o.shard ++ " stopped early and is partial: " ++ reason

def mergedLine (patterns : Nat) (path : String) : String :=
  "✓ " ++ patterns.repr ++ " merged patterns -> " ++ path

def mergeLine (files patterns : Nat) (path : String) : String :=
  "✓ Merged " ++ files.repr ++ " files into " ++ patterns.repr ++ " patterns -> " ++ path

/-! ## Filtering -/

/-- What each step of filtering has left out. -/
def filterSummary (r : FilterReport) : List String :=
  "Filter summary" :: [("merged", r.merged), ("symbols only", r.symbolsOnly),
    ("no change", r.noChange), ("unbalanced", r.unbalanced), ("low support", r.lowSupport),
    ("redundant", r.redundant), ("low confidence", r.lowConfidence), ("kept", r.kept)].map
      fun (label, count) => "   " ++ Text.padEnd 16 label ++ " " ++ count.repr

def artifactLine (patterns : Nat) (path : String) : String :=
  "✓ " ++ patterns.repr ++ " patterns -> " ++ path

/-! ## Patterns -/

/-- A pattern and its two sides. -/
def patternLines (rank : Nat) (p : Pattern) : List String :=
  ["", "#" ++ rank.repr ++ " " ++ " ".intercalate p.rendered ++ "  support " ++ p.support.repr,
    "   trigger " ++ Text.shownList p.trigger, "     regex " ++ Text.regexSource p.trigger,
    "   change  " ++ Text.shownList p.change, "     regex " ++ Text.regexSource p.change]

/-- The first patterns of a file. -/
def explanation (path : String) (top : Nat) (patterns : List Pattern) : List String :=
  ("Patterns " ++ patterns.length.repr ++ " patterns in " ++ path)
    :: ((patterns.take top).zipIdx 1).flatMap fun (p, rank) => patternLines rank p

/-! ## Languages and settings -/

def languageLine (l : Language) : String :=
  "   " ++ Text.padEnd 12 l.name ++ " " ++ Text.padEnd 6 l.key ++ " "
    ++ ", ".intercalate (l.extensions.map ("." ++ ·))

def languageLines : List String :=
  ["Supported Programming Languages",
    "   Found " ++ Language.all.length.repr ++ " supported languages", ""]
    ++ Language.all.map languageLine

def defaultConfigurationHeader : List String :=
  ["# Default fixmine configuration", "# Save this to a file and customize as needed", ""]

/-- What is said about a configuration file that was written. -/
def creationLines (path : String) : List String :=
  ["✅ Configuration saved to: " ++ path, "", "Key settings you can customize:"]
    ++ [("mining.min_support", "Occurrences a pattern needs within one shard"),
        ("filter.confidence_threshold", "Minimum held-out confidence to keep a pattern"),
        ("oracle.docker_image", "Run the structural diff tool through docker"),
        ("performance.shard_by",
          "Shard records by \x60year\x60 or not at all (\x60none\x60)")].map
      fun (setting, description) => "   " ++ Text.padEnd 30 setting ++ " " ++ description

def shardingName : Sharding → String
  | .byYear => "Year"
  | .single => "None"

/-- What is said about a valid configuration. -/
def validityLines (c : Configuration) : List String :=
  ["✅ Configuration file is valid!",
    "   min_support=" ++ c.mining.minSupport.repr ++ "  confidence_threshold="
      ++ Decimal.Layout.plain.text c.filter.confidenceThreshold ++ "  max_sequence_tokens="
      ++ c.sequencing.maxSequenceTokens.repr ++ "  shard_by="
      ++ shardingName c.performance.sharding]

end EditMining.CommandLine
