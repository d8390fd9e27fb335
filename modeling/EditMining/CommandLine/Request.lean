import EditMining.CommandLine.Options
import EditMining.Configuration

/-!
# Requests

A command line asks for one command, with the settings it overrides and the
files it works on.
-/

namespace EditMining.CommandLine

/-- Settings of a mining run that are given in place of configured ones. -/
structure MiningOverrides where
  configuration : Option String
  minSupport : Option Nat
  sharding : Option Sharding
  threads : Option Nat
  dockerImage : Option String
  deriving DecidableEq, Inhabited, Repr

/-- Settings of filtering that are given in place of configured ones. -/
structure FilterOverrides where
  threshold : Option Float
  minPruningSupport : Option Nat
  deriving Inhabited, Repr

/-- What is mined. -/
inductive MiningSource where
  | records (path : String)
  | sequences (path : String)
  deriving DecidableEq, Inhabited, Repr

inductive Request where
  /-- Mine patterns shard by shard. -/
  | mine (source : MiningSource) (out : String) (dumpsSequences : Bool)
      (overrides : MiningOverrides)
  /-- Merge files of patterns. -/
  | merge (inputs : List String) (out : String)
  /-- Filter patterns by held-out records. -/
  | filter (patterns heldOut out : String) (overrides : MiningOverrides)
      (filterOverrides : FilterOverrides)
  /-- Mine and filter. -/
  | run (training heldOut out : String) (dumpsSequences : Bool) (overrides : MiningOverrides)
      (filterOverrides : FilterOverrides)
  /-- Show the first patterns of a file. -/
  | explain (patterns : String) (top : Nat)
  | listLanguages
  | printDefaultConfiguration
  /-- Write a file with the default configuration. -/
  | createConfiguration (output : String) (replaces : Bool)
  | validateConfiguration (path : String) (isDetailed : Bool)
  deriving Inhabited

/-! ## The options of each command -/

/-- An option without a value. -/
def switch (name : String) (letter : Option Char) : OptionSpec :=
  ⟨name, letter, none⟩

/-- Options that are understood everywhere. -/
def generalOptions : List OptionSpec :=
  [switch "help" (some 'h'), switch "verbose" (some 'v'),
    ⟨"log-format", none, some (.choice ["text", "json"])⟩]

/-- Options in front of the command. -/
def leadingOptions : List OptionSpec :=
  switch "version" (some 'V') :: generalOptions

def miningOptions : List OptionSpec :=
  [⟨"config", some 'c', some .path⟩, ⟨"min-support", none, some .count⟩,
    ⟨"shard-by", none, some (.choice ["year", "none"])⟩, ⟨"threads", none, some .count⟩,
    ⟨"docker-image", none, some .text⟩]

def filterOptions : List OptionSpec :=
  [⟨"threshold", none, some .real⟩, ⟨"min-pruning-support", none, some .count⟩]

def outOption : OptionSpec := ⟨"out", some 'o', some .path⟩

def dumpOption : OptionSpec := switch "dump-sequences" none

/-- The options of a command, if there is a command of that name. -/
def optionsOf? (command : String) : Option (List OptionSpec) :=
  match command with
  | "mine" =>
      some (⟨"sequences", none, some .path⟩ :: outOption :: dumpOption :: miningOptions)
  | "merge" => some [outOption]
  | "filter" => some (outOption :: miningOptions ++ filterOptions)
  | "run" => some (outOption :: dumpOption :: miningOptions ++ filterOptions)
  | "explain" => some [⟨"top", none, some .count⟩]
  | "list-languages" | "print-default-config" => some []
  | "init-config" => some [⟨"output", some 'o', some .path⟩, switch "force" (some 'f')]
  | "validate-config" => some [⟨"config", some 'c', some .path⟩, switch "detailed" none]
  | _ => none

/-! ## Requests of command lines -/

def MiningOverrides.ofParsed (p : Parsed) : MiningOverrides where
  configuration := p.value? "config"
  minSupport := p.count? "min-support"
  sharding := (p.value? "shard-by").map fun v => if v = "year" then .byYear else .single
  threads := p.count? "threads"
  dockerImage := p.value? "docker-image"

def FilterOverrides.ofParsed (p : Parsed) : FilterOverrides where
  threshold := p.real? "threshold"
  minPruningSupport := p.count? "min-pruning-support"

/-- The request that a command with options and operands makes. -/
def Request.ofParsed? (command : String) (p : Parsed) : Option Request :=
  let out (default : String) : String := (p.value? "out").getD default
  if p.operands.any (· == "") then none
  else
    match command, p.operands with
    | "mine", [path] =>
        if p.hasOption "sequences" then none
        else
          some
            (.mine (.records path) (out ".fixmine") (p.hasOption "dump-sequences") (.ofParsed p))
    | "mine", [] =>
        (p.value? "sequences").map fun path =>
          .mine (.sequences path) (out ".fixmine") (p.hasOption "dump-sequences") (.ofParsed p)
    | "merge", path :: more => some (.merge (path :: more) (out "patterns.json"))
    | "filter", [patterns, heldOut] =>
        some (.filter patterns heldOut (out "fixes.json") (.ofParsed p) (.ofParsed p))
    | "run", [training, heldOut] =>
        some
          (.run training heldOut (out ".fixmine") (p.hasOption "dump-sequences") (.ofParsed p)
            (.ofParsed p))
    | "explain", [patterns] => some (.explain patterns ((p.count? "top").getD 20))
    | "list-languages", [] => some .listLanguages
    | "print-default-config", [] => some .printDefaultConfiguration
    | "init-config", [] =>
        some
          (.createConfiguration ((p.value? "output").getD ".fixmine.yml") (p.hasOption "force"))
    | "validate-config", [] =>
        (p.value? "config").map fun path => .validateConfiguration path (p.hasOption "detailed")
    | _, _ => none

/-- The request that a command line makes. -/
def Request.parse (words : List String) : Except Refusal Request :=
  match readLeading leadingOptions words with
  | .error refusal => .error refusal
  | .ok (_, []) => .error .usage
  | .ok (_, "help" :: _) => .error .help
  | .ok (_, command :: rest) =>
      match optionsOf? command with
      | none => .error .usage
      | some options =>
          match readAll (options ++ generalOptions) rest with
          | .error refusal => .error refusal
          | .ok p =>
              match Request.ofParsed? command p with
              | some r => .ok r
              | none => .error .usage

end EditMining.CommandLine
