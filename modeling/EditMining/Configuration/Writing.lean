import EditMining.Configuration.Reading

/-!
# Writing configurations

A configuration is written section by section, each setting in its place;
settings that may be missing are left out where they are.
-/

namespace EditMining.Configuration

/-- A member for a setting that may be missing. -/
def optionalSetting {α : Type} (name : String) (write : α → Json) (value : Option α) :
    List (String × Json) :=
  (value.map fun x => (name, write x)).toList

def textList (texts : List String) : Json :=
  .array (texts.map .string)

/-- The document that describes a configuration. -/
def toJson (c : Configuration) : Json :=
  .object
    [("abstraction",
        .object
          (("extra_reserved_names", textList c.abstraction.extraReservedNames)
            :: optionalSetting "dictionary_path" .string c.abstraction.dictionaryPath
            ++ [("normalize_function_names", .bool c.abstraction.normalizesFunctionNames)])),
      ("sequencing",
        .object
          [("max_hunk_lines", .natural c.sequencing.maxHunkLines),
            ("max_sequence_tokens", .natural c.sequencing.maxSequenceTokens),
            ("language", .string c.sequencing.language)]),
      ("mining", .object [("min_support", .natural c.mining.minSupport)]),
      ("filter",
        .object
          [("confidence_threshold", .real c.filter.confidenceThreshold),
            ("min_pruning_support", .natural c.filter.minPruningSupport)]),
      ("oracle",
        .object
          ([("command", .string c.oracle.command), ("args", textList c.oracle.arguments)]
            ++ optionalSetting "docker_image" .string c.oracle.dockerImage
            ++ ("timeout_secs", .natural c.oracle.timeoutSeconds)
            :: optionalSetting "scratch_dir" .string c.oracle.scratchDirectory)),
      ("performance",
        .object
          (optionalSetting "max_threads" .natural c.performance.maxThreads
            ++ [("shard_by", .string c.performance.sharding.name)]))]

end EditMining.Configuration
