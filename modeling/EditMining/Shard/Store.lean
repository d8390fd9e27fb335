import EditMining.Pattern.Merge

/-!
# Patterns by shard

The patterns that were mined in each shard are kept under the shard's id, in the
order of the ids. Storing a shard's patterns again replaces them.
-/

namespace EditMining

/-- The patterns of some shards. -/
structure ShardStore where
  entries : List (String × List Pattern)
  deriving DecidableEq, Inhabited, Repr

namespace ShardStore

/-- No shard has patterns yet. -/
def empty : ShardStore := ⟨[]⟩

/-- Put an entry in its place among others that are ordered by their ids. -/
def insertEntry (id : String) (ps : List Pattern) :
    List (String × List Pattern) → List (String × List Pattern)
  | [] => [(id, ps)]
  | entry :: rest =>
      match compare id entry.1 with
      | .lt => (id, ps) :: entry :: rest
      | .eq => (id, ps) :: rest
      | .gt => entry :: insertEntry id ps rest

/-- Keep the patterns of a shard. -/
def insert (s : ShardStore) (id : String) (ps : List Pattern) : ShardStore :=
  ⟨insertEntry id ps s.entries⟩

/-- The patterns of a shard. -/
def get? (s : ShardStore) (id : String) : Option (List Pattern) :=
  s.entries.lookup id

/-- What the patterns of a shard would replace. Entries are gone through in the
order of their ids, no further than to the place where the id belongs. -/
def replacedEntry (id : String) : List (String × List Pattern) → Option (List Pattern)
  | [] => none
  | entry :: rest =>
      match compare id entry.1 with
      | .lt => none
      | .eq => some entry.2
      | .gt => replacedEntry id rest

/-- Keep the patterns of a shard, and give back those that they replace. -/
def exchange (s : ShardStore) (id : String) (ps : List Pattern) :
    Option (List Pattern) × ShardStore :=
  (replacedEntry id s.entries, s.insert id ps)

/-- The ids of the shards, in order. -/
def ids (s : ShardStore) : List String :=
  s.entries.map (·.1)

def size (s : ShardStore) : Nat :=
  s.entries.length

/-- The patterns of all shards together. -/
def merged (s : ShardStore) : List Pattern :=
  mergePatterns (s.entries.flatMap (·.2))

end ShardStore

end EditMining
