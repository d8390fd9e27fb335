import EditMining.Distinct
import EditMining.Hunk

/-!
# Shards

Records are mined in shards: those that were merged in one calendar year make a
shard, and those without a time make another. Each record is in exactly one
shard, and the records of a shard keep their order. When nothing is to be told
apart all records are one shard.
-/

namespace EditMining

/-- By what records are told apart. -/
inductive Sharding where
  | byYear
  | single
  deriving DecidableEq, Inhabited, Repr

/-- Records that are mined together. -/
structure Shard where
  id : String
  records : List Record
  deriving DecidableEq, Inhabited, Repr

namespace Shard

/-- The shard of records without a time. -/
def unknownId : String := "unknown"

/-- The shard of all records. -/
def singleId : String := "all"

/-- The decimal form of a year, with a minus sign before year zero. -/
def yearId : Int → String
  | .ofNat n => n.repr
  | .negSucc n => "-" ++ (n + 1).repr

/-- The shard that a record belongs to. -/
def idOf (sharding : Sharding) (r : Record) : String :=
  match sharding with
  | .single => singleId
  | .byYear => r.year.elim unknownId yearId

/-- The ids of the shards of some records, in order. -/
def ids (sharding : Sharding) (records : List Record) : List String :=
  (distinct (records.map (idOf sharding))).mergeSort fun a b => (compare a b).isLE

/-- The records of one shard. -/
def withId (sharding : Sharding) (records : List Record) (id : String) : Shard :=
  ⟨id, records.filter fun r => idOf sharding r = id⟩

/-- The shards of some records, ordered by their ids. -/
def partition (sharding : Sharding) (records : List Record) : List Shard :=
  (ids sharding records).map (withId sharding records)

end Shard

end EditMining
