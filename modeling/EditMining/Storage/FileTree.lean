import EditMining.Language
import EditMining.Pipeline
import EditMining.Storage

/-!
# Files in memory

A file tree holds directories and files by the names on the way to them. Paths
are followed name by name from the working directory, or from the root if they
begin with a separator; every name but the last has to be a directory.
-/

namespace EditMining

/-- What stands at a place in a file tree. -/
inductive FileEntry where
  | directory
  | file (text : String)
  deriving DecidableEq, Inhabited, Repr

structure FileTree where
  workingDirectory : List String
  entries : List (List String × FileEntry)
  deriving Inhabited, Repr

namespace FileTree

/-- What stands at a place; the root is always there. -/
def entry? (t : FileTree) (place : List String) : Option FileEntry :=
  if place.isEmpty then some .directory else t.entries.lookup place

/-- Put something at a place. -/
def put (t : FileTree) (place : List String) (e : FileEntry) : FileTree :=
  { t with entries := (place, e) :: t.entries.filter fun old => old.1 != place }

/-- A tree with one working directory and the directories above it. -/
def withDirectory (names : List String) : FileTree :=
  ⟨names, ((List.range names.length).map fun n => (names.take (n + 1), FileEntry.directory))⟩

/-- The place that a name leads to from a directory. -/
def enter (place : List String) (name : String) : List String :=
  if name = "." || name = "" then place
  else if name = ".." then place.dropLast
  else place ++ [name]

/-- The place that some names lead to. -/
def follow (t : FileTree) (place : List String) : List String → Except StorageFault (List String)
  | [] => .ok place
  | name :: rest =>
      match t.entry? place with
      | some .directory => t.follow (enter place name) rest
      | some (.file _) => .error .notADirectory
      | none => .error .notFound

/-- The place where following a path begins, and the names on it. -/
def start (t : FileTree) (path : String) : List String × List String :=
  let names := (Language.splitAtChar '/' path.toList).map String.ofList
  (if path.toList.head? == some '/' then [] else t.workingDirectory, names)

/-- The place of a path. -/
def locate (t : FileTree) (path : String) : Except StorageFault (List String) :=
  if path = "" then .error .notFound
  else
    let (place, names) := t.start path
    t.follow place names

/-- The text of a file. -/
def read (t : FileTree) (path : String) : Except StorageFault String := do
  match t.entry? (← t.locate path) with
  | some (.file text) => .ok text
  | some .directory => .error .isDirectory
  | none => .error .notFound

def holds (t : FileTree) (path : String) : Bool :=
  match t.locate path with
  | .ok place => (t.entry? place).isSome
  | .error _ => false

/-- Put a text into a file. -/
def write (t : FileTree) (path text : String) : Except StorageFault FileTree := do
  let place ← t.locate path
  match t.entry? place with
  | some .directory => .error .isDirectory
  | _ => .ok (t.put place (.file text))

/-- Make the directories along some names. -/
def createAlong (t : FileTree) (place : List String) : List String → Except StorageFault FileTree
  | [] => .ok t
  | name :: rest =>
      let next := enter place name
      match t.entry? next with
      | some .directory => t.createAlong next rest
      | some (.file _) => .error (if rest.isEmpty then .alreadyExists else .notADirectory)
      | none => (t.put next .directory).createAlong next rest

/-- Make one directory inside another. -/
def createDirectory (t : FileTree) (path : String) : Except StorageFault FileTree := do
  let place ← t.locate path
  match t.entry? place with
  | some _ => .error .alreadyExists
  | none => .ok (t.put place .directory)

/-- Remove what a path leads to, with all that is in it. -/
def remove (t : FileTree) (path : String) : FileTree :=
  match t.locate path with
  | .ok place => { t with entries := t.entries.filter fun e => !place.isPrefixOf e.1 }
  | .error _ => t

/-- A path from the root. -/
def absolute (t : FileTree) (path : String) : String :=
  if path.toList.head? == some '/' then path
  else "/" ++ "/".intercalate t.workingDirectory ++ "/" ++ path

/-- Make a directory and those above it. -/
def createDirectories (t : FileTree) (path : String) : Except StorageFault FileTree :=
  let (place, names) := t.start path
  t.createAlong place (names.filter (· ≠ ""))

/-- Keep a changed tree, and say whether there is one. -/
def update (change : FileTree → Except StorageFault FileTree) :
    StateM FileTree (Except StorageFault Unit) := do
  match change (← get) with
  | .ok t =>
      set t
      pure (.ok ())
  | .error fault => pure (.error fault)

/-- The files of a tree as storage. -/
def storage : Storage (StateM FileTree) where
  read path := do pure ((← get).read path)
  write path text := update fun t => t.write path text
  createDirectories path := update fun t => t.createDirectories path
  holds path := do pure ((← get).holds path)

/-- What a pipeline sees of a tree. -/
def view (t : FileTree) : FileView :=
  ⟨t.holds, t.read⟩

end FileTree

end EditMining
