import EditMining.Documents
import EditMining.Text.Search

/-!
# Stored documents

Documents are kept in files. Where the files are is left open: a `Storage` says
how they are read and written in some monad. `Storage.FileTree` keeps them in
memory.

A document is written with all directories above it. Failures name the path as
it was given.
-/

namespace EditMining

/-- How files are read and written. -/
structure Storage (m : Type → Type) where
  /-- The text of a file. -/
  read : String → m (Except StorageFault String)
  /-- Put a text into a file, whatever was there before. -/
  write : String → String → m (Except StorageFault Unit)
  /-- Make a directory and those above it. -/
  createDirectories : String → m (Except StorageFault Unit)
  /-- Whether there is a file or directory at a path. -/
  holds : String → m Bool

namespace Path

/-- A path without separators and single dots at its end. -/
def trimEnd (path : List Char) : List Char :=
  match Text.splitAtLast '/' path with
  | none => path
  | some (before, last) =>
      if last.isEmpty || last == ['.'] then
        if before.isEmpty then ['/']
        else if before.length < path.length then trimEnd before else before
      else path
termination_by path.length

/-- The path of the directory that a path is in; empty for a path that is a
single name. -/
def parent (path : String) : String :=
  match Text.splitAtLast '/' (trimEnd path.toList) with
  | none => ""
  | some ([], _) => if trimEnd path.toList == ['/'] then "" else "/"
  | some (before, _) => String.ofList (trimEnd before)

/-- A path inside a directory. -/
def join (directory name : String) : String :=
  if directory = "" || directory.toList.getLast? == some '/' then directory ++ name
  else directory ++ "/" ++ name

end Path

namespace Storage

variable {m : Type → Type} [Monad m] (s : Storage m)

/-- Read a JSON document. What can be opened but not read as text is no
document. -/
def readJson {α : Type} (read : Json → Option α) (path : String) : m (Result α) := do
  match ← s.read path with
  | .ok text =>
      match Json.decode read text with
      | some x => pure (.ok x)
      | none => pure (.error (.serialization .json))
  | .error .isDirectory | .error .invalidText => pure (.error (.serialization .json))
  | .error fault => pure (.error (.io ("Failed to open " ++ path) fault))

/-- Make the directory that a path is in. -/
def createParent (path : String) : m (Result Unit) := do
  let directory := Path.parent path
  if directory = "" then pure (.ok ())
  else
    match ← s.createDirectories directory with
    | .ok _ => pure (.ok ())
    | .error fault => pure (.error (.io ("Failed to create " ++ directory) fault))

/-- Write a JSON document. -/
def writeJson (path : String) (v : Json) : m (Result Unit) := do
  match ← s.createParent path with
  | .error e => pure (.error e)
  | .ok _ =>
      match ← s.write path v.pretty with
      | .ok _ => pure (.ok ())
      | .error fault => pure (.error (.io ("Failed to create " ++ path) fault))

def readRecords (path : String) : m (Result (List Record)) :=
  s.readJson (Json.asList Record.ofJson?) path

def readPatterns (path : String) : m (Result (List Pattern)) :=
  s.readJson (Json.asList Pattern.ofJson?) path

def readScoredPatterns (path : String) : m (Result (List ScoredPattern)) :=
  s.readJson (Json.asList ScoredPattern.ofJson?) path

/-- Read a corpus; all of its document has to have a value. -/
def readCorpus (path : String) : m (Result (List TokenSequence)) := do
  let document ← s.readJson (fun v => if v.isWhole then some v else none) path
  pure (document.bind Corpus.ofJson)

def writeRecords (path : String) (records : List Record) : m (Result Unit) :=
  s.writeJson path (.array (records.map Record.toJson))

def writePatterns (path : String) (patterns : List Pattern) : m (Result Unit) :=
  s.writeJson path (.array (patterns.map Pattern.toJson))

def writeScoredPatterns (path : String) (patterns : List ScoredPattern) : m (Result Unit) :=
  s.writeJson path (.array (patterns.map ScoredPattern.toJson))

def writeCorpus (path : String) (corpus : List TokenSequence) : m (Result Unit) :=
  s.writeJson path (Corpus.toJson corpus)

end Storage

end EditMining
