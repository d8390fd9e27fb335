/-!
# Failures

Everything that can go wrong while edits are abstracted, sequenced, mined and
filtered is one `Error`. Each constructor carries what a caller may want to
know beside the message, and `Error.message` is the one place where a failure
is put into words.

A failure is *confined to a hunk* (`Error.isHunkLocal`) when it says something
about one fragment of code or one answer about it, and nothing about the hunks
that follow. A batch goes on after such a failure and stops at any other.
-/

namespace EditMining

/-- Why the system refused to read or write a file. -/
inductive StorageFault where
  | notFound
  | isDirectory
  | notADirectory
  | alreadyExists
  | invalidText
  | other (description : String)
  deriving DecidableEq, Inhabited, Repr

/-- The system's own words for a refusal. -/
def StorageFault.message : StorageFault → String
  | .notFound => "No such file or directory (os error 2)"
  | .isDirectory => "Is a directory (os error 21)"
  | .notADirectory => "Not a directory (os error 20)"
  | .alreadyExists => "File exists (os error 17)"
  | .invalidText => "stream did not contain valid UTF-8"
  | .other description => description

/-- The two document formats that are read and written. -/
inductive DocumentFormat where
  | json
  | yaml
  deriving DecidableEq, Inhabited, Repr

def DocumentFormat.name : DocumentFormat → String
  | .json => "JSON"
  | .yaml => "YAML"

inductive Error where
  /-- A file could not be read or written. -/
  | io (description : String) (fault : StorageFault)
  /-- A setting cannot be used. -/
  | config (description : String) (field : Option String)
  /-- A fragment of code does not split into tokens. -/
  | tokenization (language description : String) (line : Option String)
  /-- The structural oracle did not answer, or answered garbage. -/
  | oracle (description : String) (exitCode : Option Int) (stderr : Option String)
  /-- One node of an oracle's answer is not written as nodes are. -/
  | wireFormat (description entry : String)
  /-- A value is not what its place asks for. -/
  | validation (description : String) (field expected actual : Option String)
  /-- A document does not read as the value that was asked for. -/
  | serialization (format : DocumentFormat)
  /-- A stage of the pipeline cannot run. -/
  | pipeline (stage description : String)
  /-- A language or a way of running that is not known. -/
  | unsupported (description : String)
  /-- Anything else. -/
  | internal (description : String) (context : Option String)
  deriving DecidableEq, Inhabited, Repr

namespace Error

/-- The wording of a failure. -/
def message : Error → String
  | .io description _ => "I/O error: " ++ description
  | .config description _ => "Configuration error: " ++ description
  | .tokenization language description _ =>
      "Tokenization error in " ++ language ++ ": " ++ description
  | .oracle description _ _ => "Oracle error: " ++ description
  | .wireFormat description _ => "Malformed oracle entry: " ++ description
  | .validation description _ _ _ => "Validation error: " ++ description
  | .serialization format => "Serialization error: " ++ format.name ++ " serialization failed"
  | .pipeline stage description => "Pipeline error at stage '" ++ stage ++ "': " ++ description
  | .unsupported description => "Unsupported: " ++ description
  | .internal description _ => "Internal error: " ++ description

/-- The name of the kind of failure. -/
def kind : Error → String
  | .io .. => "Io"
  | .config .. => "Config"
  | .tokenization .. => "Tokenization"
  | .oracle .. => "Oracle"
  | .wireFormat .. => "WireFormat"
  | .validation .. => "Validation"
  | .serialization .. => "Serialization"
  | .pipeline .. => "Pipeline"
  | .unsupported .. => "Unsupported"
  | .internal .. => "Internal"

/-- What a failure carries beside its message, each part under its name. -/
def details : Error → List (String × String)
  | .io .. | .unsupported .. => []
  | .config _ field => named "field" field
  | .tokenization language _ line => ("language", language) :: named "line" line
  | .oracle _ exitCode stderr =>
      named "exit_code" (exitCode.map toString) ++ named "stderr" stderr
  | .wireFormat _ entry => [("entry", entry)]
  | .validation _ field expected actual =>
      named "field" field ++ named "expected" expected ++ named "actual" actual
  | .serialization format => [("data_type", format.name)]
  | .pipeline stage _ => [("stage", stage)]
  | .internal _ context => named "context" context
where
  named (name : String) (value : Option String) : List (String × String) :=
    (value.map fun v => (name, v)).toList

/-- A failure that leaves the other hunks of its batch untouched. -/
def isHunkLocal : Error → Bool
  | .tokenization .. | .oracle .. | .wireFormat .. => true
  | _ => false

/-- Say where a failure happened. Storage and oracle failures take the note in
front of their message, internal ones remember the last note, and the others
already name their place. -/
def inContext (context : String) : Error → Error
  | .io description fault => .io (context ++ ": " ++ description) fault
  | .oracle description exitCode stderr =>
      .oracle (context ++ ": " ++ description) exitCode stderr
  | .internal description _ => .internal description (some context)
  | e => e

/-- A value that is not the expected one. -/
def mismatch (description field expected actual : String) : Error :=
  .validation description (some field) (some expected) (some actual)

end Error

/-- The outcome of an operation that may fail. -/
abbrev Result (α : Type) := Except Error α

end EditMining
