import EditMining.Configuration.Writing
import EditMining.Storage
import EditMining.Yaml.Printer

/-!
# Configuration files

Configurations are kept in YAML. What is written reads back as the same
settings.
-/

namespace EditMining.Configuration

/-- A configuration as YAML text. -/
def toYaml (c : Configuration) : String :=
  Yaml.write c.toJson

variable {m : Type → Type} [Monad m]

/-- Read a configuration file. -/
def readFile (s : Storage m) (path : String) : m (Result Configuration) := do
  match ← s.read path with
  | .ok text => pure (parseYaml text)
  | .error fault => pure (.error (.io ("Failed to read config file: " ++ path) fault))

/-- Write a configuration file. -/
def writeFile (s : Storage m) (path : String) (c : Configuration) : m (Result Unit) := do
  match ← s.write path c.toYaml with
  | .ok _ => pure (.ok ())
  | .error fault => pure (.error (.io ("Failed to write config file: " ++ path) fault))

end EditMining.Configuration
