import EditMining.CommandLine.Execution
import EditMining.Language.Lexer
import EditMining.Oracle.External

/-!
# The program

Runs a command line on the files of the machine. Oracle commands are run by the
shell of this library, which sees nothing but the files made for a question. Code is
split without a full grammar, and texts are searched position by position.
-/

namespace EditMining.Main

/-- Why the system refused something. -/
def faultOf : IO.Error → StorageFault
  | .noFileOrDirectory .. => .notFound
  | .alreadyExists .. => .alreadyExists
  | .permissionDenied .. => .other "Permission denied (os error 13)"
  | .inappropriateType .. => .isDirectory
  | e => .other e.toString

/-- Do something with a file, and say why it was refused. -/
def attempting {α : Type} (act : IO α) : StateT FileTree IO (Except StorageFault α) := do
  try
    let x ← (act : IO α)
    pure (.ok x)
  catch e => pure (.error (faultOf e))

/-- The text of a file. -/
def readText (path : String) : StateT FileTree IO (Except StorageFault String) := do
  match ← attempting (IO.FS.readBinFile path) with
  | .error fault => pure (.error fault)
  | .ok bytes =>
      match String.fromUTF8? bytes with
      | some text => pure (.ok text)
      | none => pure (.error .invalidText)

/-- Whether something can be opened, or is at least there. -/
def holds (path : String) : StateT FileTree IO Bool := do
  match ← attempting (IO.FS.Handle.mk path .read) with
  | .error .notFound => pure false
  | _ => pure true

/-- The files of the machine. -/
def storage : Storage (StateT FileTree IO) where
  read := readText
  write path text := attempting (IO.FS.writeFile path text)
  createDirectories path := attempting (IO.FS.createDirAll path)
  holds := holds

def workplace : CommandLine.Workplace FileTree (StateT FileTree IO) where
  storage := storage
  oracle settings := (ExternalOracle.ofSettings settings).oracle
  tools := ⟨.lexical, .overlapping⟩

/-- How a failure is told: the outermost cause first, the others below it. -/
def failureText (f : CommandLine.Failure) : String :=
  match f.causes with
  | [] => "Error\n"
  | first :: [] => "Error: " ++ first ++ "\n"
  | first :: [cause] => "Error: " ++ first ++ "\n\nCaused by:\n    " ++ cause ++ "\n"
  | first :: causes =>
      "Error: " ++ first ++ "\n\nCaused by:\n"
        ++ String.join (causes.zipIdx.map fun (cause, k) =>
          "    " ++ k.repr ++ ": " ++ cause ++ "\n")

end EditMining.Main

open EditMining in
def main (arguments : List String) : IO UInt32 := do
  let files := FileTree.withDirectory ["tmp"]
  let ((outcome, transcript), _) ← (CommandLine.perform Main.workplace arguments).run files
  IO.print transcript.out
  match outcome with
  | .done => IO.eprint (CommandLine.printed transcript.warnings)
  | .failed f => IO.eprint (Main.failureText f)
  | .misused => IO.eprint "error: invalid command line\n"
  pure outcome.exitCode.toUInt32
