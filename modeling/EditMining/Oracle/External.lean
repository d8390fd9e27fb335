import EditMining.Configuration
import EditMining.Decimal.Tenths
import EditMining.Oracle
import EditMining.Shell.Program
import EditMining.Text.Lines
import EditMining.Text.Quoted

/-!
# Programs as oracles

A program is asked for the structural diff of a hunk: both sides are put into
files of a directory of their own, which is there for this one question, and the
program is given their paths behind its own arguments. Its output is the answer,
if it ends well and in time.

All that may go wrong here is confined to the hunk.
-/

namespace EditMining

/-- A program that is asked, and how long it may take, in milliseconds. -/
structure ExternalOracle where
  settings : OracleSettings
  limit : Nat
  deriving DecidableEq, Inhabited, Repr

namespace ExternalOracle

/-- The program that is set, with the limit that is set. -/
def ofSettings (s : OracleSettings) : ExternalOracle :=
  ⟨s, s.timeoutSeconds * 1000⟩

/-- The directory for one question. -/
def scratchPath (e : ExternalOracle) (files : FileTree) : String :=
  Path.join (files.absolute (e.settings.scratchDirectory.getD "/tmp")) "fixmine-oracle-000000"

/-- The directory under which a container sees the one for the question. -/
def mountPoint : String := "/work"

/-- The program that is started and its arguments: the one that is set, or one
that runs it in a container. -/
def commandLine (e : ExternalOracle) (scratch : String) (names : List String) :
    String × List String :=
  match e.settings.dockerImage with
  | some image =>
      ("docker",
        ["run", "--rm", "-v", scratch ++ ":" ++ mountPoint, image, e.settings.command]
          ++ e.settings.arguments ++ names.map (Path.join mountPoint))
  | none => (e.settings.command, e.settings.arguments ++ names.map (Path.join scratch))

/-- The limit as it is told. -/
def limitText (e : ExternalOracle) : String :=
  Decimal.tenthsText
    ((e.limit / 1000).toUInt64.toFloat
      + (e.limit % 1000 * 1000000).toUInt64.toFloat / 1000000000.0)

def failure (description : String) : Error :=
  .oracle description none none

/-- What the output of a program says. -/
def readOutput (e : ExternalOracle) (out : Shell.Bytes) : Result StructuralDiff :=
  match Text.Utf8.decode out with
  | .ok chars => StructuralDiff.parse (String.ofList chars)
  | .error fault =>
      .error (failure (e.settings.command ++ " produced non-UTF-8 output: " ++ fault.message))

/-- The answer of a program that has run. -/
def judge (e : ExternalOracle) (program : String) (r : Shell.Finished) : Result StructuralDiff :=
  if r.ending = .unfinished || e.limit ≤ r.elapsed then
    .error (failure (program ++ " timed out after " ++ e.limitText ++ "s"))
  else
    let exitedWith (code : Option Int) : Result StructuralDiff :=
      .error (.oracle (e.settings.command ++ " exited with " ++ r.ending.describe) code
        (some (String.ofList (Text.trim (Text.Utf8.decodeLossy r.err)))))
    match r.ending with
    | .exited 0 => e.readOutput r.out
    | .exited code => exitedWith (some code)
    | _ => exitedWith none

/-- Put the sides of a hunk into files of a directory. -/
def writeSides (files : FileTree) (scratch : String) (sides : List (String × List String)) :
    Result FileTree :=
  sides.foldlM (fun files (name, lines) =>
    match files.write (Path.join scratch name) (Text.joinLines lines) with
    | .ok files => .ok files
    | .error fault => .error (failure ("failed to write " ++ name ++ ": " ++ fault.message))) files

/-- Ask the program. -/
def answer (e : ExternalOracle) (l : Language) (h : Hunk) (files : FileTree) :
    Result StructuralDiff × FileTree :=
  let scratch := e.scratchPath files
  let extension := l.extensions.headD ""
  let sides := [("src." ++ extension, h.condition), ("dest." ++ extension, h.consequent)]
  match files.createDirectory scratch with
  | .error fault =>
      (.error (failure ("failed to create scratch directory: " ++ fault.message ++ " at path "
        ++ Text.shown scratch)), files)
  | .ok there =>
      match writeSides there scratch sides with
      | .error e => (.error e, files)
      | .ok there =>
          let (program, arguments) := e.commandLine scratch (sides.map (·.1))
          match Shell.runProgram there program arguments with
          | .error fault =>
              (.error (failure ("failed to spawn " ++ program ++ ": " ++ fault.message)), files)
          | .ok r => (e.judge program r, r.files.remove scratch)

/-- The oracle, which remembers the files of the machine. -/
def oracle (e : ExternalOracle) : Oracle FileTree :=
  ⟨e.answer⟩

end ExternalOracle

end EditMining
