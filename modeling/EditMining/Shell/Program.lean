import EditMining.Shell.Execution

/-!
# Programs

A program is started by its name with some arguments and nothing to read. It
ends on its own, by a signal, or not at all; what it writes by then is kept.
-/

namespace EditMining.Shell

/-- How a program ended. -/
inductive Ending where
  | exited (code : Nat)
  | killed (signal : Nat)
  | unfinished
  deriving DecidableEq, Inhabited, Repr

/-- How an ending is told. -/
def Ending.describe : Ending → String
  | .exited code => "exit status: " ++ code.repr
  | .killed signal => "signal: " ++ Signal.describe signal
  | .unfinished => "no end"

/-- What a program left behind. -/
structure Finished where
  ending : Ending
  out : Bytes
  err : Bytes
  /-- The time until the end, in milliseconds. -/
  elapsed : Nat
  files : FileTree
  deriving Inhabited

/-- How deep commands may nest. -/
def depthBound : Nat := 4000

/-- The machine that a program finds. -/
def machine (files : FileTree) (name : String) : Machine where
  files := files
  buffers := [#[], #[]]
  elapsed := 0
  context :=
    { name := bytesOf name
      arguments := []
      bindings := []
      status := 0
      substituted := 0
      endsOnFailure := false
      input := []
      channels := [(1, .buffer 0), (2, .buffer 1)] }

/-- Why a name leads to no program. -/
def spawnFault (files : FileTree) (program : String) : StorageFault :=
  if program.toList.contains '/' then
    match files.locate program with
    | .ok place =>
        if (files.entry? place).isSome then .other "Permission denied (os error 13)"
        else .notFound
    | .error fault => fault
  else .notFound

/-- Start a program and let it run to its end. -/
def runProgram (files : FileTree) (program : String) (arguments : List String) :
    Except StorageFault Finished :=
  if (program :: arguments).any fun a => a.toList.contains '\x00' then
    .error (.other "nul byte found in provided data")
  else if isShell program || (program? program).isSome then
    let (result, m) := (invoke depthBound program (arguments.map bytesOf)).run (machine files program)
    let ending : Ending := match result with
      | .ok _ => .exited m.context.status
      | .error (.exit code) => .exited code
      | .error (.killed signal) => .killed signal
      | .error _ => .unfinished
    let written (n : Nat) : Bytes := (m.buffers[n]?.getD #[]).toList
    .ok ⟨ending, written 0, written 1, m.elapsed, m.files⟩
  else .error (spawnFault files program)

end EditMining.Shell
