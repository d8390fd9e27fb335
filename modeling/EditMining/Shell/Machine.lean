import EditMining.Shell.Syntax
import EditMining.Storage.FileTree
import EditMining.Text.Utf8

/-!
# What a script works on

A script runs on a machine with files, a clock and some buffers, which hold what
has been written so far. All that belongs to one shell is its *context*: a
subshell gets a copy of it, and what happens to the copy does not come back.

A channel leads to a buffer, to a file or to nowhere. Buffers 0 and 1 collect the
two outputs of the whole script; more of them are opened for what goes through
pipes or becomes part of a word.
-/

namespace EditMining.Shell

/-- The text that bytes are shown as. -/
def textOf (bytes : Bytes) : String :=
  String.ofList (Text.Utf8.decodeLossy bytes)

/-- Where something written goes. -/
inductive Sink where
  | buffer (index : Nat)
  | file (place : List String)
  | nowhere
  deriving DecidableEq, Inhabited, Repr

/-- Why a script does not go on with the next command. -/
inductive Stop where
  /-- The shell ends. -/
  | exit (code : Nat)
  /-- The whole script is ended by a signal. -/
  | killed (signal : Nat)
  /-- The script would never end. -/
  | endless
  /-- Some loops end. -/
  | leave (levels : Nat)
  /-- The next round of a loop begins. -/
  | again (levels : Nat)
  deriving DecidableEq, Inhabited, Repr

/-- What belongs to one shell. -/
structure Context where
  name : Bytes
  arguments : List Bytes
  bindings : List (String × Bytes)
  /-- How the last command ended. -/
  status : Nat
  /-- How the last command within a word of the present one ended. -/
  substituted : Nat
  /-- A command that fails ends the shell. -/
  endsOnFailure : Bool
  /-- What is still to be read. -/
  input : Bytes
  channels : List (Nat × Sink)
  deriving Inhabited

structure Machine where
  files : FileTree
  buffers : List (Array UInt8)
  /-- The time that has passed, in milliseconds. -/
  elapsed : Nat
  context : Context
  deriving Inhabited

/-- Steps of a script. -/
abbrev Run := ExceptT Stop (StateM Machine)

/-- The number by which a script knows itself. -/
def processNumber : Nat := 4242

namespace Run

def context : Run Context := do
  pure (← get).context

def modifyContext (f : Context → Context) : Run Unit :=
  modify fun m => { m with context := f m.context }

def setStatus (status : Nat) : Run Unit :=
  modifyContext fun c => { c with status := status }

/-- Do something, and take the way it stopped as its result. -/
def observe {α : Type} (act : Run α) : Run (Except Stop α) :=
  ExceptT.mk fun m =>
    let (result, m) := act.run m
    (.ok result, m)

/-- Write to a channel. -/
def write (channel : Nat) (bytes : Bytes) : Run Unit := do
  match (← context).channels.lookup channel with
  | some (.buffer n) =>
      modify fun m => { m with buffers := m.buffers.modify n fun b => b ++ bytes.toArray }
  | some (.file place) =>
      modify fun m =>
        let before := match m.files.entry? place with
          | some (.file text) => text
          | _ => ""
        { m with files := m.files.put place (.file (before ++ textOf bytes)) }
  | some .nowhere | none => pure ()

/-- Complain about something in the name of the shell. -/
def complain (about : String) : Run Unit := do
  write 2 ((← context).name ++ bytesOf (": 1: " ++ about ++ "\n"))

def pass (milliseconds : Nat) : Run Unit :=
  modify fun m => { m with elapsed := m.elapsed + milliseconds }

/-- Run something in a shell of its own, and say how that ended. -/
def isolated (act : Run Unit) : Run Nat := do
  let saved ← context
  let ending ← observe act
  let status := (← context).status
  modifyContext fun _ => saved
  match ending with
  | .ok _ | .error (.leave _) | .error (.again _) => pure status
  | .error (.exit code) => pure code
  | .error stop => throw stop

/-- Run something in a shell of its own, and collect what it writes. -/
def collected (act : Run Unit) : Run (Bytes × Nat) := do
  let n := (← get).buffers.length
  modify fun m => { m with buffers := m.buffers ++ [#[]] }
  let status ← isolated do
    modifyContext fun c => { c with channels := (1, .buffer n) :: c.channels }
    act
  let written := ((← get).buffers[n]?.getD #[]).toList
  modify fun m => { m with buffers := m.buffers.take n }
  pure (written, status)

/-- Do something whose failure is expected. -/
def tested (act : Run Unit) : Run Unit := do
  let saved := (← context).endsOnFailure
  modifyContext fun c => { c with endsOnFailure := false }
  act
  modifyContext fun c => { c with endsOnFailure := saved }

/-- Give a variable a value. -/
def assign (name : String) (value : Bytes) : Run Unit :=
  modifyContext fun c =>
    { c with bindings := (name, value) :: c.bindings.filter fun v => v.1 != name }

end Run

end EditMining.Shell
