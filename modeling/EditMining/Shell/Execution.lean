import EditMining.Shell.Expansion
import EditMining.Shell.Parser
import EditMining.Shell.Signal
import EditMining.Shell.Utilities

/-!
# Running scripts

Commands are run on a machine one after another. How deep they nest, rounds of
loops included, is bounded: what goes beyond the bound counts as endless.
-/

namespace EditMining.Shell

/-! ## Redirections -/

namespace Run

/-- Why a file cannot be opened for output. -/
def describeCreation : StorageFault → String
  | .notFound | .notADirectory => "Directory nonexistent"
  | fault => describe fault

/-- Let a channel lead somewhere else. -/
def connect (channel : Nat) (sink : Sink) : Run Unit :=
  modifyContext fun c => { c with channels := (channel, sink) :: c.channels }

/-- Open a file for output, empty or behind what it holds. -/
def openFile (channel : Nat) (isAppended : Bool) (path : String) : Run Bool := do
  let files := (← get).files
  let place := files.locate path
  match place.map fun place => (place, files.entry? place) with
  | .ok (place, entry) =>
      match entry with
      | some .directory =>
          complain ("cannot create " ++ path ++ ": " ++ describeCreation .isDirectory)
          pure false
      | _ =>
          if !(isAppended && entry.isSome) then
            modify fun m => { m with files := m.files.put place (.file "") }
          connect channel (.file place)
          pure true
  | .error fault =>
      complain ("cannot create " ++ path ++ ": " ++ describeCreation fault)
      pure false

/-- Make one redirection, and say whether it can be made. -/
def redirect (channel : Nat) (kind : RedirectKind) (target : String) : Run Bool := do
  match kind with
  | .read =>
      match readArgument (← get).files (← context).input target with
      | .ok bytes =>
          modifyContext fun c => { c with input := bytes }
          pure true
      | .error .notFound =>
          complain ("cannot open " ++ target ++ ": No such file")
          pure false
      | .error fault =>
          complain ("cannot open " ++ target ++ ": " ++ describe fault)
          pure false
  | .duplicate =>
      if target == "-" then
        connect channel .nowhere
        pure true
      else
        match (← context).channels.lookup (Nat.ofDigitChars 10 target.toList 0) with
        | some sink =>
            connect channel sink
            pure true
        | none =>
            complain (target ++ ": Bad file descriptor")
            pure false
  | .write | .append =>
      match target with
      | "/dev/null" =>
          connect channel .nowhere
          pure true
      | "/dev/stdout" => redirectTo 1
      | "/dev/stderr" => redirectTo 2
      | _ => openFile channel (kind == .append) target
where
  redirectTo (source : Nat) : Run Bool := do
    connect channel (((← context).channels.lookup source).getD .nowhere)
    pure true

/-- Make redirections, do something, and undo them. What was read stays read. -/
def redirected (expand : Word → Run Bytes) (rs : List Redirect) (act : Run Unit) : Run Unit := do
  let saved ← context
  let isMade ← rs.foldlM (fun isMade r =>
    match r with
    | .mk channel kind target => do
        if isMade then redirect channel kind (textOf (← expand target)) else pure false) true
  if isMade then act else setStatus 2
  let readsElsewhere := rs.any fun | .mk _ kind _ => kind == .read
  modifyContext fun c =>
    { c with
      channels := saved.channels
      input := if readsElsewhere then saved.input else c.input }

/-! ## What belongs to the shell -/

/-- Where failures end the shell, end it if the last command failed. -/
def endIfFailed : Run Unit := do
  let c ← context
  if c.endsOnFailure && c.status != 0 then throw (.exit c.status)

/-- Give a variable the value it had among others. -/
def restore (saved : List (String × Bytes)) (name : String) : Run Unit :=
  match saved.lookup name with
  | some value => assign name value
  | none =>
      modifyContext fun c => { c with bindings := c.bindings.filter fun v => v.1 != name }

/-- The status that the shell is asked to end with. -/
def exit (arguments : List Bytes) : Run Unit := do
  match arguments with
  | [] => throw (.exit (← context).status)
  | code :: _ =>
      let text := textOf code
      if !text.isEmpty && text.toList.all Char.isDigit then
        throw (.exit (Nat.ofDigitChars 10 text.toList 0 % 256))
      else
        complain ("exit: Illegal number: " ++ text)
        throw (.exit 2)

/-- How many loops are meant. -/
def levelsOf (arguments : List Bytes) : Nat :=
  match arguments with
  | [] => 1
  | n :: _ => max 1 (Nat.ofDigitChars 10 (toChars n) 0)

def shift (arguments : List Bytes) : Run Unit := do
  let n := match arguments with
    | [] => 1
    | n :: _ => Nat.ofDigitChars 10 (toChars n) 0
  if (← context).arguments.length < n then
    complain "shift: can't shift that many"
    throw (.exit 2)
  else
    modifyContext fun c => { c with arguments := c.arguments.drop n, status := 0 }

/-- Assignments among arguments. -/
def assignAll (arguments : List Bytes) : Run Unit :=
  arguments.forM fun a => do
    match Text.splitAtFirst '=' (toChars a) with
    | some (name, value) => assign (String.ofList name) (ofChars value)
    | none => pure ()

def set (arguments : List Bytes) : Run Unit := do
  match arguments with
  | [0x2D, 0x2D] :: rest => modifyContext fun c => { c with arguments := rest }
  | first :: _ =>
      if first.head? == some 0x2D then
        if first.contains 0x65 then modifyContext fun c => { c with endsOnFailure := true }
      else if first == [0x2B, 0x65] then
        modifyContext fun c => { c with endsOnFailure := false }
      else if first.head? == some 0x2B then pure ()
      else modifyContext fun c => { c with arguments := arguments }
  | [] => pure ()
  setStatus 0

/-- Send a signal. -/
def sendSignal (signal : Nat) (targets : List Bytes) : Run Unit := do
  if targets.any fun t => textOf t == processNumber.repr || textOf t == "0" then
    if Signal.isIgnored signal then setStatus 0
    else if Signal.isPause signal then throw .endless
    else throw (.killed signal)
  else
    complain "kill: No such process"
    setStatus 1

def kill (arguments : List Bytes) : Run Unit := do
  match arguments with
  | [0x2D, 0x73] :: name :: targets => sendNamed (textOf name) targets
  | (0x2D :: name) :: targets =>
      if name == [0x2D] then sendSignal 15 targets else sendNamed (textOf name) targets
  | targets => sendSignal 15 targets
where
  sendNamed (name : String) (targets : List Bytes) : Run Unit := do
    match Signal.ofName? name with
    | some signal => sendSignal signal targets
    | none =>
        complain ("kill: invalid signal number or name: " ++ name)
        setStatus 2

/-- The fields of a line for some variables; the last one takes the rest. -/
def dealFields (separators : Bytes) : List String → Bytes → List (String × Bytes)
  | [], _ => []
  | [name], line =>
      let line := line.dropWhile separators.contains
      [(name, (line.reverse.dropWhile separators.contains).reverse)]
  | name :: rest, line =>
      let line := line.dropWhile separators.contains
      let field := line.takeWhile fun b => !separators.contains b
      (name, field) :: dealFields separators rest (line.drop field.length)

/-- Read a line into variables. -/
def readLine (arguments : List Bytes) : Run Unit := do
  let isRaw := arguments.contains [0x2D, 0x72]
  let names := (arguments.filter fun a => a.head? != some 0x2D).map textOf
  let c ← context
  let line := c.input.takeWhile (· != 0x0A)
  let rest := c.input.drop line.length
  let line := if isRaw then line else line.filter (· != 0x5C)
  modifyContext fun c => { c with input := rest.drop 1 }
  (dealFields c.separators names line).forM fun (name, value) => assign name value
  setStatus (if rest.isEmpty then 1 else 0)

/-- Do what a utility does. -/
def perform (utility : Utility) (name : String) (isBuiltIn : Bool) (arguments : List Bytes) :
    Run Unit := do
  let m ← get
  let effect := utility m.files m.context.input arguments
  pass effect.duration
  write 1 effect.out
  effect.complaints.forM fun complaint =>
    if isBuiltIn then complain (name ++ ": " ++ complaint)
    else write 2 (bytesOf (name ++ ": " ++ complaint ++ "\n"))
  setStatus effect.status

/-- Commands that change the shell itself. -/
def special? (name : String) : Option (List Bytes → Run Unit) :=
  match name with
  | "exit" | "return" => some exit
  | "break" => some fun arguments => throw (.leave (levelsOf arguments))
  | "continue" => some fun arguments => throw (.again (levelsOf arguments))
  | "shift" => some shift
  | "set" => some set
  | "export" | "readonly" | "local" => some fun arguments => do
      assignAll arguments
      setStatus 0
  | "unset" => some fun arguments => do
      arguments.forM fun a => restore [] (textOf a)
      setStatus 0
  | "read" => some readLine
  | "kill" => some kill
  | "umask" | "trap" | "ulimit" | "wait" => some fun _ => setStatus 0
  | _ => none

/-- A command that nothing is known about. -/
def notFound (name : String) : Run Unit := do
  let files := (← get).files
  if name.toList.contains '/' && files.holds name then
    complain (name ++ ": Permission denied")
    setStatus 126
  else
    complain (name ++ ": not found")
    setStatus 127

/-- Run the shell on a command line of its own, given how scripts are run. -/
def shell (run : Script → Run Unit) (name : Bytes) (arguments : List Bytes) : Run Unit := do
  let isOption (a : Bytes) : Bool := a.length > 1 && a.head? == some 0x2D
  let options : Bytes := (arguments.takeWhile isOption).flatMap fun a => a.drop 1
  let operands := arguments.dropWhile isOption
  let input := (← context).input
  let start (name : Bytes) (arguments : List Bytes) (text : String) : Run Unit := do
    modifyContext fun c =>
      { c with
        name := name
        arguments := arguments
        endsOnFailure := options.contains 0x65
        status := 0 }
    match parse text with
    | some script => run script
    | none =>
        complain (syntaxFault text)
        throw (.exit 2)
  if options.contains 0x63 then
    match operands with
    | [] =>
        write 2 (name ++ bytesOf ": 0: -c requires an argument\n")
        throw (.exit 2)
    | script :: rest => start (rest.head?.getD name) rest.tail (textOf script)
  else
    match operands with
    | [] => start name [] (textOf input)
    | path :: rest =>
        match (← get).files.read (textOf path) with
        | .ok text => start path rest text
        | .error fault =>
            let reason := if fault = .notFound then "No such file" else describe fault
            write 2 (name ++ bytesOf (": 0: cannot open " ++ textOf path ++ ": " ++ reason ++ "\n"))
            throw (.exit 2)

end Run

open Run

/-! ## Commands -/

mutual

/-- What a script writes when it runs in a shell of its own. -/
def capture : Nat → Script → Run Bytes
  | 0, _ => throw .endless
  | depth + 1, s => do
      let (out, status) ← collected (runScript depth s)
      modifyContext fun c => { c with substituted := status }
      pure out

/-- Run steps one after another. -/
def runScript : Nat → Script → Run Unit
  | 0, _ => throw .endless
  | _, [] => pure ()
  | depth + 1, .mk operator negated pipeline :: rest => do
      let status := (← context).status
      let runs := match operator with
        | .next => true
        | .and => status == 0
        | .or => status != 0
      if runs then
        let isTested := negated || match rest with
          | .mk .and _ _ :: _ | .mk .or _ _ :: _ => true
          | _ => false
        if isTested then tested (runPipeline depth pipeline) else runPipeline depth pipeline
        if negated then setStatus (if (← context).status == 0 then 1 else 0)
      runScript depth rest

/-- Run commands joined by pipes. -/
def runPipeline : Nat → List Command → Run Unit
  | 0, _ => throw .endless
  | depth + 1, [c] => do
      runCommand depth c
      endIfFailed
  | depth + 1, cs => do
      setStatus (← runStages depth (← context).input cs)
      endIfFailed

/-- Run the commands behind a pipe, all from the same moment on. -/
def runStages : Nat → Bytes → List Command → Run Nat
  | 0, _, _ => throw .endless
  | _, _, [] => pure 0
  | depth + 1, input, c :: rest => do
      let stage : Run Unit := do
        modifyContext fun c => { c with input := input }
        runCommand depth c
      if rest.isEmpty then isolated stage
      else
        let began := (← get).elapsed
        let (out, _) ← collected stage
        let ended := (← get).elapsed
        modify fun m => { m with elapsed := began }
        let status ← runStages depth out rest
        modify fun m => { m with elapsed := max ended m.elapsed }
        pure status

/-- Run one command. -/
def runCommand : Nat → Command → Run Unit
  | 0, _ => throw .endless
  | depth + 1, .simple assignments words rs => do
      modifyContext fun c => { c with substituted := 0 }
      let fields ← expandWords (capture depth) words
      let values ← assignments.mapM fun (name, value) => do
        pure (name, ← expandValue (capture depth) value)
      match fields with
      | [] =>
          redirected (expandValue (capture depth)) rs (pure ())
          values.forM fun (name, value) => assign name value
          let c ← context
          setStatus c.substituted
      | name :: arguments => do
          let saved := (← context).bindings
          values.forM fun (name, value) => assign name value
          redirected (expandValue (capture depth)) rs (invoke depth (textOf name) arguments)
          values.forM fun (name, _) => restore saved name
  | depth + 1, .group body rs =>
      redirected (expandValue (capture depth)) rs (runScript depth body)
  | depth + 1, .subshell body rs =>
      redirected (expandValue (capture depth)) rs do
        setStatus (← isolated (runScript depth body))
  | depth + 1, .conditional branches otherwise => runBranches depth branches otherwise
  | depth + 1, .loop isUntil condition body => do
      runLoop depth isUntil condition body 0
  | depth + 1, .each name words body => do
      let values ← match words with
        | some ws => expandWords (capture depth) ws
        | none => pure (← context).arguments
      setStatus 0
      runEach depth name values body
  | depth + 1, .cases subject arms => do
      let value ← expandValue (capture depth) subject
      setStatus 0
      runArms depth value arms

/-- Run the first branch whose condition holds. -/
def runBranches : Nat → List (Script × Script) → Script → Run Unit
  | 0, _, _ => throw .endless
  | depth + 1, [], otherwise => do
      setStatus 0
      runScript depth otherwise
  | depth + 1, (condition, body) :: rest, otherwise => do
      tested (runScript depth condition)
      if (← context).status == 0 then runScript depth body
      else runBranches depth rest otherwise

/-- Run the body of a loop, and say whether the loop goes on. -/
def runRound : Nat → Script → Run Bool
  | 0, _ => throw .endless
  | depth + 1, body => do
      match ← observe (runScript depth body) with
      | .ok _ | .error (.again 1) => pure true
      | .error (.leave 1) => pure false
      | .error (.leave n) => throw (.leave (n - 1))
      | .error (.again n) => throw (.again (n - 1))
      | .error stop => throw stop

/-- Run a loop; `last` is the status of its last round. -/
def runLoop : Nat → Bool → Script → Script → Nat → Run Unit
  | 0, _, _, _, _ => throw .endless
  | depth + 1, isUntil, condition, body, last => do
      tested (runScript depth condition)
      if ((← context).status == 0) != isUntil then
        let goesOn ← runRound depth body
        let status := (← context).status
        if goesOn then runLoop depth isUntil condition body status
      else setStatus last

/-- Run the body of a loop for each of some values. -/
def runEach : Nat → String → List Bytes → Script → Run Unit
  | 0, _, _, _ => throw .endless
  | _, _, [], _ => pure ()
  | depth + 1, name, value :: rest, body => do
      assign name value
      if ← runRound depth body then runEach depth name rest body

/-- Run the first arm with a pattern that matches. -/
def runArms : Nat → Bytes → List (List Word × Script) → Run Unit
  | 0, _, _ => throw .endless
  | _, _, [] => pure ()
  | depth + 1, value, (patterns, body) :: rest => do
      let patterns ← patterns.mapM (expandPattern (capture depth))
      if patterns.any fun p => Glob.isMatch p value then runScript depth body
      else runArms depth value rest

/-- Run a command that is given by its name and its arguments. -/
def invoke : Nat → String → List Bytes → Run Unit
  | 0, _, _ => throw .endless
  | depth + 1, name, arguments => do
      match name, arguments with
      | "eval", _ =>
          let text := textOf (List.intercalate [0x20] arguments)
          match parse text with
          | some script => runScript depth script
          | none =>
              complain (syntaxFault text)
              throw (.exit 2)
      | "exec", [] => pure ()
      | "exec", program :: rest =>
          invoke depth (textOf program) rest
          throw (.exit (← context).status)
      | "command", program :: rest => invoke depth (textOf program) rest
      | _, _ =>
          match special? name with
          | some act => act arguments
          | none =>
              if isShell name then
                setStatus (← isolated (shell (runScript depth) (bytesOf name) arguments))
              else
                match builtIn? name with
                | some utility => perform utility name true arguments
                | none =>
                    match program? name with
                    | some utility => perform utility (programName name) false arguments
                    | none => notFound name

end

end EditMining.Shell
