/-!
# Signals

A signal has a number and, unless it is one of those left to programs, a name.
Most signals end a process; some only stop it, and some do nothing.
-/

namespace EditMining.Shell.Signal

/-- The names of the signals from number one on. -/
def names : List String :=
  ["HUP", "INT", "QUIT", "ILL", "TRAP", "ABRT", "BUS", "FPE", "KILL", "USR1", "SEGV", "USR2",
    "PIPE", "ALRM", "TERM", "STKFLT", "CHLD", "CONT", "STOP", "TSTP", "TTIN", "TTOU", "URG",
    "XCPU", "XFSZ", "VTALRM", "PROF", "WINCH", "IO", "PWR", "SYS"]

/-- The signal that a number or a name stands for. -/
def ofName? (name : String) : Option Nat :=
  if !name.isEmpty && name.toList.all Char.isDigit then
    let n := Nat.ofDigitChars 10 name.toList 0
    if n ≤ 64 then some n else none
  else if names.contains name then some (names.idxOf name + 1)
  else none

/-- A signal with its name. -/
def describe (signal : Nat) : String :=
  match names[signal - 1]? with
  | some name => signal.repr ++ " (SIG" ++ name ++ ")"
  | none => signal.repr

/-- Signals that a process does not notice. -/
def isIgnored (signal : Nat) : Bool :=
  [0, 17, 18, 23, 28].contains signal

/-- Signals behind which a process does not go on. -/
def isPause (signal : Nat) : Bool :=
  [19, 20, 21, 22].contains signal

end EditMining.Shell.Signal
