import EditMining.Shell.Glob
import EditMining.Shell.Machine

/-!
# Words and fields

A word is expanded into pieces: bytes, which may be quoted, and marks between
them. From the pieces one gets the fields that a command is given, a single
value, or a pattern.

What a value without quotes consists of is divided at separators, and an empty
one leaves no field. A pair of quotes makes a field even if nothing is between
them.
-/

namespace EditMining.Shell

/-- A piece of an expanded word. -/
inductive Piece where
  | byte (b : UInt8) (isQuoted : Bool)
  /-- A byte that separates fields. -/
  | gap (b : UInt8)
  /-- Quotes, which make a field of what is beside them. -/
  | mark
  /-- The border between two arguments. -/
  | border
  deriving DecidableEq, Repr

namespace Piece

/-- The pieces of a value. -/
def ofValue (separators : Bytes) (isQuoted : Bool) (value : Bytes) : List Piece :=
  value.map fun b =>
    if !isQuoted && separators.contains b then .gap b else .byte b isQuoted

/-- A piece of an operand, as it counts within a word with or without quotes. -/
def within (separators : Bytes) (isQuoted : Bool) : Piece → Piece
  | .byte b false =>
      if isQuoted then .byte b true
      else if separators.contains b then .gap b
      else .byte b false
  | p => p

/-- The fields of some pieces. -/
def fields (pieces : List Piece) : List Bytes :=
  let close (state : Option Bytes × List Bytes) : List Bytes :=
    match state.1 with
    | some field => field.reverse :: state.2
    | none => state.2
  let step (state : Option Bytes × List Bytes) : Piece → Option Bytes × List Bytes
    | .byte b _ => (some (b :: state.1.getD []), state.2)
    | .mark => (some (state.1.getD []), state.2)
    | .gap _ => (none, close state)
    | .border => (none, close state)
  (close (pieces.foldl step (none, []))).reverse

/-- The bytes of some pieces as one value. -/
def value (pieces : List Piece) : Bytes :=
  pieces.filterMap fun
    | .byte b _ | .gap b => some b
    | .border => some 0x20
    | .mark => none

/-- The pattern that some pieces stand for. -/
def pattern (pieces : List Piece) : List Glob :=
  Glob.compile (pieces.filterMap fun
    | .byte b isQuoted => some (b, isQuoted)
    | .gap b => some (b, false)
    | .border => some (0x20, false)
    | .mark => none)

end Piece

namespace Context

/-- What separates fields. -/
def separators (c : Context) : Bytes :=
  (c.bindings.lookup "IFS").getD (bytesOf " \t\n")

/-- The value of a parameter that has a single one. -/
def value? (c : Context) (name : String) : Option Bytes :=
  match name with
  | "#" => some (bytesOf c.arguments.length.repr)
  | "?" => some (bytesOf c.status.repr)
  | "$" => some (bytesOf processNumber.repr)
  | "-" => some []
  | "!" => none
  | "0" => some c.name
  | "@" | "*" =>
      if c.arguments.isEmpty then none else some (List.intercalate [0x20] c.arguments)
  | _ =>
      if name.toList.all Char.isDigit then c.arguments[Nat.ofDigitChars 10 name.toList 0 - 1]?
      else c.bindings.lookup name

/-- The pieces of a parameter. -/
def pieces (c : Context) (name : String) (isQuoted : Bool) : List Piece :=
  match name with
  | "@" =>
      List.intercalate (if isQuoted then [.border, .mark] else [.border])
        (c.arguments.map (Piece.ofValue c.separators isQuoted))
  | _ => Piece.ofValue c.separators isQuoted ((c.value? name).getD [])

end Context

/-- What a modifier makes of a parameter, given the pieces of its operand. -/
def modified (c : Context) (name : String) (modifier : Modifier) (isQuoted : Bool)
    (operand : List Piece) : List Piece :=
  let value := (c.value? name).getD []
  let isSet (alsoEmpty : Bool) : Bool :=
    (c.value? name).any fun v => !(alsoEmpty && v.isEmpty)
  let operandHere := operand.map (Piece.within c.separators isQuoted)
  match modifier with
  | .none => c.pieces name isQuoted
  | .length => Piece.ofValue c.separators isQuoted (bytesOf value.length.repr)
  | .trim atEnd greedy =>
      Piece.ofValue c.separators isQuoted
        (Glob.trim (Piece.pattern operand) atEnd greedy value)
  | .fallback alsoEmpty => if isSet alsoEmpty then c.pieces name isQuoted else operandHere
  | .alternative alsoEmpty => if isSet alsoEmpty then operandHere else []

/-- The output of a command as part of a word, without the line breaks at its
end. -/
def trimOutput (out : Bytes) : Bytes :=
  ((out.filter (· != 0)).reverse.dropWhile (· == 0x0A)).reverse

mutual

/-- The pieces of a part, given how commands within words are run. -/
def Part.expand (run : Script → Run Bytes) : Part → Run (List Piece)
  | .text chars isQuoted =>
      let bytes := (bytesOf (String.ofList chars)).map fun b => Piece.byte b isQuoted
      pure (if isQuoted then .mark :: bytes else bytes)
  | .parameter name modifier operand isQuoted => do
      let operand ← expandParts run operand
      pure (modified (← Run.context) name modifier isQuoted operand)
  | .substitution script isQuoted => do
      let out ← run script
      pure (Piece.ofValue (← Run.context).separators isQuoted (trimOutput out))

/-- The pieces of parts in a row. -/
def expandParts (run : Script → Run Bytes) : List Part → Run (List Piece)
  | [] => pure []
  | p :: rest => do
      let first ← p.expand run
      let more ← expandParts run rest
      pure (first ++ more)

end

/-- Whether a word is nothing but all arguments in quotes. -/
def isAllArguments : Word → Bool
  | [.text [] true, .parameter "@" .none [] true] => true
  | _ => false

/-- The fields of some words. -/
def expandWords (run : Script → Run Bytes) : List Word → Run (List Bytes)
  | [] => pure []
  | w :: rest => do
      let arguments := (← Run.context).arguments
      let first ←
        if isAllArguments w then pure arguments
        else Piece.fields <$> expandParts run w
      let more ← expandWords run rest
      pure (first ++ more)

/-- A word as one value. -/
def expandValue (run : Script → Run Bytes) (w : Word) : Run Bytes :=
  Piece.value <$> expandParts run w

/-- A word as a pattern. -/
def expandPattern (run : Script → Run Bytes) (w : Word) : Run (List Glob) :=
  Piece.pattern <$> expandParts run w

end EditMining.Shell
