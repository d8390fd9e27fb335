import EditMining.Json.Basic
import EditMining.Decimal.Natural
import EditMining.Decimal.Layout

/-!
# Writing JSON

A document is written in one of two ways: with every item and member on a line
of its own, indented by two spaces for each container around it, or without any
white space. Quotes, backslashes and control characters are escaped; all other
characters stand as they are.
-/

namespace EditMining.Json

/-- A digit in base sixteen. -/
def hexDigit (n : Nat) : Char :=
  Char.ofNat (if n < 10 then '0'.toNat + n else 'a'.toNat + (n - 10))

/-- A character inside a string. -/
def escapeChar (c : Char) : List Char :=
  if c = '"' then ['\\', '"']
  else if c = '\\' then ['\\', '\\']
  else if c = '\n' then ['\\', 'n']
  else if c = '\r' then ['\\', 'r']
  else if c = '\t' then ['\\', 't']
  else if c = '\x08' then ['\\', 'b']
  else if c = '\x0c' then ['\\', 'f']
  else if c.toNat < 0x20 then
    ['\\', 'u', '0', '0', hexDigit (c.toNat / 16), hexDigit (c.toNat % 16)]
  else [c]

/-- A string with its quotes. -/
def quote (s : String) : List Char :=
  '"' :: (s.toList.flatMap escapeChar ++ ['"'])

/-- A value that is no container. -/
def scalarText : Json → List Char
  | .bool true => "true".toList
  | .bool false => "false".toList
  | .natural n => Decimal.digits n
  | .negative n => '-' :: Decimal.digits n.natAbs
  | .real x => (Decimal.Layout.json.text x).toList
  | .string s => quote s
  | _ => "null".toList

/-- A line break and the indentation of a line inside `level` containers. -/
def newLine (level : Nat) : List Char :=
  '\n' :: List.replicate (2 * level) ' '

mutual

/-- A value inside `level` containers, one item or member a line. -/
def prettyChars (level : Nat) : Json → List Char
  | .array [] => ['[', ']']
  | .array (v :: rest) =>
      '[' :: newLine (level + 1) ++ prettyChars (level + 1) v ++ prettyItems (level + 1) rest
        ++ newLine level ++ [']']
  | .object [] => ['\x7b', '\x7d']
  | .object ((key, v) :: rest) =>
      '\x7b' :: newLine (level + 1) ++ quote key ++ ": ".toList ++ prettyChars (level + 1) v
        ++ prettyMembers (level + 1) rest ++ newLine level ++ ['\x7d']
  | v => scalarText v

def prettyItems (level : Nat) : List Json → List Char
  | [] => []
  | v :: rest => ',' :: newLine level ++ prettyChars level v ++ prettyItems level rest

def prettyMembers (level : Nat) : List (String × Json) → List Char
  | [] => []
  | (key, v) :: rest =>
      ',' :: newLine level ++ quote key ++ ": ".toList ++ prettyChars level v
        ++ prettyMembers level rest

end

mutual

/-- A value without white space. -/
def compactChars : Json → List Char
  | .array [] => ['[', ']']
  | .array (v :: rest) => '[' :: compactChars v ++ compactItems rest ++ [']']
  | .object [] => ['\x7b', '\x7d']
  | .object ((key, v) :: rest) =>
      '\x7b' :: quote key ++ ':' :: compactChars v ++ compactMembers rest ++ ['\x7d']
  | v => scalarText v

def compactItems : List Json → List Char
  | [] => []
  | v :: rest => ',' :: compactChars v ++ compactItems rest

def compactMembers : List (String × Json) → List Char
  | [] => []
  | (key, v) :: rest => ',' :: quote key ++ ':' :: compactChars v ++ compactMembers rest

end

/-- The document as it is written to a file. -/
def pretty (v : Json) : String :=
  String.ofList (prettyChars 0 v)

/-- The document on one line. -/
def compact (v : Json) : String :=
  String.ofList (compactChars v)

end EditMining.Json
