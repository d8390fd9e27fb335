/-!
# JSON values

A `Json` is a document as it was written: the members of an object keep their
order and their repetitions, and whole numbers are kept apart from
floating-point ones.

Some literals are well formed and yet stand for nothing: a decimal beyond the
range of binary64, or an escaped half of a surrogate pair without its other
half. Such a literal is `unreadable`. A reader that asks for its value fails; a
reader that passes over it does not.
-/

namespace EditMining

inductive Json where
  | null
  | bool (b : Bool)
  /-- A whole number from 0 to 2^64 - 1. -/
  | natural (n : Nat)
  /-- A whole number from -2^63 to -1. -/
  | negative (n : Int)
  /-- Any other number. -/
  | real (x : Float)
  | string (s : String)
  | array (items : List Json)
  | object (members : List (String × Json))
  | unreadable
  deriving Inhabited

namespace Json

/-- What a value is called in messages. -/
def typeName : Json → String
  | .null => "null"
  | .bool _ => "boolean"
  | .natural _ | .negative _ | .real _ => "number"
  | .string _ => "string"
  | .array _ => "array"
  | .object _ => "object"
  | .unreadable => "number"

mutual

/-- How deep arrays and objects are nested. -/
def depth : Json → Nat
  | .array items => depthOfItems items + 1
  | .object members => depthOfMembers members + 1
  | _ => 0

def depthOfItems : List Json → Nat
  | [] => 0
  | v :: rest => max (depth v) (depthOfItems rest)

def depthOfMembers : List (String × Json) → Nat
  | [] => 0
  | (_, v) :: rest => max (depth v) (depthOfMembers rest)

end

mutual

/-- Whether every literal of the document has a value. -/
def isReadable : Json → Bool
  | .unreadable => false
  | .array items => areReadable items
  | .object members => membersAreReadable members
  | _ => true

def areReadable : List Json → Bool
  | [] => true
  | v :: rest => isReadable v && areReadable rest

def membersAreReadable : List (String × Json) → Bool
  | [] => true
  | (_, v) :: rest => isReadable v && membersAreReadable rest

end

/-- How deep a document may be nested where all of it is read. -/
def depthLimit : Nat := 127

/-- A document every part of which has a value. -/
def isWhole (v : Json) : Bool :=
  v.isReadable && v.depth ≤ depthLimit

end Json

end EditMining
