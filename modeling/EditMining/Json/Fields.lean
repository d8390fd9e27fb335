import EditMining.Json.Parser

/-!
# Reading records out of JSON

A record is written as an object with one member for each field, or as an array
of its fields in order. Members that are no fields are passed over, wherever
they are; a field that is given twice is refused. In the array form fields may
be missing at the end and nothing may follow the last one. What a missing field
means is for each field to say.
-/

namespace EditMining.Json

/-- The one member under any of some spellings, none where there is no such
member, and a failure where there are several. -/
def memberFor (spellings : List String) (members : List (String × Json)) :
    Option (Option Json) :=
  match members.filter fun member => spellings.contains member.1 with
  | [] => some none
  | [member] => some (some member.2)
  | _ => none

/-- The fields of a record in the order of their names, each given by all its
spellings. -/
def fields (names : List (List String)) : Json → Option (List (Option Json))
  | .object members => names.mapM (memberFor · members)
  | .array items =>
      if items.length ≤ names.length then
        some (items.map some ++ List.replicate (names.length - items.length) none)
      else none
  | _ => none

/-- A field that has to be there. -/
def required {V α : Type} (read : V → Option α) (field : Option V) : Option α :=
  field.bind read

/-- A field with a value of its own where it is missing. -/
def orDefault {V α : Type} (default : α) (read : V → Option α) : Option V → Option α
  | none => some default
  | some v => read v

/-- A value or null. -/
def asOptional {α : Type} (read : Json → Option α) : Json → Option (Option α)
  | .null => some none
  | v => (read v).map some

def asString : Json → Option String
  | .string s => some s
  | _ => none

def asBool : Json → Option Bool
  | .bool b => some b
  | _ => none

/-- A whole number below 2^64. -/
def asNatural : Json → Option Nat
  | .natural n => some n
  | _ => none

/-- Any number. -/
def asReal : Json → Option Float
  | .natural n => some n.toUInt64.toFloat
  | .negative n => some (-n.natAbs.toUInt64.toFloat)
  | .real x => some x
  | _ => none

/-- An array whose items all read. -/
def asList {α : Type} (read : Json → Option α) : Json → Option (List α)
  | .array items => items.mapM read
  | _ => none

/-- A document and what is read out of it. -/
def decode {α : Type} (read : Json → Option α) (text : String) : Option α :=
  (parse text).bind read

end EditMining.Json
