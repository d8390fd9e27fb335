import EditMining.Json.Lexeme

/-!
# Reading JSON

A document is read from left to right. Containers that are not closed yet wait
on a stack, the innermost first; a `Place` says what the next lexeme may be.
Each lexeme moves the reader by one step, so a document is read in as many
steps as it has lexemes, and there is exactly one way to read it.
-/

namespace EditMining.Json

/-- A container that is not closed yet, with its contents so far in reverse. -/
inductive OpenContainer where
  | items (read : List Json)
  /-- `key` is that of the member whose value comes next; `whole` says that all
  keys so far have a value. -/
  | members (read : List (String × Json)) (whole : Bool) (key : String)

/-- What the next lexeme may be. -/
inductive Place where
  /-- A value. -/
  | value
  /-- The first item of an array, or its end. -/
  | firstItem
  /-- The first key of an object, or its end. -/
  | firstKey
  /-- A key. -/
  | key
  /-- The colon behind a key. -/
  | colon
  /-- A comma, or the end of the innermost container. -/
  | separator
  /-- Nothing: the document is complete. -/
  | finished (v : Json)

structure Reader where
  stack : List OpenContainer
  place : Place

/-- The reader behind a complete value. -/
def Reader.close (stack : List OpenContainer) (v : Json) : Reader :=
  match stack with
  | [] => ⟨[], .finished v⟩
  | .items read :: outer => ⟨.items (v :: read) :: outer, .separator⟩
  | .members read whole key :: outer => ⟨.members ((key, v) :: read) whole key :: outer, .separator⟩

/-- An object all of whose keys read; one with a key that does not is itself
unreadable. -/
def closedObject (read : List (String × Json)) (whole : Bool) : Json :=
  if whole then .object read.reverse else .unreadable

/-- The reader behind the start of a value. -/
def Reader.openValue (stack : List OpenContainer) : Lexeme → Option Reader
  | .openBracket => some ⟨.items [] :: stack, .firstItem⟩
  | .openBrace => some ⟨.members [] true "" :: stack, .firstKey⟩
  | .string s => some (Reader.close stack (s.elim .unreadable .string))
  | .scalar v => some (Reader.close stack v)
  | _ => none

/-- The reader behind a key. -/
def Reader.takeKey (read : List (String × Json)) (whole : Bool) (outer : List OpenContainer) :
    Lexeme → Option Reader
  | .string (some key) => some ⟨.members read whole key :: outer, .colon⟩
  | .string none => some ⟨.members read false "" :: outer, .colon⟩
  | _ => none

/-- One step of the reader; none where the lexeme is out of place. -/
def Reader.step (r : Reader) (lexeme : Lexeme) : Option Reader :=
  match r.place, r.stack, lexeme with
  | .value, stack, lexeme => Reader.openValue stack lexeme
  | .firstItem, .items _ :: outer, .closeBracket => some (Reader.close outer (.array []))
  | .firstItem, stack, lexeme => Reader.openValue stack lexeme
  | .firstKey, .members _ _ _ :: outer, .closeBrace => some (Reader.close outer (.object []))
  | .firstKey, .members read whole _ :: outer, lexeme => Reader.takeKey read whole outer lexeme
  | .key, .members read whole _ :: outer, lexeme => Reader.takeKey read whole outer lexeme
  | .colon, stack, .colon => some ⟨stack, .value⟩
  | .separator, .items read :: outer, .comma => some ⟨.items read :: outer, .value⟩
  | .separator, .items read :: outer, .closeBracket =>
      some (Reader.close outer (.array read.reverse))
  | .separator, .members read whole key :: outer, .comma =>
      some ⟨.members read whole key :: outer, .key⟩
  | .separator, .members read whole _ :: outer, .closeBrace =>
      some (Reader.close outer (closedObject read whole))
  | _, _, _ => none

/-- The reader behind several lexemes. -/
def Reader.run (r : Reader) : List Lexeme → Option Reader
  | [] => some r
  | lexeme :: rest => (r.step lexeme).bind fun r => r.run rest

/-- The document that some lexemes make. -/
def ofLexemes (ls : List Lexeme) : Option Json :=
  match Reader.run ⟨[], .value⟩ ls with
  | some ⟨_, .finished v⟩ => some v
  | _ => none

/-- Read a JSON document. -/
def parse (text : String) : Option Json :=
  (lexemes text.toList).bind ofLexemes

end EditMining.Json
