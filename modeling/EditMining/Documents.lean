import EditMining.Confidence
import EditMining.Hunk
import EditMining.Json.Fields
import EditMining.Json.Printer
import EditMining.TokenDiff

/-!
# Records, patterns and corpora as documents

Records, patterns and corpora are kept as JSON. A record leaves out the fields it
has no value for; tokens stand in their written form. For each kind of value
there is the document it is written as and a reader for such documents.

A corpus is checked item by item, because it may have been written by hand: what
is wrong is said together with the place of the first offender.
-/

namespace EditMining

open Json

namespace Token

def toJson (t : Token) : Json :=
  .string t.render

def ofJson? (v : Json) : Option Token :=
  (asString v).bind fun raw => (parse raw).toOption

end Token

/-- A member for a value that may be missing. -/
def optionalMember (name : String) (value : Option String) : List (String × Json) :=
  (value.map fun v => (name, Json.string v)).toList

def linesToJson (lines : List String) : Json :=
  .array (lines.map .string)

namespace Record

def toJson (r : Record) : Json :=
  .object
    (optionalMember "file_name" r.fileName
      ++ optionalMember "merged_at" (r.mergedAt.map Timestamp.render)
      ++ [("condition", linesToJson r.hunk.condition),
        ("consequent", linesToJson r.hunk.consequent)])

def timestampOfJson? (v : Json) : Option Timestamp :=
  (asString v).bind fun text => Timestamp.parse text.toList

def ofJson? (v : Json) : Option Record := do
  match ← fields [["file_name", "File"], ["merged_at"], ["condition"], ["consequent"]] v with
  | [fileName, mergedAt, condition, consequent] =>
      some
        { fileName := ← orDefault none (asOptional asString) fileName
          mergedAt := ← orDefault none (asOptional timestampOfJson?) mergedAt
          hunk :=
            { condition := ← required (asList asString) condition
              consequent := ← required (asList asString) consequent } }
  | _ => none

end Record

namespace HeldOutHunk

def ofJson? (v : Json) : Option HeldOutHunk := do
  match ← fields [["condition"], ["consequent"]] v with
  | [condition, consequent] =>
      some ⟨← required asString condition, ← required asString consequent⟩
  | _ => none

end HeldOutHunk

namespace Pattern

/-- The members that a pattern is written with. -/
def members (p : Pattern) : List (String × Json) :=
  [("pattern", .array (p.tokens.map Token.toJson)), ("support", .natural p.support)]

def toJson (p : Pattern) : Json :=
  .object p.members

def ofJson? (v : Json) : Option Pattern := do
  match ← fields [["pattern"], ["support"]] v with
  | [tokens, support] =>
      some ⟨← required (asList Token.ofJson?) tokens, ← required asNatural support⟩
  | _ => none

end Pattern

namespace ScoredPattern

def toJson (s : ScoredPattern) : Json :=
  .object (s.pattern.members ++ [("confidence", .real s.confidence)])

def ofJson? (v : Json) : Option ScoredPattern := do
  match ← fields [["pattern"], ["support"], ["confidence"]] v with
  | [tokens, support, confidence] =>
      some
        { pattern :=
            { tokens := ← required (asList Token.ofJson?) tokens
              support := ← required asNatural support }
          confidence := ← required asReal confidence }
  | _ => none

end ScoredPattern

namespace Corpus

/-- The document of a corpus. -/
def toJson (corpus : List TokenSequence) : Json :=
  .array (corpus.map fun s => .array (s.map Token.toJson))

/-- The failure on a value of the wrong type. -/
def wrongType (description field expected : String) (v : Json) : Error :=
  .mismatch description field expected v.typeName

/-- How the place of a sequence is named. -/
def place (index : Nat) : String :=
  "corpus[" ++ index.repr ++ "]"

def tokenOfJson (index : Nat) : Json → Result Token
  | .string raw => Token.parse raw
  | v => .error (wrongType "Tokens must be strings" (place index) "string" v)

def sequenceOfJson (index : Nat) : Json → Result TokenSequence
  | .array items => items.mapM (tokenOfJson index)
  | v => .error (wrongType "All sequences must be arrays of tokens" (place index) "array" v)

/-- The sequences of some items, the first of them at a given index. -/
def sequencesFrom : (index : Nat) → List Json → Result (List TokenSequence)
  | _, [] => .ok []
  | index, v :: rest => do
      let s ← sequenceOfJson index v
      let more ← sequencesFrom (index + 1) rest
      .ok (s :: more)

/-- Read a corpus, or say what is wrong first. -/
def ofJson : Json → Result (List TokenSequence)
  | .array items => sequencesFrom 0 items
  | v => .error (wrongType "Sequence corpus must be a JSON array" "corpus" "array of sequences" v)

end Corpus

end EditMining
