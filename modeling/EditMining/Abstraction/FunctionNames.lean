import EditMining.Abstraction.Assignments
import EditMining.Hunk
import EditMining.Language.Tokenizer

/-!
# Names of functions

The functions that a hunk defines are given placeholders before anything else
is abstracted. A definition is recognised by the language's keyword for it: the
token behind the keyword is the name. Names are numbered in the order of their
definitions, condition first, and replaced on both sides.
-/

namespace EditMining

open Text

/-- Whether a token can be the name of a function: it is a word that begins with
a letter or an underscore, and no placeholder. -/
def isFunctionName (name : String) : Bool :=
  (match name.toList with
    | [] => false
    | c :: rest => (isAlphabetic c || c == '_') && (c :: rest).all isWordChar)
    && !Placeholder.isPlaceholder name.toList

/-- The token behind the first keyword among some tokens. -/
def tokenBehind (keyword : String) : List String → Option String
  | [] => none
  | t :: rest => if t = keyword then rest.head? else tokenBehind keyword rest

/-- The name of the function that a line defines. A line that does not split
into tokens defines none. -/
def definedName? (tk : Tokenizer) (keyword : String) (line : String) : Option String :=
  if (words line.toList).contains keyword.toList then
    match tk.tokenize line with
    | .ok tokens => (tokenBehind keyword tokens).filter isFunctionName
    | .error _ => none
  else none

/-- The names of the functions that a hunk defines, each once. -/
def definedNames (tk : Tokenizer) (h : Hunk) : List String :=
  match tk.language.functionKeyword with
  | none => []
  | some keyword => (h.lines.filterMap (definedName? tk keyword)).eraseDups

/-- A name and the placeholder that takes its place. -/
abbrev Renaming := String × Placeholder

/-- Replace one name in a line. -/
def renameIn (line : String) (r : Renaming) : String :=
  String.ofList (replaceWord r.1.toList r.2.renderChars line.toList)

/-- Placeholders for some names, one after the other. -/
def assignFunctions (m : Assignments) : List String → Assignments × List Renaming
  | [] => (m, [])
  | name :: rest =>
      let (m, p) := m.assign .function name
      let (m, renamings) := assignFunctions m rest
      (m, (name, p) :: renamings)

/-- The hunk with the functions it defines renamed, and the names with their
placeholders added to the assignments. -/
def normalizeFunctionNames (tk : Tokenizer) (h : Hunk) (m : Assignments) :
    Hunk × Assignments :=
  let (m, renamings) := assignFunctions m (definedNames tk h)
  (h.mapLines fun line => renamings.foldl renameIn line, m)

end EditMining
