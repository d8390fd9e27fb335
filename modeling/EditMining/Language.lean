import EditMining.Error

/-!
# Languages

The languages whose code can be split into tokens. A language has one key; it
is also known under other names, and a file belongs to it by the extension of
its name.
-/

namespace EditMining

inductive Language where
  | python
  | typeScript
  | javaScript
  | rust
  | go
  | cpp
  deriving DecidableEq, Inhabited, Repr

namespace Language

/-- All languages, in the order in which they are listed. -/
def all : List Language :=
  [.python, .typeScript, .javaScript, .rust, .go, .cpp]

/-- The short name by which a language is addressed. -/
def key : Language → String
  | .python => "py"
  | .typeScript => "ts"
  | .javaScript => "js"
  | .rust => "rs"
  | .go => "go"
  | .cpp => "cpp"

/-- The name by which a language is known. -/
def name : Language → String
  | .python => "Python"
  | .typeScript => "TypeScript"
  | .javaScript => "JavaScript"
  | .rust => "Rust"
  | .go => "Go"
  | .cpp => "C++"

/-- The extensions of file names, the preferred one first. -/
def extensions : Language → List String
  | .python => ["py", "pyi"]
  | .typeScript => ["ts", "tsx", "cts", "mts"]
  | .javaScript => ["js", "jsx", "mjs", "cjs"]
  | .rust => ["rs"]
  | .go => ["go"]
  | .cpp => ["cpp", "cxx", "cc", "c++", "hpp", "hxx", "hh", "h++", "h"]

/-- The names under which a language may be asked for, in lower case. -/
def aliases : Language → List String
  | .python => ["py", "pyw", "python"]
  | .typeScript => ["ts", "tsx", "cts", "mts", "typescript"]
  | .javaScript => ["js", "jsx", "mjs", "cjs", "javascript"]
  | .rust => ["rs", "rust"]
  | .go => ["go", "golang"]
  | .cpp => ["cpp", "cxx", "cc", "c++", "hpp", "hxx", "hh", "h++", "h", "cplusplus"]

/-- The keyword in front of the name of a function that is defined. -/
def functionKeyword : Language → Option String
  | .python => some "def"
  | .typeScript | .javaScript => some "function"
  | .rust => some "fn"
  | .go => some "func"
  | .cpp => none

/-- The kinds of syntax nodes that are one token, whatever they are made of. -/
def atomicKinds : Language → List String
  | .python => ["string"]
  | .typeScript | .javaScript => ["string", "template_string", "regex"]
  | .rust => ["string_literal", "raw_string_literal", "char_literal"]
  | .go => ["interpreted_string_literal", "raw_string_literal", "rune_literal"]
  | .cpp => ["string_literal", "raw_string_literal", "char_literal"]

/-- ASCII letters in lower case, everything else as it is. -/
def asciiLower (s : String) : String :=
  String.ofList (s.toList.map Char.toLower)

/-- The language with a given key or other name, in any case. -/
def ofName? (name : String) : Option Language :=
  all.find? fun l => l.aliases.contains (asciiLower name)

/-- The extension that an oracle's fragments are given. -/
def fileExtension (l : Language) : String :=
  l.extensions.head?.getD "txt"

/-- The failure on a name that no language has. -/
def unknown (name : String) : Error :=
  .unsupported ("Unknown language: " ++ name)

/-- The language with a given name. -/
def find (name : String) : Result Language :=
  match ofName? name with
  | some l => .ok l
  | none => .error (unknown name)

/-- Whether there is a grammar for a language. -/
def findGrammar (name : String) : Result Language :=
  match ofName? name with
  | some l => .ok l
  | none => .error (.unsupported ("No tree-sitter grammar for: " ++ name))

/-- The pieces of a text between the occurrences of a character. -/
def splitAtChar (mark : Char) : List Char → List (List Char)
  | [] => [[]]
  | c :: rest =>
      if c == mark then [] :: splitAtChar mark rest
      else
        match splitAtChar mark rest with
        | [] => [[c]]
        | piece :: more => (c :: piece) :: more

/-- The last name of a path: empty names and single dots count for nothing, and
a path that ends in two dots has none. -/
def fileName? (path : List Char) : Option (List Char) :=
  let names := (splitAtChar '/' path).filter fun n => n != [] && n != ['.']
  match names.getLast? with
  | some n => if n == ['.', '.'] then none else some n
  | none => none

/-- What follows the last dot of a path's last name, unless that dot begins the
name. -/
def extension? (path : List Char) : Option (List Char) := do
  let name ← fileName? path
  let reversed := name.reverse
  match reversed.dropWhile (· != '.') with
  | '.' :: _ :: _ => some (reversed.takeWhile (· != '.')).reverse
  | _ => none

/-- The language that the file at a path is written in. -/
def ofPath? (path : String) : Option Language := do
  let e ← extension? path.toList
  let e := String.ofList (e.map Char.toLower)
  all.find? fun l => l.extensions.contains e

end Language

end EditMining
