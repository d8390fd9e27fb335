import EditMining.Decimal.Natural
import EditMining.Decimal.Real
import EditMining.Text.Search

/-!
# Options and operands

A command line is made of options and operands. An option has a long name behind
two dashes or a letter behind one; letters of options without values may share a
dash. A value is the next word, or is attached to its option, behind an equals
sign if the name is long. A word is the value of an option only if it does not
look like an option itself. Behind two lone dashes there are only operands.

Reading stops at the first thing that is wrong.
-/

namespace EditMining.CommandLine

/-- What values an option takes. -/
inductive ValueKind where
  | path
  | count
  | real
  | text
  | choice (names : List String)
  deriving DecidableEq, Repr

/-- Whether a value is of its kind. -/
def ValueKind.accepts (k : ValueKind) (value : String) : Bool :=
  match k with
  | .path => value != ""
  | .count => (Decimal.readUnsigned value.toList).isSome
  | .real => (Decimal.readRealOrName value.toList).isSome
  | .text => true
  | .choice names => names.contains value

/-- An option that a command knows. -/
structure OptionSpec where
  name : String
  letter : Option Char
  /-- What values it takes, if it takes any. -/
  value : Option ValueKind
  deriving Repr

/-- Why a command line is not carried out. -/
inductive Refusal where
  | usage
  | help
  | version
  deriving DecidableEq, Inhabited, Repr

/-- What a command line holds: options with their values, and operands. -/
structure Parsed where
  options : List (String × String)
  operands : List String
  deriving DecidableEq, Inhabited, Repr

namespace Parsed

def value? (p : Parsed) (name : String) : Option String :=
  p.options.lookup name

def hasOption (p : Parsed) (name : String) : Bool :=
  (p.value? name).isSome

def count? (p : Parsed) (name : String) : Option Nat :=
  (p.value? name).bind fun v => Decimal.readUnsigned v.toList

def real? (p : Parsed) (name : String) : Option Float :=
  (p.value? name).bind fun v => Decimal.readRealOrName v.toList

end Parsed

/-- Whether a word looks like an option. -/
def isOptionLike (word : String) : Bool :=
  word.toList.head? == some '-' && word != "-"

/-- What one word adds to the options: the options in it, and perhaps one whose
value is the next word. -/
structure WordOptions where
  complete : List (String × String)
  awaiting : Option OptionSpec

/-- Take an option, unless it asks for something else. -/
def takeOption (spec : OptionSpec) (attached : Option String) : Except Refusal WordOptions :=
  match spec.value, attached with
  | none, none =>
      match spec.name with
      | "help" => .error .help
      | "version" => .error .version
      | name => .ok ⟨[(name, "")], none⟩
  | none, some _ => .error .usage
  | some kind, some value =>
      if kind.accepts value then .ok ⟨[(spec.name, value)], none⟩ else .error .usage
  | some _, none => .ok ⟨[], some spec⟩

/-- The letters behind one dash. -/
def readLetters (specs : List OptionSpec) : List Char → Except Refusal WordOptions
  | [] => .ok ⟨[], none⟩
  | c :: rest =>
      match specs.find? fun s => s.letter == some c with
      | none => .error .usage
      | some spec =>
          if spec.value.isSome then
            let attached := match rest with
              | [] => none
              | '=' :: value => some (String.ofList value)
              | value => some (String.ofList value)
            takeOption spec attached
          else do
            let first ← takeOption spec none
            let more ← readLetters specs rest
            .ok ⟨first.complete ++ more.complete, more.awaiting⟩

/-- A word that looks like an option. -/
def readOptionWord (specs : List OptionSpec) (word : String) : Except Refusal WordOptions :=
  match word.toList with
  | '-' :: '-' :: long =>
      let (name, attached) := match Text.splitAtFirst '=' long with
        | some (name, value) => (name, some (String.ofList value))
        | none => (long, none)
      match specs.find? fun s => s.name == String.ofList name with
      | some spec => takeOption spec attached
      | none => .error .usage
  | _ => readLetters specs (word.toList.drop 1)

/-- Add options that have not been given before. -/
def Parsed.add (p : Parsed) (new : List (String × String)) : Except Refusal Parsed :=
  new.foldlM (fun p o =>
    if p.hasOption o.1 then .error .usage else .ok { p with options := p.options ++ [o] }) p

/-- Read words, the first of which is the value of an option if one is awaiting
it. Reading may stop at the first operand; the words from there on are left. -/
def readWords (specs : List OptionSpec) (stopsAtOperand : Bool) (awaiting : Option OptionSpec)
    (p : Parsed) : List String → Except Refusal (Parsed × List String)
  | [] => if awaiting.isSome then .error .usage else .ok (p, [])
  | word :: rest =>
      match awaiting with
      | some spec =>
          if isOptionLike word then .error .usage
          else
            match (takeOption spec (some word)).bind fun found => p.add found.complete with
            | .ok p => readWords specs stopsAtOperand none p rest
            | .error refusal => .error refusal
      | none =>
          if word == "--" then
            if stopsAtOperand then .error .usage
            else .ok ({ p with operands := p.operands ++ rest }, [])
          else if isOptionLike word then
            match readOptionWord specs word with
            | .ok found =>
                match p.add found.complete with
                | .ok p => readWords specs stopsAtOperand found.awaiting p rest
                | .error refusal => .error refusal
            | .error refusal => .error refusal
          else if stopsAtOperand then .ok (p, word :: rest)
          else readWords specs stopsAtOperand none { p with operands := p.operands ++ [word] } rest

/-- Read the options in front of the first operand, and give the words from
there on. -/
def readLeading (specs : List OptionSpec) (words : List String) :
    Except Refusal (Parsed × List String) :=
  readWords specs true none ⟨[], []⟩ words

/-- Read all options and operands. -/
def readAll (specs : List OptionSpec) (words : List String) : Except Refusal Parsed :=
  (readWords specs false none ⟨[], []⟩ words).map (·.1)

end EditMining.CommandLine
