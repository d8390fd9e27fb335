import EditMining.Yaml.Scanner

/-!
# Reading YAML

A document is read from its lexemes. Nearly everywhere a value may be left out,
and is then blank. An alias stands for the value that an anchor of its name was
put on before.

A text holds one document. Every value begins with a lexeme of its own or
follows one, so the number of lexemes bounds how deep reading goes.
-/

namespace EditMining.Yaml

/-- The lexemes that are left, and the values with an anchor. -/
structure ReaderState where
  lexemes : List Lexeme
  anchors : List (String × Yaml)

/-- Reading a part of a document, which may fail. -/
abbrev Reader := StateT ReaderState Option

namespace Reader

/-- The next lexeme. -/
def peek : Reader Lexeme := do
  match (← get).lexemes with
  | [] => failure
  | l :: _ => pure l

/-- Pass over a lexeme. -/
def advance : Reader Unit :=
  modify fun s => { s with lexemes := s.lexemes.tail }

/-- Pass over the next lexeme if it is the given one, and say whether it was. -/
def takeIf (l : Lexeme) : Reader Bool := do
  if (← peek) == l then
    advance
    pure true
  else pure false

/-- The next lexeme has to be the given one. -/
def expect (l : Lexeme) : Reader Unit := do
  if !(← takeIf l) then failure

/-- The value of an alias. -/
def resolve (name : String) : Reader Yaml := do
  match (← get).anchors.lookup name with
  | some v => pure v
  | none => failure

/-- Put an anchor on a value. -/
def anchorAt (anchor : Option String) (v : Yaml) : Reader Yaml := do
  match anchor with
  | some name => modify fun s => { s with anchors := (name, v) :: s.anchors }
  | none => pure ()
  pure v

/-- The anchor and the tag in front of a value, in either order: the name of the
anchor, and whether there was anything. -/
def properties : Reader (Option String × Bool) := do
  match ← peek with
  | .anchor name =>
      advance
      discard (takeIf .tag)
      pure (some name, true)
  | .tag =>
      advance
      match ← peek with
      | .anchor name =>
          advance
          pure (some name, true)
      | _ => pure (none, true)
  | _ => pure (none, false)

mutual

/-- A value. `inBlock` says whether it may be a block, and `indentless` whether
it may be a sequence that is not indented. -/
def node : (depth : Nat) → (inBlock indentless : Bool) → Reader Yaml
  | 0, _, _ => failure
  | depth + 1, inBlock, indentless => do
      match ← peek with
      | .alias name =>
          advance
          resolve name
      | _ =>
          let (anchor, hasProperties) ← properties
          anchorAt anchor (← content depth inBlock indentless hasProperties)

/-- A value behind its properties; with these it may be left out. -/
def content : (depth : Nat) → (inBlock indentless hasProperties : Bool) → Reader Yaml
  | 0, _, _, _ => failure
  | depth + 1, inBlock, indentless, hasProperties => do
      match ← peek with
      | .scalar text isPlain =>
          advance
          pure (.scalar text isPlain)
      | .flowSequenceStart =>
          advance
          pure (.sequence (← flowItems depth true))
      | .flowMappingStart =>
          advance
          pure (.mapping (← flowMembers depth true))
      | .blockEntry =>
          if indentless then pure (.sequence (← indentlessItems depth))
          else if hasProperties then pure .blank
          else failure
      | .blockSequenceStart =>
          if inBlock then
            advance
            pure (.sequence (← blockItems depth))
          else failure
      | .blockMappingStart =>
          if inBlock then
            advance
            pure (.mapping (← blockMembers depth))
          else failure
      | _ => if hasProperties then pure .blank else failure

/-- A value, or nothing where one of some lexemes follows. -/
def nodeUnless : (depth : Nat) → (stops : List Lexeme) → (inBlock indentless : Bool) → Reader Yaml
  | 0, _, _, _ => failure
  | depth + 1, stops, inBlock, indentless => do
      if stops.contains (← peek) then pure .blank else node depth inBlock indentless

/-- The items of a block up to its end. -/
def blockItems : (depth : Nat) → Reader (List Yaml)
  | 0 => failure
  | depth + 1 => do
      if ← takeIf .blockEnd then pure []
      else
        expect .blockEntry
        let item ← nodeUnless depth [.blockEntry, .blockEnd] true false
        pure (item :: (← blockItems depth))

/-- Items that are not indented, as long as there are any. -/
def indentlessItems : (depth : Nat) → Reader (List Yaml)
  | 0 => failure
  | depth + 1 => do
      if ← takeIf .blockEntry then
        let item ← nodeUnless depth [.blockEntry, .key, .value, .blockEnd] true false
        pure (item :: (← indentlessItems depth))
      else pure []

/-- The members of a block up to its end. -/
def blockMembers : (depth : Nat) → Reader (List (Yaml × Yaml))
  | 0 => failure
  | depth + 1 => do
      if ← takeIf .blockEnd then pure []
      else
        expect .key
        let key ← nodeUnless depth [.key, .value, .blockEnd] true true
        let value ←
          if ← takeIf .value then nodeUnless depth [.key, .value, .blockEnd] true true
          else pure .blank
        pure ((key, value) :: (← blockMembers depth))

/-- The items between square brackets. A pair among them is a mapping. -/
def flowItems : (depth : Nat) → (isFirst : Bool) → Reader (List Yaml)
  | 0, _ => failure
  | depth + 1, isFirst => do
      if ← takeIf .flowSequenceEnd then pure []
      else
        if !isFirst then expect .flowEntry
        if ← takeIf .flowSequenceEnd then pure []
        else
          let item ←
            if ← takeIf .key then
              let key ← nodeUnless depth [.value, .flowEntry, .flowSequenceEnd] false false
              let value ←
                if ← takeIf .value then
                  nodeUnless depth [.flowEntry, .flowSequenceEnd] false false
                else pure .blank
              pure (.mapping [(key, value)])
            else node depth false false
          pure (item :: (← flowItems depth false))

/-- The members between curly brackets. -/
def flowMembers : (depth : Nat) → (isFirst : Bool) → Reader (List (Yaml × Yaml))
  | 0, _ => failure
  | depth + 1, isFirst => do
      if ← takeIf .flowMappingEnd then pure []
      else
        if !isFirst then expect .flowEntry
        if ← takeIf .flowMappingEnd then pure []
        else
          let member ←
            if ← takeIf .key then
              let key ← nodeUnless depth [.value, .flowEntry, .flowMappingEnd] false false
              let value ←
                if ← takeIf .value then
                  nodeUnless depth [.flowEntry, .flowMappingEnd] false false
                else pure .blank
              pure (key, value)
            else
              let key ← node depth false false
              pure (key, .blank)
          pure (member :: (← flowMembers depth false))

end

/-- Pass over directives. -/
def directives : Nat → Reader Unit
  | 0 => failure
  | depth + 1 => do
      if ← takeIf .directive then directives depth

/-- Pass over lines that end a document. -/
def documentEnds : Nat → Reader Unit
  | 0 => failure
  | depth + 1 => do
      if ← takeIf .documentEnd then documentEnds depth

/-- The only document of a text. -/
def document (depth : Nat) : Reader Yaml := do
  documentEnds depth
  let hasDirective := (← peek) == .directive
  directives depth
  let isMarked ← takeIf .documentStart
  if hasDirective && !isMarked then failure
  let v ← nodeUnless depth [.directive, .documentStart, .documentEnd, .streamEnd] true false
  documentEnds depth
  expect .streamEnd
  pure v

end Reader

/-- Read a YAML document; a text without one is blank. -/
def parse (text : String) : Option Yaml := do
  let ls ← lexemes text.toList
  let (v, _) ← (Reader.document (4 * ls.length + 4)).run ⟨ls, []⟩
  some v

end EditMining.Yaml
