import EditMining.Yaml.Basic
import EditMining.Yaml.Scalar

/-!
# The lexemes of a YAML text

The scanner goes through a text and notes lexemes. Blocks follow from the
indentation: a deeper column begins one, and a column further to the left ends
those that are deeper.

That something is a key only shows at the colon behind it. So wherever a key may
begin the scanner remembers the place, and when a colon follows on the same line
the key is marked there afterwards.
-/

namespace EditMining.Yaml

/-- A place where a key may have begun. -/
structure KeyPlace where
  /-- How many lexemes lie before it. -/
  position : Nat
  line : Nat
  column : Nat
  index : Nat
  /-- Whether nothing but a key can stand there. -/
  isRequired : Bool
  deriving DecidableEq, Inhabited, Repr

structure Scanner where
  cursor : Cursor
  /-- The lexemes so far, the last one first. -/
  lexemes : List Lexeme
  /-- The columns of the open blocks, each plus one, the innermost first. -/
  indents : List Nat
  /-- The place of a key, for each open bracket and for the text around them. -/
  keys : List (Option KeyPlace)
  /-- Whether a key may begin here. -/
  keyAllowed : Bool
  deriving Inhabited, Repr

namespace Scanner

def start (text : List Char) : Scanner :=
  ⟨.start text, [], [], [none], true⟩

/-- One more than the column of the innermost block. -/
def indent (s : Scanner) : Nat :=
  s.indents.headD 0

/-- Whether the place is inside brackets. -/
def inFlow (s : Scanner) : Bool :=
  1 < s.keys.length

def emit (s : Scanner) (l : Lexeme) : Scanner :=
  { s with lexemes := l :: s.lexemes }

/-- Note a lexeme that stands before others. -/
def emitAt (s : Scanner) (position : Nat) (l : Lexeme) : Scanner :=
  let behind := s.lexemes.length - position
  { s with lexemes := s.lexemes.take behind ++ l :: s.lexemes.drop behind }

/-- Begin a block at a column that is further to the right than the block around
it. -/
def rollIndent (s : Scanner) (column position : Nat) (l : Lexeme) : Scanner :=
  if s.inFlow || column + 1 ≤ s.indent then s
  else { s.emitAt position l with indents := (column + 1) :: s.indents }

/-- End the blocks that are further to the right than a column, given plus
one. -/
def unrollIndent (s : Scanner) (column : Nat) : Scanner :=
  if s.inFlow then s
  else
    let deeper := s.indents.takeWhile fun i => decide (column < i)
    { s with
      lexemes := List.replicate deeper.length .blockEnd ++ s.lexemes
      indents := s.indents.drop deeper.length }

/-- Forget the place of a key. One that was required must not be lost. -/
def removeKey (s : Scanner) : Option Scanner :=
  match s.keys with
  | some place :: rest => if place.isRequired then none else some { s with keys := none :: rest }
  | _ => some s

/-- Remember that a key may begin here. -/
def saveKey (s : Scanner) : Option Scanner :=
  if s.keyAllowed then do
    let s ← s.removeKey
    let c := s.cursor
    let place : KeyPlace :=
      { position := s.lexemes.length
        line := c.line
        column := c.column
        index := c.index
        isRequired := !s.inFlow && s.indent == c.column + 1 }
    some { s with keys := some place :: s.keys.tail }
  else some s

/-- Whether a key that began at some place can no longer end here: keys are
short, and on one line. -/
def isStale (c : Cursor) (place : KeyPlace) : Bool :=
  place.line < c.line || place.index + 1024 < c.index

/-- Forget the places of keys that can no longer end. -/
def dropStaleKeys (s : Scanner) : Option Scanner :=
  if s.keys.any fun k => k.any fun place => place.isRequired && isStale s.cursor place then none
  else some { s with keys := s.keys.map fun k => k.filter fun place => !isStale s.cursor place }

/-- The place of the next lexeme: blanks, comments and line breaks are passed
over. A line break outside of brackets lets a key begin. -/
def skipGap (inFlow keyAllowed : Bool) (c : Cursor) : Cursor × Bool :=
  match _h : c.rest with
  | [] => (c, keyAllowed)
  | ch :: _ =>
      if ch == ' ' || (ch == '\t' && (inFlow || !keyAllowed)) then skipGap inFlow keyAllowed c.next
      else if ch == '#' then
        if _hlt : c.takeLine.2.rest.length < c.rest.length then
          skipGap inFlow keyAllowed c.takeLine.2
        else (c, keyAllowed)
      else if isBreak ch then skipGap inFlow (keyAllowed || !inFlow) c.next
      else (c, keyAllowed)
termination_by c.rest.length
decreasing_by
  · exact Cursor.next_length_lt (Cursor.rest_ne_nil _h)
  · exact _hlt
  · exact Cursor.next_length_lt (Cursor.rest_ne_nil _h)

/-- Take some characters as one lexeme. -/
def take (s : Scanner) (n : Nat) (l : Lexeme) : Scanner :=
  { s with cursor := s.cursor.skip n }.emit l

/-- A line between documents. -/
def takeDocumentMark (s : Scanner) (l : Lexeme) : Option Scanner := do
  let s ← (s.unrollIndent 0).removeKey
  some ({ s with keyAllowed := false }.take 3 l)

def openFlow (s : Scanner) (l : Lexeme) : Option Scanner := do
  let s ← s.saveKey
  some ({ s with keys := none :: s.keys, keyAllowed := true }.take 1 l)

def closeFlow (s : Scanner) (l : Lexeme) : Option Scanner := do
  let s ← s.removeKey
  let keys := if s.inFlow then s.keys.tail else s.keys
  some ({ s with keys := keys, keyAllowed := false }.take 1 l)

def takeFlowEntry (s : Scanner) : Option Scanner := do
  let s ← s.removeKey
  some ({ s with keyAllowed := true }.take 1 .flowEntry)

/-- The mark of an item or of a key that is told explicitly. -/
def takeBlockMark (s : Scanner) (block l : Lexeme) (keyAllowed : Bool) : Option Scanner :=
  if !s.inFlow && !s.keyAllowed then none
  else do
    let s ← (s.rollIndent s.cursor.column s.lexemes.length block).removeKey
    some ({ s with keyAllowed := keyAllowed }.take 1 l)

/-- A colon: what was remembered before it is a key. -/
def takeValue (s : Scanner) : Option Scanner :=
  match s.keys with
  | some place :: rest =>
      let s := s.emitAt place.position .key
      let s := s.rollIndent place.column place.position .blockMappingStart
      some ({ s with keys := none :: rest, keyAllowed := false }.take 1 .value)
  | _ =>
      if s.inFlow then some ({ s with keyAllowed := false }.take 1 .value)
      else if !s.keyAllowed then none
      else
        let s := s.rollIndent s.cursor.column s.lexemes.length .blockMappingStart
        some ({ s with keyAllowed := true }.take 1 .value)

/-- Characters of the names of anchors. -/
def isAnchorChar (c : Char) : Bool :=
  c.isAlphanum || c == '_' || c == '-'

/-- An anchor or an alias: a mark and a name. -/
def takeAnchor (s : Scanner) (make : String → Lexeme) : Option Scanner := do
  let s ← s.saveKey
  let c := s.cursor.next
  let name := c.rest.takeWhile isAnchorChar
  let c := c.skipWhile isAnchorChar
  let ends := c.isGapAt 0 || (c.rest.head?).any fun ch => "?:,]\x7d%@\x60".toList.contains ch
  if name.isEmpty || !ends then none
  else some ({ s with cursor := c, keyAllowed := false }.emit (make (String.ofList name)))

/-- A tag; it says nothing that matters here. -/
def takeTag (s : Scanner) : Option Scanner := do
  let s ← s.saveKey
  let inFlow := s.inFlow
  let c := s.cursor.skipWhile fun ch =>
    !isBlankChar ch && !isBreak ch && !(inFlow && isFlowMark ch)
  some ({ s with cursor := c, keyAllowed := false }.emit .tag)

def takeBlockScalar (s : Scanner) (isLiteral : Bool) : Option Scanner := do
  let s ← s.removeKey
  let (text, c) ← takeBlock isLiteral s.indent s.cursor.next
  some ({ s with cursor := c, keyAllowed := true }.emit (.scalar (String.ofList text) false))

def takeQuotedScalar (s : Scanner) (quote : Char) : Option Scanner := do
  let s ← s.saveKey
  let (text, c) ← takeQuoted quote s.cursor.next
  some ({ s with cursor := c, keyAllowed := false }.emit (.scalar (String.ofList text) false))

def takePlainScalar (s : Scanner) : Option Scanner := do
  let s ← s.saveKey
  let (text, c, crosses) ← takePlain s.inFlow s.indent s.cursor
  some ({ s with cursor := c, keyAllowed := crosses }.emit (.scalar (String.ofList text) true))

/-- A directive: only the version of the format is understood. -/
def takeDirective (s : Scanner) : Option Scanner := do
  let s ← (s.unrollIndent 0).removeKey
  let (line, c) := s.cursor.takeLine
  let words := (String.ofList line).splitOn " " |>.filter (· ≠ "")
  match words with
  | ["%YAML", "1.1"] | ["%YAML", "1.2"] =>
      some ({ s with cursor := c, keyAllowed := false }.emit .directive)
  | _ => none

/-- Whether a plain scalar can begin with the next character. -/
def startsPlain (s : Scanner) (ch : Char) : Bool :=
  let c := s.cursor
  if ch == '-' then !(c.peek 1).any isBlankChar
  else if ch == '?' || ch == ':' then !s.inFlow && !c.isGapAt 1
  else !c.isGapAt 0 && !(",[]\x7b\x7d#&*!|>'\"%@\x60".toList.contains ch)

/-- The scanner behind the lexeme that begins with the next character. -/
def takeLexeme (s : Scanner) (ch : Char) : Option Scanner :=
  let c := s.cursor
  if c.column == 0 && ch == '%' then s.takeDirective
  else if c.seesSeparator '-' then s.takeDocumentMark .documentStart
  else if c.seesSeparator '.' then s.takeDocumentMark .documentEnd
  else if ch == '[' then s.openFlow .flowSequenceStart
  else if ch == '\x7b' then s.openFlow .flowMappingStart
  else if ch == ']' then s.closeFlow .flowSequenceEnd
  else if ch == '\x7d' then s.closeFlow .flowMappingEnd
  else if ch == ',' then s.takeFlowEntry
  else if ch == '-' && c.isGapAt 1 then s.takeBlockMark .blockSequenceStart .blockEntry true
  else if ch == '?' && (s.inFlow || c.isGapAt 1) then
    s.takeBlockMark .blockMappingStart .key !s.inFlow
  else if ch == ':' && (s.inFlow || c.isGapAt 1) then s.takeValue
  else if ch == '*' then s.takeAnchor .alias
  else if ch == '&' then s.takeAnchor .anchor
  else if ch == '!' then s.takeTag
  else if ch == '|' && !s.inFlow then s.takeBlockScalar true
  else if ch == '>' && !s.inFlow then s.takeBlockScalar false
  else if ch == '\'' || ch == '"' then s.takeQuotedScalar ch
  else if s.startsPlain ch then s.takePlainScalar
  else none

/-- Go to the next lexeme, and end the blocks that do not reach it. -/
def approach (s : Scanner) : Option Scanner := do
  let (c, keyAllowed) := skipGap s.inFlow s.keyAllowed s.cursor
  let s ← { s with cursor := c, keyAllowed := keyAllowed }.dropStaleKeys
  if c.atEnd then (s.unrollIndent 0).removeKey else some (s.unrollIndent (c.column + 1))

/-- All lexemes from a place on. -/
def finish (s : Scanner) : Option (List Lexeme) := do
  let near ← s.approach
  match near.cursor.rest with
  | [] => some ((Lexeme.streamEnd :: near.lexemes).reverse)
  | ch :: _ =>
      let behind ← near.takeLexeme ch
      if _h : behind.cursor.rest.length < s.cursor.rest.length then behind.finish else none
termination_by s.cursor.rest.length
decreasing_by exact _h

end Scanner

/-- Cut a YAML text into lexemes. A byte order mark in front of it does not
count. -/
def lexemes (text : List Char) : Option (List Lexeme) :=
  let text := match text with
    | '\ufeff' :: rest => rest
    | text => text
  if text.all isAllowed then (Scanner.start text).finish else none

end EditMining.Yaml
