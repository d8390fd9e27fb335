import EditMining.Yaml.Cursor

/-!
# Scalars of a YAML text

A scalar is written plainly, between quotes of either kind, or as a block of
lines. Except in a block, a line break inside a scalar is read as a blank, and
empty lines between two lines are read as so many line breaks; blanks around
line breaks do not count.
-/

namespace EditMining.Yaml

/-- Blanks and line breaks between two words. -/
structure Gap where
  blanks : List Char
  crossesLine : Bool
  /-- The first line break. -/
  leading : List Char
  /-- The line breaks after the first. -/
  trailing : List Char
  deriving DecidableEq, Inhabited, Repr

namespace Gap

def empty : Gap := ⟨[], false, [], []⟩

/-- What a gap is read as. -/
def text (g : Gap) : List Char :=
  if !g.crossesLine then g.blanks
  else if g.leading == ['\n'] then (if g.trailing.isEmpty then [' '] else g.trailing)
  else g.leading ++ g.trailing

def addBlank (g : Gap) (c : Char) : Gap :=
  if g.crossesLine then g else { g with blanks := g.blanks ++ [c] }

def addBreak (g : Gap) (c : Char) : Gap :=
  if g.crossesLine then { g with trailing := g.trailing ++ breakText c }
  else ⟨[], true, breakText c, []⟩

end Gap

/-- The gap from a place on. `tabsFrom` is the column before which no tab may
stand at the start of a line. -/
def takeGap (tabsFrom : Nat) (g : Gap) (c : Cursor) : Option (Gap × Cursor) :=
  match _h : c.rest with
  | [] => some (g, c)
  | ch :: _ =>
      if isBlankChar ch then
        if g.crossesLine && c.column < tabsFrom && ch == '\t' then none
        else takeGap tabsFrom (g.addBlank ch) c.next
      else if isBreak ch then takeGap tabsFrom (g.addBreak ch) c.next
      else some (g, c)
termination_by c.rest.length
decreasing_by all_goals exact Cursor.next_length_lt (Cursor.rest_ne_nil _h)

/-- Whether a line that begins or ends a document is here. -/
def seesDocumentMark (c : Cursor) : Bool :=
  c.seesSeparator '-' || c.seesSeparator '.'

/-! ## Plain scalars -/

/-- Characters that end a plain scalar inside brackets. -/
def isFlowMark (c : Char) : Bool :=
  ",[]\x7b\x7d".toList.contains c

/-- A word of a plain scalar; `inFlow` says whether it is inside brackets. -/
def takePlainWord (inFlow : Bool) (c : Cursor) : Option (List Char × Cursor) :=
  match _h : c.rest with
  | [] => some ([], c)
  | ch :: _ =>
      if isBlankChar ch || isBreak ch then some ([], c)
      else if inFlow && ch == ':' && (c.peek 1).any (fun next => next == '?' || isFlowMark next) then
        none
      else if (ch == ':' && c.isGapAt 1) || (inFlow && isFlowMark ch) then some ([], c)
      else (takePlainWord inFlow c.next).map fun (word, c) => (ch :: word, c)
termination_by c.rest.length
decreasing_by exact Cursor.next_length_lt (Cursor.rest_ne_nil _h)

/-- A plain scalar whose lines are indented to a column, its end, and whether
the gap behind it crosses a line. -/
def takePlain (inFlow : Bool) (indent : Nat) (c : Cursor) : Option (List Char × Cursor × Bool) := do
  if seesDocumentMark c || c.sees '#' then some ([], c, false)
  else
    let (word, c₁) ← takePlainWord inFlow c
    if c₁.atEnd || !c₁.isGapAt 0 then some (word, c₁, false)
    else
      let (gap, c₂) ← takeGap indent .empty c₁
      if !inFlow && c₂.column < indent then some (word, c₂, gap.crossesLine)
      else if _h : c₂.rest.length < c.rest.length then
        let (more, c₃, crosses) ← takePlain inFlow indent c₂
        if more.isEmpty then some (word, c₃, gap.crossesLine)
        else some (word ++ gap.text ++ more, c₃, crosses)
      else none
termination_by c.rest.length
decreasing_by exact _h

/-! ## Quoted scalars -/

/-- The value of a digit in base sixteen. -/
def hexDigit? (c : Char) : Option Nat :=
  if '0' ≤ c && c ≤ '9' then some (c.toNat - '0'.toNat)
  else if 'a' ≤ c && c ≤ 'f' then some (c.toNat - 'a'.toNat + 10)
  else if 'A' ≤ c && c ≤ 'F' then some (c.toNat - 'A'.toNat + 10)
  else none

/-- The character with a code point of so many digits in base sixteen. -/
def codedChar? (digits : Nat) (text : List Char) : Option Char := do
  let ds ← (text.take digits).mapM hexDigit?
  let n := ds.foldl (fun n d => n * 16 + d) 0
  if ds.length == digits && n.isValidChar then some (Char.ofNat n) else none

/-- The character that is written with a backslash and a letter. -/
def simpleEscape? (c : Char) : Option Char :=
  [('0', '\x00'), ('a', '\x07'), ('b', '\x08'), ('t', '\t'), ('\t', '\t'), ('n', '\n'),
    ('v', '\x0b'), ('f', '\x0c'), ('r', '\r'), ('e', '\x1b'), (' ', ' '), ('"', '"'), ('/', '/'),
    ('\\', '\\'), ('N', '\u0085'), ('_', '\u00a0'), ('L', '\u2028'), ('P', '\u2029')].lookup c

/-- The character that an escape stands for, and how many characters the escape
has behind the backslash. -/
def escape? : List Char → Option (Char × Nat)
  | 'x' :: rest => (codedChar? 2 rest).map fun c => (c, 3)
  | 'u' :: rest => (codedChar? 4 rest).map fun c => (c, 5)
  | 'U' :: rest => (codedChar? 8 rest).map fun c => (c, 9)
  | c :: _ => (simpleEscape? c).map fun c => (c, 1)
  | [] => none

/-- One step inside quotes: a part of the text with the place behind it, or the
end with the place behind the closing quote. -/
inductive QuotedStep where
  | part (text : List Char) (c : Cursor)
  | finish (c : Cursor)

/-- The step at a place between two quotes of a kind. -/
def quotedStep (quote : Char) (c : Cursor) : Option QuotedStep := do
  let ch ← c.rest.head?
  if seesDocumentMark c then none
  else if c.isGapAt 0 then
    let (gap, c) ← takeGap 0 .empty c
    some (.part gap.text c)
  else if ch == quote then
    if quote == '\'' && c.peek 1 == some '\'' then some (.part ['\''] (c.skip 2))
    else some (.finish c.next)
  else if quote == '"' && ch == '\\' then
    if (c.peek 1).any isBreak then
      let (gap, c) ← takeGap 0 ⟨[], true, [], []⟩ (c.skip 2)
      some (.part gap.text c)
    else
      let (e, n) ← escape? (c.rest.drop 1)
      some (.part [e] (c.skip (n + 1)))
  else some (.part [ch] c.next)

/-- A scalar between quotes, from behind the opening quote. -/
def takeQuoted (quote : Char) (c : Cursor) : Option (List Char × Cursor) := do
  match ← quotedStep quote c with
  | .finish c => some ([], c)
  | .part text c₁ =>
      if _h : c₁.rest.length < c.rest.length then
        let (more, c₂) ← takeQuoted quote c₁
        some (text ++ more, c₂)
      else none
termination_by c.rest.length
decreasing_by exact _h

/-! ## Blocks -/

/-- What becomes of the line breaks at the end of a block. -/
inductive Chomping where
  | strip
  | clip
  | keep
  deriving DecidableEq, Inhabited, Repr

def Chomping.ofSign? : Char → Option Chomping
  | '-' => some .strip
  | '+' => some .keep
  | _ => none

/-- How the lines of a block are read. -/
structure BlockStyle where
  isLiteral : Bool
  chomping : Chomping
  /-- How much deeper than its surroundings the block is indented. -/
  increment : Option Nat

/-- The sign and the digit behind the mark of a block, in either order. -/
def takeBlockHeader (isLiteral : Bool) (c : Cursor) : Option (BlockStyle × Cursor) :=
  let digitOf (c : Cursor) : Option Nat := (c.rest.head?.filter (·.isDigit)).map fun d => d.toNat - '0'.toNat
  let signOf (c : Cursor) : Option Chomping := c.rest.head?.bind Chomping.ofSign?
  let (chomping, increment, c) : Option Chomping × Option Nat × Cursor :=
    match signOf c with
    | some sign =>
        match digitOf c.next with
        | some d => (some sign, some d, c.skip 2)
        | none => (some sign, none, c.next)
    | none =>
        match digitOf c with
        | some d =>
            match signOf c.next with
            | some sign => (some sign, some d, c.skip 2)
            | none => (none, some d, c.next)
        | none => (none, none, c)
  if increment == some 0 then none
  else some (⟨isLiteral, chomping.getD .clip, increment⟩, c)

/-- The end of the line with the mark of a block, where only a comment may
stand. -/
def takeBlockLineEnd (c : Cursor) : Option Cursor :=
  let c := c.skipWhile isBlankChar
  let c := if c.sees '#' then c.takeLine.2 else c
  if c.endsLineAt 0 then some c.next else none

/-- Empty lines of a block: their line breaks, the place behind them, and the
furthest column that was reached. Without an indentation all blanks belong to
it. -/
def takeBlockBreaks (indent : Option Nat) (reached : Nat) (c : Cursor) :
    Option (List Char × Cursor × Nat) :=
  let isBefore (column : Nat) : Bool := indent.all fun n => decide (column < n)
  match _h : c.rest with
  | [] => some ([], c, reached)
  | ch :: _ =>
      if ch == ' ' && isBefore c.column then
        takeBlockBreaks indent (max reached (c.column + 1)) c.next
      else if ch == '\t' && isBefore c.column then none
      else if isBreak ch then
        (takeBlockBreaks indent reached c.next).map fun (breaks, rest) =>
          (breakText ch ++ breaks, rest)
      else some ([], c, reached)
termination_by c.rest.length
decreasing_by all_goals exact Cursor.next_length_lt (Cursor.rest_ne_nil _h)

/-- What stands between two lines of a block, given the line break and the empty
lines between them, and whether one of the two begins with a blank. -/
def blockGap (isLiteral : Bool) (lineBreak breaks : List Char) (isIndented : Bool) : List Char :=
  if !isLiteral && lineBreak == ['\n'] && !isIndented then
    if breaks.isEmpty then [' '] else breaks
  else lineBreak ++ breaks

/-- The lines of a block from a place on. `lineBreak` and `breaks` lie behind
the line before, which began with a blank if `wasIndented`. -/
def takeBlockLines (style : BlockStyle) (indent : Nat) (lineBreak breaks : List Char)
    (wasIndented : Bool) (c : Cursor) : Option (List Char × Cursor) := do
  if c.column == indent && !c.atEnd then
    let isIndented := c.rest.head?.any isBlankChar
    let gap := blockGap style.isLiteral lineBreak breaks (wasIndented || isIndented)
    let (line, c₁) := c.takeLine
    let lineBreak := (c₁.rest.head?.map breakText).getD []
    let (breaks, c₂, _) ← takeBlockBreaks (some indent) 0 c₁.next
    if _h : c₂.rest.length < c.rest.length then
      let (more, c₃) ← takeBlockLines style indent lineBreak breaks isIndented c₂
      some (gap ++ line ++ more, c₃)
    else none
  else
    match style.chomping with
    | .strip => some ([], c)
    | .clip => some (lineBreak, c)
    | .keep => some (lineBreak ++ breaks, c)
termination_by c.rest.length
decreasing_by exact _h

/-- A block, from behind its mark; `surrounding` is one more than the column of
what it belongs to. -/
def takeBlock (isLiteral : Bool) (surrounding : Nat) (c : Cursor) : Option (List Char × Cursor) := do
  let (style, c) ← takeBlockHeader isLiteral c
  let c ← takeBlockLineEnd c
  let given := style.increment.map fun n => if surrounding == 0 then n else surrounding - 1 + n
  let (breaks, c, reached) ← takeBlockBreaks given 0 c
  let indent := given.getD (max reached (max surrounding 1))
  takeBlockLines style indent [] breaks false c

end EditMining.Yaml
