/-!
# Positions in a YAML text

A cursor is a place in a text: what is left of it, and the line and column, both
counted from zero. A line feed, a carriage return, both together, and three
further characters end a line.
-/

namespace EditMining.Yaml

structure Cursor where
  rest : List Char
  line : Nat
  column : Nat
  /-- How many characters lie before the place. -/
  index : Nat
  deriving DecidableEq, Inhabited, Repr

/-- Characters that end a line. -/
def isBreak (c : Char) : Bool :=
  c == '\n' || c == '\r' || c == '\u0085' || c == '\u2028' || c == '\u2029'

/-- Blanks inside a line. -/
def isBlankChar (c : Char) : Bool :=
  c == ' ' || c == '\t'

/-- What a line break is read as. -/
def breakText (c : Char) : List Char :=
  if c == '\u2028' || c == '\u2029' then [c] else ['\n']

/-- Characters that a YAML text may hold. -/
def isAllowed (c : Char) : Bool :=
  let n := c.toNat
  n == 0x09 || n == 0x0A || n == 0x0D || (0x20 ≤ n && n ≤ 0x7E) || n == 0x85
    || (0xA0 ≤ n && n ≤ 0xFFFD && n != 0xFEFF) || 0x10000 ≤ n

namespace Cursor

/-- The start of a text. -/
def start (text : List Char) : Cursor := ⟨text, 0, 0, 0⟩

/-- The place behind one character, or behind one line break. -/
def next (c : Cursor) : Cursor :=
  match c.rest with
  | [] => c
  | '\r' :: '\n' :: rest => ⟨rest, c.line + 1, 0, c.index + 2⟩
  | ch :: rest =>
      if isBreak ch then ⟨rest, c.line + 1, 0, c.index + 1⟩
      else ⟨rest, c.line, c.column + 1, c.index + 1⟩

/-- The place some characters further. -/
def skip : Nat → Cursor → Cursor
  | 0, c => c
  | n + 1, c => c.next.skip n

/-- The character `n` places further. -/
def peek (c : Cursor) (n : Nat) : Option Char :=
  c.rest[n]?

def atEnd (c : Cursor) : Bool :=
  c.rest.isEmpty

/-- Whether a given character stands here. -/
def sees (c : Cursor) (ch : Char) : Bool :=
  c.rest.head? == some ch

/-- Whether the line or the text ends `n` places further. -/
def endsLineAt (c : Cursor) (n : Nat) : Bool :=
  (c.peek n).all isBreak

/-- Whether a blank or the end of the line is `n` places further. -/
def isGapAt (c : Cursor) (n : Nat) : Bool :=
  (c.peek n).all fun ch => isBlankChar ch || isBreak ch

/-- Whether a line that separates documents begins here. -/
def seesSeparator (c : Cursor) (mark : Char) : Bool :=
  c.column == 0 && [mark, mark, mark].isPrefixOf c.rest && c.isGapAt 3

theorem next_length_lt {c : Cursor} (h : c.rest ≠ []) : c.next.rest.length < c.rest.length := by
  unfold next
  split
  · exact absurd (by assumption) h
  · next heq => rw [heq]; simp only [List.length_cons]; omega
  · next heq =>
      rw [heq]
      split <;> simp

theorem rest_ne_nil {c : Cursor} {ch : Char} {rest : List Char} (h : c.rest = ch :: rest) :
    c.rest ≠ [] := by
  simp [h]

/-- The place behind the characters of a class. -/
def skipWhile (p : Char → Bool) (c : Cursor) : Cursor :=
  match _h : c.rest with
  | [] => c
  | ch :: _ => if p ch then c.next.skipWhile p else c
termination_by c.rest.length
decreasing_by exact next_length_lt (rest_ne_nil _h)

/-- The rest of a line, and the place where it ends. -/
def takeLine (c : Cursor) : List Char × Cursor :=
  (c.rest.takeWhile fun ch => !isBreak ch, c.skipWhile fun ch => !isBreak ch)

end Cursor

end EditMining.Yaml
