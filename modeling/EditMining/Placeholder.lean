import EditMining.Text.Pieces
import EditMining.Text.Search
import EditMining.Text.Alphanumeric
import EditMining.Decimal.Natural

/-!
# Placeholders

A placeholder such as `VARIABLE_3` stands for a value that an edit leaves
alone. It is a word: a stem that tells what kind of value it replaces, an
underscore, and a number.

A value is replaced only where it stands free. Words end where no word
character follows; for numbers a point counts as part of a longer number too,
so that `1` leaves `1.5` and `0.1` alone.
-/

namespace EditMining

/-- What kind of value a placeholder replaces. -/
inductive PlaceholderKind where
  | identifier
  | string
  | number
  | function
  deriving DecidableEq, Inhabited, Repr

namespace PlaceholderKind

def all : List PlaceholderKind :=
  [.identifier, .string, .number, .function]

/-- The word a placeholder of this kind begins with. -/
def stem : PlaceholderKind → String
  | .identifier => "VARIABLE"
  | .string => "STRING"
  | .number => "NUMBER"
  | .function => "FUNCTION"

/-- A regular expression for the values that a placeholder stands for. -/
def regex : PlaceholderKind → String
  | .identifier | .function => "[a-zA-Z_][a-zA-Z0-9_]*"
  | .string => "['\"][^'\"]*['\"]"
  | .number => "\\b\\d+\\b"

end PlaceholderKind

/-- A kind and a number. -/
structure Placeholder where
  kind : PlaceholderKind
  index : Nat
  deriving DecidableEq, Inhabited, Repr

namespace Placeholder

/-- The word that is a placeholder. -/
def renderChars (p : Placeholder) : List Char :=
  p.kind.stem.toList ++ '_' :: Decimal.digits p.index

def render (p : Placeholder) : String :=
  String.ofList p.renderChars

/-- Read a word as a placeholder of one kind. -/
def parseAs? (kind : PlaceholderKind) (word : List Char) : Option Placeholder :=
  match List.isPrefixOf? kind.stem.toList word with
  | some ('_' :: index) => (Decimal.readNumeral index).map (⟨kind, ·⟩)
  | _ => none

/-- Read a word as a placeholder. -/
def parse? (word : List Char) : Option Placeholder :=
  PlaceholderKind.all.findSome? (parseAs? · word)

/-- Whether a word is a placeholder. -/
def isPlaceholder (word : List Char) : Bool :=
  (parse? word).isSome

end Placeholder

namespace Text

/-- The characters of numbers: a point continues a number. -/
def isNumberChar (c : Char) : Bool :=
  isWordChar c || c == '.'

/-- The words of a text. -/
def words (text : List Char) : List (List Char) :=
  runsOf isWordChar text

/-- Replace a word where it is no part of a longer one. -/
def replaceWord (word new text : List Char) : List Char :=
  replaceBounded isWordChar word new text

/-- Replace a number where it is no part of a longer one, or of a word. -/
def replaceNumber (literal new text : List Char) : List Char :=
  replaceBounded isNumberChar literal new text

/-- The characters that mean something in regular expressions. -/
def isRegexMark (c : Char) : Bool :=
  "\\.+*?()|[]\x7b\x7d^$#&-~".toList.contains c

/-- A character that stands for itself in a regular expression. -/
def escapeRegex (c : Char) : List Char :=
  if isRegexMark c then ['\\', c] else [c]

/-- A piece of a text as a regular expression: a placeholder stands for its
values and all else for itself. -/
def pieceRegex (piece : Piece) : List Char :=
  match if piece.inside then Placeholder.parse? piece.chars else none with
  | some p => p.kind.regex.toList
  | none => piece.chars.flatMap escapeRegex

/-- A text as a regular expression. -/
def regexOf (text : List Char) : List Char :=
  (pieces isWordChar text).flatMap pieceRegex

/-- Texts as one regular expression; anything may stand between them. -/
def regexSource (texts : List String) : String :=
  ".*".intercalate (texts.map fun t => String.ofList (regexOf t.toList))

end Text

end EditMining
