/-!
# Searching and replacing

A text contains another when the second is one of its contiguous stretches.
Replacing goes through a text from the left. Where the searched text begins it
is recognised as an *occurrence*, and the search goes on behind it, so
occurrences never overlap.
-/

namespace EditMining.Text

/-- Whether `needle` is a contiguous stretch of the text. -/
def containsText (needle : List Char) : List Char → Bool
  | [] => needle.isEmpty
  | c :: rest => needle.isPrefixOf (c :: rest) || containsText needle rest

/-- Containment of one string in another. -/
def isWithin (needle text : String) : Bool :=
  containsText needle.toList text.toList

/-- What lies before the first occurrence of a character and what lies behind
it. -/
def splitAtFirst (mark : Char) : List Char → Option (List Char × List Char)
  | [] => none
  | c :: rest =>
      if c == mark then some ([], rest)
      else (splitAtFirst mark rest).map fun (before, behind) => (c :: before, behind)

/-- What lies before the last occurrence of a character and what lies behind
it. -/
def splitAtLast (mark : Char) (text : List Char) : Option (List Char × List Char) :=
  (splitAtFirst mark text.reverse).map fun (behind, before) => (before.reverse, behind.reverse)

/-- The text behind a position at which `passed` more characters belong to an
occurrence that is already replaced. -/
def replaceFrom (needle new : List Char) : Nat → List Char → List Char
  | _, [] => []
  | passed + 1, _ :: rest => replaceFrom needle new passed rest
  | 0, c :: rest =>
      if needle.isPrefixOf (c :: rest) then
        new ++ replaceFrom needle new (needle.length - 1) rest
      else c :: replaceFrom needle new 0 rest

/-- Every occurrence of a non-empty `needle` exchanged for `new`. -/
def replaceAll (needle new text : List Char) : List Char :=
  if needle.isEmpty then text else replaceFrom needle new 0 text

/-- What lies behind a position of the text when occurrences count only if the
characters on both sides of them do not continue them. `before` is the
character in front of the position. Of an occurrence that is already recognised
`passed` characters are still ahead: they are dropped when it was replaced and
stay when it was part of something longer. -/
def replaceBoundedFrom (continues : Char → Bool) (needle new : List Char) :
    (before : Option Char) → (passed : Nat) → (dropped : Bool) → List Char → List Char
  | _, _, _, [] => []
  | _, passed + 1, dropped, c :: rest =>
      let behind := replaceBoundedFrom continues needle new (some c) passed dropped rest
      if dropped then behind else c :: behind
  | before, 0, _, c :: rest =>
      if needle.isPrefixOf (c :: rest) then
        if before.any continues || (((c :: rest).drop needle.length).head?).any continues then
          c :: replaceBoundedFrom continues needle new (some c) (needle.length - 1) false rest
        else
          new ++ replaceBoundedFrom continues needle new (some c) (needle.length - 1) true rest
      else c :: replaceBoundedFrom continues needle new (some c) 0 false rest

/-- Every occurrence of `needle` that stands free, with no character of the
class `continues` directly in front of it or behind it, exchanged for `new`.
Nothing stands for an empty `needle`. -/
def replaceBounded (continues : Char → Bool) (needle new text : List Char) : List Char :=
  if needle.isEmpty then text else replaceBoundedFrom continues needle new none 0 false text

end EditMining.Text
