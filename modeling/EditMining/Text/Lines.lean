/-!
# Lines

Code is handled as a list of lines. Where it has to be one text the lines are
joined by line breaks; positions in that text count characters.
-/

namespace EditMining.Text

/-- The lines as one text, a line break between neighbours. -/
def joinLines : List String → String
  | [] => ""
  | [line] => line
  | line :: rest => line ++ "\n" ++ joinLines rest

/-- Where each line begins in the joined text, the first line at `start`. -/
def lineStartsFrom (start : Nat) : List String → List Nat
  | [] => []
  | line :: rest => start :: lineStartsFrom (start + line.length + 1) rest

/-- Where each line begins in the joined text. -/
def lineStarts (lines : List String) : List Nat :=
  lineStartsFrom 0 lines

end EditMining.Text
