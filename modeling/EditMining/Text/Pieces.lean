/-!
# A text cut into pieces

Given a class of characters, a text falls into *pieces*: maximal runs of
characters inside the class, and maximal runs of characters outside it. Nothing
is lost (`flatten_pieces`), and words are the pieces inside the class.
-/

namespace EditMining.Text

/-- A maximal run of characters, all inside or all outside of a class. -/
structure Piece where
  inside : Bool
  chars : List Char
  deriving DecidableEq, Repr

/-- The maximal runs of a text, in order. -/
def pieces (inClass : Char → Bool) : List Char → List Piece
  | [] => []
  | c :: rest =>
      match pieces inClass rest with
      | [] => [⟨inClass c, [c]⟩]
      | next :: more =>
          if next.inside == inClass c then ⟨next.inside, c :: next.chars⟩ :: more
          else ⟨inClass c, [c]⟩ :: next :: more

/-- The maximal runs inside the class. -/
def runsOf (inClass : Char → Bool) (text : List Char) : List (List Char) :=
  ((pieces inClass text).filter (·.inside)).map (·.chars)

/-- The text with every run inside the class that equals `old` exchanged for
`new`, and everything else as it was. -/
def substituteRuns (inClass : Char → Bool) (old new text : List Char) : List Char :=
  (pieces inClass text).flatMap fun piece =>
    if piece.inside && piece.chars == old then new else piece.chars

/-- Cutting a text into pieces loses nothing. -/
theorem flatten_pieces (inClass : Char → Bool) (text : List Char) :
    (pieces inClass text).flatMap (·.chars) = text := by
  induction text with
  | nil => rfl
  | cons c rest ih =>
      rw [pieces]
      split
      · next h => simp [h] at ih; simp [ih]
      · next piece more h =>
          rw [h] at ih
          split <;> simp_all

end EditMining.Text
