/-!
# Columns

Texts in a table are filled up with spaces to the width of their column. One
that is wider stands as it is.
-/

namespace EditMining.Text

/-- A text at the left of a column. -/
def padEnd (width : Nat) (text : String) : String :=
  text ++ String.ofList (List.replicate (width - text.length) ' ')

/-- A text at the right of a column. -/
def padStart (width : Nat) (text : String) : String :=
  String.ofList (List.replicate (width - text.length) ' ') ++ text

end EditMining.Text
