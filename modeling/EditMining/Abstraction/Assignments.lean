import EditMining.Placeholder

/-!
# Assignments of placeholders

While a hunk is abstracted, each value gets a placeholder when it is first seen
and keeps it. Numbers are given out in order, for each kind from one on.
-/

namespace EditMining

/-- A value and the placeholder that replaces it. -/
structure Assignment where
  value : String
  placeholder : Placeholder
  deriving DecidableEq, Inhabited, Repr

/-- The values that have a placeholder, in the order in which they got it. -/
structure Assignments where
  entries : List Assignment
  deriving DecidableEq, Inhabited, Repr

namespace Assignments

/-- No value has a placeholder yet. -/
def empty : Assignments := ⟨[]⟩

/-- The placeholder of a value. -/
def find? (m : Assignments) (kind : PlaceholderKind) (value : String) : Option Placeholder :=
  (m.entries.find? fun a => a.placeholder.kind = kind ∧ a.value = value).map (·.placeholder)

/-- How many values of a kind have a placeholder. -/
def count (m : Assignments) (kind : PlaceholderKind) : Nat :=
  m.entries.countP fun a => a.placeholder.kind = kind

/-- The number of values that have a placeholder. -/
def size (m : Assignments) : Nat :=
  m.entries.length

/-- The placeholder of a value, the next one of its kind if it has none. -/
def assign (m : Assignments) (kind : PlaceholderKind) (value : String) :
    Assignments × Placeholder :=
  match m.find? kind value with
  | some p => (m, p)
  | none =>
      let p : Placeholder := ⟨kind, m.count kind + 1⟩
      (⟨m.entries ++ [⟨value, p⟩]⟩, p)

end Assignments

end EditMining
