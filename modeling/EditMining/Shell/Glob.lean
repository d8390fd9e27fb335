import EditMining.Shell.Syntax

/-!
# Patterns of the shell

A pattern matches a whole value. A star stands for any bytes, a question mark
for one, and brackets for one of a set. What was quoted stands for itself.
-/

namespace EditMining.Shell

/-- A part of a pattern. -/
inductive Glob where
  | literal (b : UInt8)
  | one
  | many
  | oneOf (isNegated : Bool) (ranges : List (UInt8 × UInt8))
  deriving DecidableEq, Repr

namespace Glob

/-- Ranges between brackets. -/
def ranges : List UInt8 → List (UInt8 × UInt8)
  | a :: 0x2D :: b :: rest => (a, b) :: ranges rest
  | a :: rest => (a, a) :: ranges rest
  | [] => []

/-- The text between brackets that are open, and what is behind them. A closing
bracket that comes first belongs to the text. -/
def bracketed (text : List (UInt8 × Bool)) : Option (List UInt8 × List (UInt8 × Bool)) :=
  let isClosing (p : UInt8 × Bool) : Bool := p.1 == 0x5D
  let first := text.take 1
  let inner := (text.drop 1).takeWhile fun p => !isClosing p
  match (text.drop 1).dropWhile fun p => !isClosing p with
  | [] => none
  | _ :: rest => some ((first ++ inner).map (·.1), rest)

theorem bracketed_length {text rest : List (UInt8 × Bool)} {inner : List UInt8}
    (h : bracketed text = some (inner, rest)) : rest.length < text.length + 1 := by
  simp only [bracketed] at h
  split at h
  · simp at h
  · next p tail heq =>
      have hlen := (List.dropWhile_suffix (fun p : UInt8 × Bool => !p.1 == 0x5D)
        (l := text.drop 1)).length_le
      simp only [Option.some.injEq, Prod.mk.injEq] at h
      rw [heq] at hlen
      simp only [List.length_cons, List.length_drop] at hlen
      rw [← h.2]
      omega

/-- The pattern that bytes stand for; those that were quoted are marked. -/
def compile : List (UInt8 × Bool) → List Glob
  | [] => []
  | (b, true) :: rest => .literal b :: compile rest
  | (0x2A, false) :: rest => .many :: compile rest
  | (0x3F, false) :: rest => .one :: compile rest
  | (0x5B, false) :: rest =>
      let isNegated := match rest with
        | (0x21, false) :: _ => true
        | _ => false
      match _h : bracketed (if isNegated then rest.drop 1 else rest) with
      | some (inner, behind) => .oneOf isNegated (ranges inner) :: compile behind
      | none => .literal 0x5B :: compile rest
  | (b, false) :: rest => .literal b :: compile rest
termination_by text => text.length
decreasing_by
  all_goals try (simp only [List.length_cons]; omega)
  have hlen := bracketed_length _h
  split at hlen
  · simp only [List.length_drop] at hlen
    simp only [List.length_cons]
    omega
  · simp only [List.length_cons]
    omega

/-- Whether one byte fits a part that stands for one. -/
def fits (b : UInt8) : Glob → Bool
  | .literal c => b == c
  | .one => true
  | .many => false
  | .oneOf isNegated rs => rs.any (fun r => r.1 ≤ b && b ≤ r.2) != isNegated

/-- Whether a pattern matches a whole value. -/
def isMatch : List Glob → Bytes → Bool
  | [], value => value.isEmpty
  | .many :: rest, [] => isMatch rest []
  | .many :: rest, b :: value => isMatch rest (b :: value) || isMatch (.many :: rest) value
  | _ :: _, [] => false
  | g :: rest, b :: value => fits b g && isMatch rest value
termination_by pattern value => pattern.length + value.length

/-- A value without what a pattern matches at one of its ends, as little or as
much as possible. -/
def trim (pattern : List Glob) (atEnd greedy : Bool) (value : Bytes) : Bytes :=
  let sizes := List.range (value.length + 1)
  let sizes := if greedy then sizes.reverse else sizes
  let removed (n : Nat) : Bytes := if atEnd then value.drop (value.length - n) else value.take n
  match sizes.find? fun n => isMatch pattern (removed n) with
  | some n => if atEnd then value.take (value.length - n) else value.drop n
  | none => value

end Glob

end EditMining.Shell
