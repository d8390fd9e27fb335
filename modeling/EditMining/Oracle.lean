import EditMining.Hunk
import EditMining.Language
import EditMining.Structure.Diff

/-!
# Oracles

An oracle is asked for the structural diff of a hunk, given the language its
lines are written in. It may fail, and it may remember what it was asked: `σ` is
the type of its memory, so what is proved for all oracles holds whatever they
make of earlier questions. An oracle whose answer depends on the question alone
is made by `Oracle.ofFunction`; it remembers how often it was asked.

Work that asks an oracle is a `Session`. A failure ends it, but not what the
oracle has learned by then.
-/

namespace EditMining

/-- Work that may ask an oracle with memory `σ`, and may fail. -/
abbrev Session (σ : Type) := ExceptT Error (StateM σ)

/-- What answers questions about hunks. -/
structure Oracle (σ : Type) where
  answer : Language → Hunk → σ → Result StructuralDiff × σ

namespace Oracle

variable {σ : Type}

/-- Ask for the structural diff of a hunk. -/
def ask (o : Oracle σ) (l : Language) (h : Hunk) : Session σ StructuralDiff :=
  ExceptT.mk fun memory => o.answer l h memory

/-- An oracle that answers the same question always alike, and counts the
questions. -/
def ofFunction (f : Language → Hunk → Result StructuralDiff) : Oracle Nat where
  answer l h calls := (f l h, calls + 1)

end Oracle

end EditMining
