import EditMining.Alignment

/-!
# Edit scripts

An edit script turns the left of two aligned sequences into the right one. Its
operations go through both from start to end: where a block of the alignment
lies the two are equal, and between blocks something is replaced, deleted or
inserted.
-/

namespace EditMining.Alignment

inductive Operation where
  | equal
  | replace
  | delete
  | insert
  deriving DecidableEq, Inhabited, Repr

/-- One operation and the positions it covers on both sides. -/
structure Opcode where
  operation : Operation
  leftStart : Nat
  leftStop : Nat
  rightStart : Nat
  rightStop : Nat
  deriving DecidableEq, Inhabited, Repr

/-- What happens between two positions and the starts of the next block; nothing
where it starts at once. -/
def gapOpcode (left right leftStop rightStop : Nat) : List Opcode :=
  if left < leftStop then
    if right < rightStop then [⟨.replace, left, leftStop, right, rightStop⟩]
    else [⟨.delete, left, leftStop, right, rightStop⟩]
  else if right < rightStop then [⟨.insert, left, leftStop, right, rightStop⟩]
  else []

/-- The operation that a block stands for. -/
def blockOpcode (b : Block) : List Opcode :=
  if b.size = 0 then []
  else [⟨.equal, b.left, b.left + b.size, b.right, b.right + b.size⟩]

/-- The operations from two positions on, block by block, up to the ends of both
sequences. -/
def scriptFrom (leftEnd rightEnd : Nat) : (left right : Nat) → List Block → List Opcode
  | left, right, [] => gapOpcode left right leftEnd rightEnd
  | left, right, b :: rest =>
      gapOpcode left right b.left b.right ++ blockOpcode b
        ++ scriptFrom leftEnd rightEnd (b.left + b.size) (b.right + b.size) rest

/-- The edit script of some blocks. -/
def scriptOf (leftEnd rightEnd : Nat) (bs : List Block) : List Opcode :=
  scriptFrom leftEnd rightEnd 0 0 bs

variable {α : Type} [DecidableEq α]

/-- The edit script that turns one sequence into another. -/
def opcodes (xs ys : List α) : List Opcode :=
  scriptOf xs.length ys.length (matchingBlocks xs ys)

end EditMining.Alignment
