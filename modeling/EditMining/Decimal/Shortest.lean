import EditMining.Arithmetic

/-!
# The shortest decimal that reads back

A binary64 number stands for all reals that round to it: an interval around its
exact value `m · 2^q`, whose ends belong to it exactly when `m` is even. Among
the decimals inside that interval the number is written with the fewest digits,
and of those with the one nearest to the exact value.

For each count of digits the candidates are the two neighbours of the exact
value on the decimal grid with that many digits; all comparisons are between
natural numbers.
-/

namespace EditMining.Decimal

/-- A positive binary number `significand · 2^exponent`. -/
structure Binary where
  significand : Nat
  exponent : Int
  /-- The gap below is half the gap above: the significand is the least of its
  binade. -/
  narrowBelow : Bool
  deriving DecidableEq, Repr

/-- The exact value of the magnitude of a finite binary64 number, by its bits. -/
def Binary.ofBits (bits : UInt64) : Binary :=
  let fraction := (bits &&& 0xFFFFFFFFFFFFF).toNat
  let biased := ((bits >>> 52) &&& 0x7FF).toNat
  if biased == 0 then ⟨fraction, -1074, false⟩
  else ⟨fraction + 2 ^ (52 : Nat), (biased : Int) - 1075, fraction == 0 && biased > 1⟩

/-- A positive decimal number `significand · 10^exponent`. -/
structure Scientific where
  significand : Nat
  exponent : Int
  deriving DecidableEq, Repr

/-- Four times a binary number and the ends of the interval that rounds to it,
as numerators over one common denominator. -/
structure Interval where
  low : Nat
  value : Nat
  high : Nat
  denominator : Nat
  closed : Bool

def Binary.interval (b : Binary) : Interval :=
  let scale := 2 ^ b.exponent.toNat
  { low := (4 * b.significand - if b.narrowBelow then 1 else 2) * scale
    value := 4 * b.significand * scale
    high := (4 * b.significand + 2) * scale
    denominator := 4 * 2 ^ (-b.exponent).toNat
    closed := b.significand % 2 == 0 }

/-- Whether `n · 10^k` lies in the interval. -/
def Interval.covers (i : Interval) (n : Nat) (k : Int) : Bool :=
  let point := n * 10 ^ k.toNat * i.denominator
  let unit := 10 ^ (-k).toNat
  if i.closed then i.low * unit ≤ point && point ≤ i.high * unit
  else i.low * unit < point && point < i.high * unit

/-- The exponent of the leading decimal digit of `numerator / denominator`. -/
def leadingExponent (numerator denominator : Nat) : Int :=
  if denominator ≤ numerator then
    ((Nat.toDigits 10 (numerator / denominator)).length : Int) - 1
  else
    let places := (Nat.toDigits 10 (denominator / numerator)).length
    if denominator ≤ numerator * 10 ^ (places - 1) then -((places : Int) - 1) else -(places : Int)

/-- The best point of the grid `10^k` inside the interval, if one of the two
neighbours of the exact value is inside. -/
def Interval.gridPoint (i : Interval) (k : Int) : Option Nat :=
  let numerator := i.value * 10 ^ (-k).toNat
  let denominator := i.denominator * 10 ^ k.toNat
  let below := numerator / denominator
  let rest := numerator % denominator
  match i.covers below k && below != 0, i.covers (below + 1) k with
  | true, true =>
      if 2 * rest < denominator || (2 * rest == denominator && below % 2 == 0) then some below
      else some (below + 1)
  | true, false => some below
  | false, true => some (below + 1)
  | false, false => none

/-- The first grid, from `10^k` on to finer ones, that has a point inside. -/
def Interval.firstGridPoint (i : Interval) : (grids : Nat) → (k : Int) → Scientific
  | 0, k => ⟨i.value * 10 ^ (-k).toNat / (i.denominator * 10 ^ k.toNat), k⟩
  | grids + 1, k =>
      match i.gridPoint k with
      | some n => ⟨n, k⟩
      | none => i.firstGridPoint grids (k - 1)

/-- The shortest decimal that rounds to a positive binary number: seventeen
digits always suffice. -/
def Binary.shortest (b : Binary) : Scientific :=
  let i := b.interval
  i.firstGridPoint 17 (leadingExponent i.value i.denominator)

end EditMining.Decimal
