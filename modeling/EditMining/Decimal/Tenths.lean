import EditMining.Decimal.Shortest

/-!
# One place behind the point

A number is rounded to tenths by its exact value; a half goes to the even
neighbour.
-/

namespace EditMining.Decimal

/-- The quotient nearest to `n / d`, of two equally near ones the even one. -/
def roundQuotient (n d : Nat) : Nat :=
  let q := n / d
  let twice := 2 * (n % d)
  if twice < d then q
  else if d < twice then q + 1
  else if q % 2 = 0 then q
  else q + 1

/-- Ten times the magnitude of a number, rounded. -/
def tenths (x : Float) : Nat :=
  let b := Binary.ofBits (x.toBits &&& 0x7FFFFFFFFFFFFFFF)
  roundQuotient (10 * b.significand * 2 ^ b.exponent.toNat) (2 ^ (-b.exponent).toNat)

/-- A finite number that is not negative, with one place behind the point. -/
def tenthsText (x : Float) : String :=
  let n := tenths x
  (n / 10).repr ++ "." ++ (n % 10).repr

end EditMining.Decimal
