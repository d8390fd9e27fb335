/-!
# Natural numbers in decimal

Numbers are written with decimal digits and no leading zero. They are read back
from one or more digits, leading zeros allowed, as long as they fit the 64-bit
words in which counts and offsets are kept.
-/

namespace EditMining.Decimal

/-- One more than the largest count or offset. -/
def wordLimit : Nat := 18446744073709551616

/-- The decimal digits of a number. -/
def digits (n : Nat) : List Char :=
  Nat.toDigits 10 n

/-- Whether a text is made of one or more decimal digits. -/
def isNumeral (text : List Char) : Bool :=
  !text.isEmpty && text.all (·.isDigit)

/-- The number that decimal digits stand for. -/
def ofDigits (text : List Char) : Nat :=
  Nat.ofDigitChars 10 text 0

/-- Read digits and nothing else, as a number below the word limit. -/
def readNumeral (text : List Char) : Option Nat :=
  if isNumeral text && ofDigits text < wordLimit then some (ofDigits text) else none

/-- Read a number below the word limit that may carry a plus sign. -/
def readUnsigned : List Char → Option Nat
  | '+' :: text => readNumeral text
  | text => readNumeral text

theorem ofDigits_digits (n : Nat) : ofDigits (digits n) = n :=
  Nat.ofDigitChars_toDigits (by decide) (by decide)

theorem digits_inj {m n : Nat} : digits m = digits n ↔ m = n := by
  refine ⟨fun h => ?_, congrArg digits⟩
  rw [← ofDigits_digits m, h, ofDigits_digits]

end EditMining.Decimal
