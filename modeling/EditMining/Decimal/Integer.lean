import EditMining.Error

/-!
# Integers of 32 bits

An integer is read from decimal digits with an optional sign. Reading goes from
the left and stops at the first thing that is wrong, be it a character that is
no digit or a digit that takes the value out of range.
-/

namespace EditMining.Decimal

/-- Why a text is no integer. -/
inductive IntegerFault where
  | empty
  | invalidDigit
  | tooLarge
  | tooSmall
  deriving DecidableEq, Inhabited, Repr

def IntegerFault.message : IntegerFault → String
  | .empty => "cannot parse integer from empty string"
  | .invalidDigit => "invalid digit found in string"
  | .tooLarge => "number too large to fit in target type"
  | .tooSmall => "number too small to fit in target type"

/-- The magnitude that digits add to `n`, as long as it does not exceed a
limit. -/
def readMagnitude (limit : Nat) (beyond : IntegerFault) (n : Nat) :
    List Char → Except IntegerFault Nat
  | [] => .ok n
  | c :: rest =>
      if !c.isDigit then .error .invalidDigit
      else
        let n := n * 10 + (c.toNat - '0'.toNat)
        if limit < n then .error beyond else readMagnitude limit beyond n rest

/-- Read an integer from -2^31 to 2^31 - 1. -/
def readInteger : List Char → Except IntegerFault Int
  | [] => .error .empty
  | ['+'] | ['-'] => .error .invalidDigit
  | '-' :: text => (readMagnitude 2147483648 .tooSmall 0 text).map fun n => -(n : Int)
  | '+' :: text => (readMagnitude 2147483647 .tooLarge 0 text).map Int.ofNat
  | text => (readMagnitude 2147483647 .tooLarge 0 text).map Int.ofNat

end EditMining.Decimal

namespace EditMining.Error

/-- A text that should have been an integer. -/
def invalidInteger (fault : Decimal.IntegerFault) : Error :=
  .validation ("Invalid integer: " ++ fault.message) none none none

end EditMining.Error
