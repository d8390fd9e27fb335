import EditMining.Decimal.Natural

/-!
# Reading floating-point numbers

A number is written with digits, perhaps a point among, before or behind them,
perhaps a sign, and perhaps an exponent. It is read as the binary64 number that
is nearest to it; beyond the largest of these it is infinite.
-/

namespace EditMining.Decimal

/-- The parts of a number without its sign: all digits, how many of them stand
behind the point, and the power of ten. -/
structure RealText where
  figures : List Char
  places : Nat
  exponent : Int
  deriving DecidableEq, Repr

/-- A sign in front of a text, and the text behind it. -/
def takeSign : List Char → Bool × List Char
  | '-' :: text => (true, text)
  | '+' :: text => (false, text)
  | text => (false, text)

/-- An exponent that makes up the rest of a text. -/
def readExponent : List Char → Option Int
  | [] => some 0
  | mark :: text =>
      let (isNegative, ds) := takeSign text
      if (mark == 'e' || mark == 'E') && isNumeral ds then
        some (if isNegative then -(ofDigits ds : Int) else ofDigits ds)
      else none

/-- Read a number without a sign. -/
def readRealText (text : List Char) : Option RealText :=
  let whole := text.takeWhile (·.isDigit)
  let rest := text.dropWhile (·.isDigit)
  let (fraction, rest) := match rest with
    | '.' :: rest => (rest.takeWhile Char.isDigit, rest.dropWhile Char.isDigit)
    | rest => ([], rest)
  if whole.isEmpty && fraction.isEmpty then none
  else (readExponent rest).map fun e => ⟨whole ++ fraction, fraction.length, e⟩

/-- Powers of ten beyond which a number is zero or infinite. -/
def exponentBound : Int := 400

/-- The nearest binary64 number. -/
def RealText.value (t : RealText) : Float :=
  let n := ofDigits t.figures
  let e := t.exponent - t.places
  let size := e + (digits n).length
  if n == 0 || size < -exponentBound then 0.0
  else if exponentBound < size then 1.0 / 0.0
  else Float.ofScientific n (e < 0) e.natAbs

/-- Read a number that may carry a sign. -/
def readReal (text : List Char) : Option Float :=
  let (isNegative, text) := takeSign text
  (readRealText text).map fun t => if isNegative then -t.value else t.value

/-- Read a number, or one of the names of values that are no numbers. -/
def readRealOrName (text : List Char) : Option Float :=
  let (isNegative, name) := takeSign text
  let name := name.map Char.toLower
  if name == "inf".toList || name == "infinity".toList then
    some (if isNegative then -1.0 / 0.0 else 1.0 / 0.0)
  else if name == "nan".toList then some (0.0 / 0.0)
  else readReal text

end EditMining.Decimal
