import EditMining.Decimal.Shortest

/-!
# How decimals are laid out

The digits of a floating-point number are its shortest decimal; a `Layout` says
how they are set: up to which size positionally, whether a whole number keeps a
fractional part, how the exponent is marked, and how values that are no numbers
are spelled.
-/

namespace EditMining.Decimal

structure Layout where
  /-- The leading digits from `10^least` to `10^most` are written positionally;
  without bounds all are. -/
  positional : Option (Int × Int)
  /-- A whole number ends in `.0`. -/
  keepsFraction : Bool
  /-- An exponent that is not negative has a plus sign. -/
  plusSign : Bool
  notANumber : String
  infinity : String
  negativeInfinity : String

/-- Floating-point numbers in JSON; what is no number is written as null. -/
def Layout.json : Layout := ⟨some (-5, 15), true, true, "null", "null", "null"⟩

/-- Floating-point numbers in YAML. -/
def Layout.yaml : Layout := ⟨some (-5, 15), true, false, ".nan", ".inf", "-.inf"⟩

/-- Floating-point numbers in messages: never an exponent, no needless point. -/
def Layout.plain : Layout := ⟨none, false, false, "NaN", "inf", "-inf"⟩

/-- The digits without trailing zeros. -/
def trimZeros (ds : List Char) : List Char :=
  (ds.reverse.dropWhile (· == '0')).reverse

/-- Digits `ds` whose first one stands for `10^lead`, written positionally. -/
def Layout.positionalText (layout : Layout) (ds : List Char) (lead : Int) : List Char :=
  if lead < 0 then
    '0' :: '.' :: List.replicate (-lead - 1).toNat '0' ++ ds
  else
    let whole := lead.toNat + 1
    if ds.length ≤ whole then
      ds ++ List.replicate (whole - ds.length) '0' ++ if layout.keepsFraction then ['.', '0'] else []
    else ds.take whole ++ '.' :: ds.drop whole

/-- Digits `ds` whose first one stands for `10^lead`, written with an exponent. -/
def Layout.exponentText (layout : Layout) (ds : List Char) (lead : Int) : List Char :=
  let mantissa := match ds with
    | [] => []
    | [d] => [d]
    | d :: rest => d :: '.' :: rest
  let sign := if lead < 0 then ['-'] else if layout.plusSign then ['+'] else []
  mantissa ++ 'e' :: sign ++ Nat.toDigits 10 lead.natAbs

/-- The text of a magnitude given by its bits. -/
def Layout.magnitudeText (layout : Layout) (bits : UInt64) : List Char :=
  let b := Binary.ofBits bits
  if b.significand == 0 then '0' :: if layout.keepsFraction then ['.', '0'] else []
  else
    let s := b.shortest
    let all := Nat.toDigits 10 s.significand
    let lead := s.exponent + (all.length : Int) - 1
    let ds := trimZeros all
    match layout.positional with
    | none => layout.positionalText ds lead
    | some (least, most) =>
        if least ≤ lead && lead ≤ most then layout.positionalText ds lead
        else layout.exponentText ds lead

/-- The text of a floating-point number. -/
def Layout.text (layout : Layout) (x : Float) : String :=
  if x.isNaN then layout.notANumber
  else
    let bits := x.toBits
    let negative := bits >>> 63 == 1
    let magnitude := bits &&& 0x7FFFFFFFFFFFFFFF
    if x.isInf then
      if negative then layout.negativeInfinity else layout.infinity
    else
      let digits := layout.magnitudeText magnitude
      String.ofList (if negative then '-' :: digits else digits)

end EditMining.Decimal
