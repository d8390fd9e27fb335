import EditMining.Shell.Syntax

/-!
# Formatted output

A format is copied to the output; backslashes introduce escapes, and percent
signs directives, each of which takes an argument. A format that takes arguments
is used again as long as there are some left. Bytes are handled as the characters
of the same numbers.
-/

namespace EditMining.Shell

/-- Bytes as the characters of the same numbers. -/
def toChars (bytes : Bytes) : List Char :=
  bytes.map fun b => Char.ofNat b.toNat

/-- The bytes of characters with numbers below 256. -/
def ofChars (chars : List Char) : Bytes :=
  chars.map fun c => c.toNat.toUInt8

namespace Format

def isOctal (c : Char) : Bool :=
  '0' ≤ c && c ≤ '7'

/-- At most three octal digits as a character, and how many there are. -/
def octal (text : List Char) : Char × Nat :=
  let ds := (text.take 3).takeWhile isOctal
  (Char.ofNat (Nat.ofDigitChars 8 ds 0 % 256), ds.length)

/-- What a backslash in front of a text stands for, and how many characters of
the text belong to it. A backslash that introduces nothing stands for itself. -/
def escape (text : List Char) : Char × Nat :=
  match text with
  | '\\' :: _ => ('\\', 1)
  | 'a' :: _ => ('\x07', 1)
  | 'b' :: _ => ('\x08', 1)
  | 'f' :: _ => ('\x0c', 1)
  | 'n' :: _ => ('\n', 1)
  | 'r' :: _ => ('\r', 1)
  | 't' :: _ => ('\t', 1)
  | 'v' :: _ => ('\x0b', 1)
  | c :: _ => if isOctal c then octal text else ('\\', 0)
  | [] => ('\\', 0)

/-- A text with all its escapes resolved, and whether output goes on behind
it. -/
def unescape : List Char → List Char × Bool
  | [] => ([], true)
  | '\\' :: 'c' :: _ => ([], false)
  | '\\' :: '0' :: rest =>
      let (c, n) := octal rest
      let (more, goesOn) := unescape (rest.drop n)
      (c :: more, goesOn)
  | '\\' :: rest =>
      let (c, n) := escape rest
      let (more, goesOn) := unescape (rest.drop n)
      (c :: more, goesOn)
  | c :: rest =>
      let (more, goesOn) := unescape rest
      (c :: more, goesOn)
termination_by text => text.length
decreasing_by
  all_goals
    simp only [List.length_drop, List.length_cons]
    omega

/-- What a format gives: the output, the complaints, the arguments it left over
and whether output goes on. -/
structure Printed where
  out : List Char
  complaints : List String
  arguments : List Bytes
  goesOn : Bool

def Printed.after (chars : List Char) (p : Printed) : Printed :=
  { p with out := chars ++ p.out }

/-- How a value is set. -/
structure Directive where
  flags : List Char
  width : Nat
  precision : Option Nat

/-- A value filled up to the width of its directive. -/
def Directive.pad (d : Directive) (isNumber : Bool) (value : List Char) : List Char :=
  let missing := d.width - value.length
  if d.flags.contains '-' then value ++ List.replicate missing ' '
  else if isNumber && d.flags.contains '0' && d.precision.isNone then
    match value with
    | '-' :: ds => '-' :: List.replicate missing '0' ++ ds
    | ds => List.replicate missing '0' ++ ds
  else List.replicate missing ' ' ++ value

/-- Digits in some base behind an optional sign. -/
def readInteger (text : List Char) : Option Int :=
  let (isNegative, ds) := match text with
    | '-' :: ds => (true, ds)
    | '+' :: ds => (false, ds)
    | ds => (false, ds)
  let magnitude : Option Nat := match ds with
    | '0' :: 'x' :: hex =>
        if !hex.isEmpty && hex.all fun c => c.isDigit || ('a' ≤ c.toLower && c.toLower ≤ 'f') then
          some (hex.foldl (fun n c =>
            n * 16 + if c.isDigit then c.toNat - 48 else c.toLower.toNat - 87) 0)
        else none
    | '0' :: rest => if rest.all isOctal then some (Nat.ofDigitChars 8 rest 0) else none
    | _ => if !ds.isEmpty && ds.all Char.isDigit then some (Nat.ofDigitChars 10 ds 0) else none
  magnitude.map fun n => if isNegative then -(n : Int) else n

/-- The integer that an argument stands for; without one it is zero, and behind a
quote it is the number of a character. -/
def integerOf (argument : Option Bytes) : Int × List String :=
  match argument.map toChars with
  | none | some [] => (0, [])
  | some ('\'' :: c :: _) | some ('"' :: c :: _) => (c.toNat, [])
  | some text =>
      match readInteger text with
      | some n => (n, [])
      | none => (0, [String.ofList text ++ ": expected numeric value"])

/-- An integer in the base of a directive; those that have no sign wrap. -/
def digitsOf (conversion : Char) (n : Int) : List Char :=
  let unsigned := (n % 18446744073709551616).toNat
  match conversion with
  | 'u' => Nat.toDigits 10 unsigned
  | 'o' => Nat.toDigits 8 unsigned
  | 'x' => Nat.toDigits 16 unsigned
  | 'X' => (Nat.toDigits 16 unsigned).map Char.toUpper
  | _ => if n < 0 then '-' :: Nat.toDigits 10 n.natAbs else Nat.toDigits 10 n.natAbs

/-- One use of a format; `n` bounds its length. -/
def once : Nat → List Char → List Bytes → Printed
  | 0, _, arguments => ⟨[], [], arguments, true⟩
  | _ + 1, [], arguments => ⟨[], [], arguments, true⟩
  | n + 1, '\\' :: rest, arguments =>
      let (c, k) := escape rest
      (once n (rest.drop k) arguments).after [c]
  | n + 1, '%' :: '%' :: rest, arguments => (once n rest arguments).after ['%']
  | n + 1, '%' :: rest, arguments =>
      let flags := rest.takeWhile "-+ #0".toList.contains
      let rest := rest.drop flags.length
      let width := rest.takeWhile Char.isDigit
      let rest := rest.drop width.length
      let (precision, rest) := match rest with
        | '.' :: rest =>
            let ds := rest.takeWhile Char.isDigit
            (some (Nat.ofDigitChars 10 ds 0), rest.drop ds.length)
        | rest => (none, rest)
      let d : Directive := ⟨flags, Nat.ofDigitChars 10 width 0, precision⟩
      let argument := arguments.head?
      let text := (argument.map toChars).getD []
      let cut (chars : List Char) : List Char := match precision with
        | some p => chars.take p
        | none => chars
      match rest with
      | 's' :: rest => (once n rest arguments.tail).after (d.pad false (cut text))
      | 'c' :: rest => (once n rest arguments.tail).after (d.pad false (text.take 1))
      | 'b' :: rest =>
          let (chars, goesOn) := unescape text
          if goesOn then (once n rest arguments.tail).after (d.pad false (cut chars))
          else ⟨d.pad false (cut chars), [], [], false⟩
      | c :: rest =>
          if "diuoxX".toList.contains c then
            let (value, complaints) := integerOf argument
            let p := once n rest arguments.tail
            { p with
              out := d.pad true (digitsOf c value) ++ p.out
              complaints := complaints ++ p.complaints }
          else ⟨[], ["%" ++ String.ofList [c] ++ ": invalid directive"], [], false⟩
      | [] => ⟨[], ["%: missing format character"], [], false⟩
  | n + 1, c :: rest, arguments => (once n rest arguments).after [c]

/-- All uses of a format; every one but the last takes some of the arguments. -/
def again (format : List Char) : Nat → List Bytes → Printed
  | 0, arguments => ⟨[], [], arguments, true⟩
  | n + 1, arguments =>
      let p := once (format.length + 1) format arguments
      if p.goesOn && !p.arguments.isEmpty && p.arguments.length < arguments.length then
        let more := again format n p.arguments
        { more with out := p.out ++ more.out, complaints := p.complaints ++ more.complaints }
      else p

/-- The output for a format and its arguments, and the complaints. -/
def print (format : Bytes) (arguments : List Bytes) : Bytes × List String :=
  let p := again (toChars format) (arguments.length + 1) arguments
  (ofChars p.out, p.complaints)

/-- What echoing some arguments gives. Escapes in them are resolved, and a first
argument of the form -n leaves out the line break. -/
def echo (arguments : List Bytes) : Bytes :=
  let (breaks, arguments) := match arguments with
    | [0x2D, 0x6E] :: rest => (false, rest)
    | all => (true, all)
  let (chars, goesOn) := unescape (toChars (List.intercalate [0x20] arguments))
  ofChars (if breaks && goesOn then chars ++ ['\n'] else chars)

end Format

end EditMining.Shell
