import EditMining.Json.Basic
import EditMining.Decimal.Natural

/-!
# The lexemes of a JSON text

A JSON text is a sequence of lexemes: punctuation, names, numbers and strings,
with white space between them. `lexemes` cuts a text into them and fails on a
character that begins none.

A number is read in two steps. Its digits are gathered into a significand as
long as that fits a 64-bit word; whole digits that no longer fit raise the
exponent, and digits of the fraction that no longer fit are passed over. The
significand is then scaled by a power of ten in floating-point arithmetic.
-/

namespace EditMining.Json

/-- A unit of JSON text. -/
inductive Lexeme where
  | openBracket
  | closeBracket
  | openBrace
  | closeBrace
  | comma
  | colon
  /-- A string, without a value when its escapes make no text. -/
  | string (s : Option String)
  /-- A number or one of the names. -/
  | scalar (v : Json)
  deriving Inhabited

/-- The significand of some digits: those that fit a word, and how many were
left over. -/
def significand (start : Nat) : List Char → Nat × Nat
  | [] => (start, 0)
  | c :: rest =>
      let next := start * 10 + (c.toNat - '0'.toNat)
      if next < Decimal.wordLimit then significand next rest else (start, rest.length + 1)

/-- A power of ten as a floating-point number. -/
def powerOfTen (k : Nat) : Float :=
  Float.ofScientific 1 false k

/-- Divide by a power of ten, at most 10^308 at a time. -/
def scaleDown (x : Float) (k : Nat) : Float :=
  if k ≤ 308 then x / powerOfTen k
  else if x == 0.0 then x
  else scaleDown (x / powerOfTen 308) (k - 308)
termination_by k

/-- A significand scaled by a power of ten, if the result is finite. -/
def scale (n : Nat) (exponent : Int) : Option Float :=
  let x := n.toUInt64.toFloat
  if exponent < 0 then some (scaleDown x (-exponent).toNat)
  else if 308 < exponent then if x == 0.0 then some x else none
  else
    let y := x * powerOfTen exponent.toNat
    if y.isInf then none else some y

/-- The parts of a number literal. -/
structure NumberText where
  isNegative : Bool
  whole : List Char
  fraction : Option (List Char)
  /-- The sign and the digits of the exponent. -/
  exponent : Option (Bool × List Char)

/-- The number that a literal with a fraction or an exponent, or with more
digits than a word holds, stands for. -/
def NumberText.real (t : NumberText) : Json :=
  let (n, beyond) := significand 0 t.whole
  let (n, exponent) : Nat × Int := match t.fraction with
    | none => (n, beyond)
    | some ds =>
        let (m, unused) := significand n ds
        (m, (beyond : Int) - (ds.length - unused : Nat))
  let exponent := match t.exponent with
    | none => exponent
    | some (isNegative, ds) =>
        let k : Int := Decimal.ofDigits ds
        if isNegative then exponent - k else exponent + k
  match scale n exponent with
  | none => .unreadable
  | some x => .real (if t.isNegative then -x else x)

/-- The value of a number literal. -/
def NumberText.value (t : NumberText) : Json :=
  let n := Decimal.ofDigits t.whole
  if t.fraction.isSome || t.exponent.isSome || Decimal.wordLimit ≤ n then t.real
  else if !t.isNegative then .natural n
  else if n == 0 || 9223372036854775808 < n then .real (-n.toUInt64.toFloat)
  else .negative (-(n : Int))

/-- One or more digits, and what follows them. -/
def takeDigits (text : List Char) : Option (List Char × List Char) :=
  match text.takeWhile (·.isDigit) with
  | [] => none
  | ds => some (ds, text.dropWhile (·.isDigit))

/-- The whole part of a number: a zero stands alone. -/
def takeWhole (text : List Char) : Option (List Char × List Char) :=
  (takeDigits text).bind fun (ds, rest) =>
    if ds.head? == some '0' && ds.length != 1 then none else some (ds, rest)

def takeFraction : List Char → Option (Option (List Char) × List Char)
  | '.' :: rest => (takeDigits rest).map fun (ds, rest) => (some ds, rest)
  | text => some (none, text)

def takeExponent : List Char → Option (Option (Bool × List Char) × List Char)
  | 'e' :: rest | 'E' :: rest =>
      match rest with
      | '-' :: rest => (takeDigits rest).map fun (ds, rest) => (some (true, ds), rest)
      | '+' :: rest => (takeDigits rest).map fun (ds, rest) => (some (false, ds), rest)
      | _ => (takeDigits rest).map fun (ds, rest) => (some (false, ds), rest)
  | text => some (none, text)

/-- A number at the start of a text. -/
def takeNumber (text : List Char) : Option (Json × List Char) := do
  let (isNegative, text) := match text with
    | '-' :: rest => (true, rest)
    | _ => (false, text)
  let (whole, text) ← takeWhole text
  let (fraction, text) ← takeFraction text
  let (exponent, text) ← takeExponent text
  some (NumberText.value ⟨isNegative, whole, fraction, exponent⟩, text)

/-- A character of a string, or an escaped 16-bit unit. -/
inductive StringUnit where
  | char (c : Char)
  | unit (n : Nat)

/-- The value of a digit in base sixteen. -/
def hexValue (c : Char) : Option Nat :=
  if '0' ≤ c && c ≤ '9' then some (c.toNat - '0'.toNat)
  else if 'a' ≤ c && c ≤ 'f' then some (c.toNat - 'a'.toNat + 10)
  else if 'A' ≤ c && c ≤ 'F' then some (c.toNat - 'A'.toNat + 10)
  else none

/-- The 16-bit unit written with four digits. -/
def hexUnit (a b c d : Char) : Option Nat := do
  some ((((← hexValue a) * 16 + (← hexValue b)) * 16 + (← hexValue c)) * 16 + (← hexValue d))

/-- The character that a backslash and a letter stand for. -/
def escapedChar : Char → Option Char
  | '"' => some '"'
  | '\\' => some '\\'
  | '/' => some '/'
  | 'b' => some '\x08'
  | 'f' => some '\x0c'
  | 'n' => some '\n'
  | 'r' => some '\r'
  | 't' => some '\t'
  | _ => none

/-- The units of a string up to its closing quote, and what follows it. Control
characters have to be escaped. -/
def takeUnits : List Char → Option (List StringUnit × List Char)
  | [] => none
  | '"' :: rest => some ([], rest)
  | '\\' :: 'u' :: a :: b :: c :: d :: rest => do
      let n ← hexUnit a b c d
      let (units, rest) ← takeUnits rest
      some (.unit n :: units, rest)
  | '\\' :: e :: rest => do
      let c ← escapedChar e
      let (units, rest) ← takeUnits rest
      some (.char c :: units, rest)
  | c :: rest =>
      if c.toNat < 0x20 || c == '\\' then none
      else do
        let (units, rest) ← takeUnits rest
        some (.char c :: units, rest)

/-- The text of some units: the two halves of a surrogate pair make one
character, and a half alone makes none. -/
def unitsText : List StringUnit → Option (List Char)
  | [] => some []
  | .char c :: rest => (unitsText rest).map (c :: ·)
  | .unit high :: .unit low :: rest =>
      if 0xD800 ≤ high && high < 0xDC00 then
        if 0xDC00 ≤ low && low < 0xE000 then
          (unitsText rest).map (Char.ofNat (0x10000 + (high - 0xD800) * 0x400 + (low - 0xDC00)) :: ·)
        else none
      else if 0xDC00 ≤ high && high < 0xE000 then none
      else (unitsText (.unit low :: rest)).map (Char.ofNat high :: ·)
  | .unit n :: rest =>
      if 0xD800 ≤ n && n < 0xE000 then none else (unitsText rest).map (Char.ofNat n :: ·)

/-- A string behind its opening quote. -/
def takeString (text : List Char) : Option (Lexeme × List Char) :=
  (takeUnits text).map fun (units, rest) => (.string ((unitsText units).map String.ofList), rest)

/-- A literal at the start of a text. -/
def takeLiteral : List Char → Option (Lexeme × List Char)
  | 'n' :: 'u' :: 'l' :: 'l' :: rest => some (.scalar .null, rest)
  | 't' :: 'r' :: 'u' :: 'e' :: rest => some (.scalar (.bool true), rest)
  | 'f' :: 'a' :: 'l' :: 's' :: 'e' :: rest => some (.scalar (.bool false), rest)
  | '"' :: rest => takeString rest
  | text => (takeNumber text).map fun (v, rest) => (.scalar v, rest)

/-- White space between lexemes. -/
def isSpace (c : Char) : Bool :=
  c == ' ' || c == '\n' || c == '\r' || c == '\t'

/-- The punctuation a character stands for. -/
def punctuation : Char → Option Lexeme
  | '[' => some .openBracket
  | ']' => some .closeBracket
  | '\x7b' => some .openBrace
  | '\x7d' => some .closeBrace
  | ',' => some .comma
  | ':' => some .colon
  | _ => none

theorem takeDigits_length {text ds rest : List Char} (h : takeDigits text = some (ds, rest)) :
    rest.length < text.length := by
  unfold takeDigits at h
  split at h
  · simp at h
  · next hne =>
      simp only [Option.some.injEq, Prod.mk.injEq] at h
      have := congrArg List.length
        (@List.takeWhile_append_dropWhile _ (fun c : Char => c.isDigit) text)
      rw [List.length_append] at this
      have pos : 0 < (text.takeWhile (·.isDigit)).length := List.length_pos_iff.2 hne
      rw [← h.2]
      omega

theorem takeWhole_length {text ds rest : List Char} (h : takeWhole text = some (ds, rest)) :
    rest.length < text.length := by
  unfold takeWhole at h
  obtain ⟨⟨ds', rest'⟩, hd, h⟩ := Option.bind_eq_some_iff.1 h
  have := takeDigits_length hd
  simp only at h
  split at h
  · simp at h
  · simp only [Option.some.injEq, Prod.mk.injEq] at h
    rw [← h.2]
    exact this

theorem takeFraction_length {text rest : List Char} {f : Option (List Char)}
    (h : takeFraction text = some (f, rest)) : rest.length ≤ text.length := by
  unfold takeFraction at h
  split at h
  · obtain ⟨⟨ds, rest'⟩, hd, h⟩ := Option.map_eq_some_iff.1 h
    have := takeDigits_length hd
    simp only [Prod.mk.injEq] at h
    rw [← h.2, List.length_cons]
    omega
  · simp only [Option.some.injEq, Prod.mk.injEq] at h
    exact Nat.le_of_eq (congrArg List.length h.2.symm)

theorem takeExponent_length {text rest : List Char} {e : Option (Bool × List Char)}
    (h : takeExponent text = some (e, rest)) : rest.length ≤ text.length := by
  unfold takeExponent at h
  split at h
  all_goals first
    | (simp only [Option.some.injEq, Prod.mk.injEq] at h
       exact Nat.le_of_eq (congrArg List.length h.2.symm))
    | (split at h
       all_goals
         obtain ⟨⟨ds, rest'⟩, hd, h⟩ := Option.map_eq_some_iff.1 h
         have := takeDigits_length hd
         simp only [Prod.mk.injEq] at h
         rw [← h.2]
         simp only [List.length_cons] at *
         omega)

theorem takeNumber_length {text rest : List Char} {v : Json}
    (h : takeNumber text = some (v, rest)) : rest.length < text.length := by
  unfold takeNumber at h
  simp only [bind] at h
  split at h
  all_goals
    obtain ⟨⟨ds, rest₁⟩, h₁, h⟩ := Option.bind_eq_some_iff.1 h
    obtain ⟨⟨f, rest₂⟩, h₂, h⟩ := Option.bind_eq_some_iff.1 h
    obtain ⟨⟨e, rest₃⟩, h₃, h⟩ := Option.bind_eq_some_iff.1 h
    have := takeWhole_length h₁
    have := takeFraction_length h₂
    have := takeExponent_length h₃
    simp only [Option.some.injEq, Prod.mk.injEq] at h
    rw [← h.2]
    simp only [List.length_cons] at *
    omega

theorem takeUnits_length {text rest : List Char} {units : List StringUnit}
    (h : takeUnits text = some (units, rest)) : rest.length < text.length := by
  fun_induction takeUnits text generalizing units rest with
  | case1 => simp at h
  | case2 => simp_all
  | case3 a b c d rest' ih =>
      simp only [bind] at h
      obtain ⟨n, _, h⟩ := Option.bind_eq_some_iff.1 h
      obtain ⟨⟨us, r⟩, hu, h⟩ := Option.bind_eq_some_iff.1 h
      simp only [Option.some.injEq, Prod.mk.injEq] at h
      have := ih hu
      rw [← h.2]
      simp only [List.length_cons]
      omega
  | case4 e rest' _ ih =>
      simp only [bind] at h
      obtain ⟨n, _, h⟩ := Option.bind_eq_some_iff.1 h
      obtain ⟨⟨us, r⟩, hu, h⟩ := Option.bind_eq_some_iff.1 h
      simp only [Option.some.injEq, Prod.mk.injEq] at h
      have := ih hu
      rw [← h.2]
      simp only [List.length_cons]
      omega
  | case5 => simp at h
  | case6 c rest' _ _ _ _ ih =>
      simp only [bind] at h
      obtain ⟨⟨us, r⟩, hu, h⟩ := Option.bind_eq_some_iff.1 h
      simp only [Option.some.injEq, Prod.mk.injEq] at h
      have := ih hu
      rw [← h.2]
      simp only [List.length_cons]
      omega

theorem takeLiteral_length {text rest : List Char} {v : Lexeme}
    (h : takeLiteral text = some (v, rest)) : rest.length < text.length := by
  unfold takeLiteral at h
  split at h
  · simp only [Option.some.injEq, Prod.mk.injEq] at h; rw [← h.2]; simp only [List.length_cons]; omega
  · simp only [Option.some.injEq, Prod.mk.injEq] at h; rw [← h.2]; simp only [List.length_cons]; omega
  · simp only [Option.some.injEq, Prod.mk.injEq] at h; rw [← h.2]; simp only [List.length_cons]; omega
  · unfold takeString at h
    obtain ⟨⟨us, r⟩, hu, h⟩ := Option.map_eq_some_iff.1 h
    have := takeUnits_length hu
    simp only [Prod.mk.injEq] at h
    rw [← h.2, List.length_cons]
    omega
  · obtain ⟨⟨n, r⟩, hn, h⟩ := Option.map_eq_some_iff.1 h
    have := takeNumber_length hn
    simp only [Prod.mk.injEq] at h
    rw [← h.2]
    exact this

/-- The lexemes of a text, white space between them dropped. -/
def lexemes (text : List Char) : Option (List Lexeme) :=
  match text with
  | [] => some []
  | c :: rest =>
      if isSpace c then lexemes rest
      else
        match punctuation c with
        | some mark => (lexemes rest).map (mark :: ·)
        | none =>
            match _h : takeLiteral (c :: rest) with
            | none => none
            | some (literal, behind) => (lexemes behind).map (literal :: ·)
termination_by text.length
decreasing_by
  · simp
  · simp
  · exact takeLiteral_length _h

end EditMining.Json
