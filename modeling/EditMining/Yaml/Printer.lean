import EditMining.Configuration.Yaml
import EditMining.Decimal.Layout

/-!
# Writing YAML

A document is written in blocks: the members of a mapping each on a line of its
own, those of an inner mapping indented by two blanks, and the items of a
sequence as far to the left as the key it belongs to.

A text stands plainly where it can be read back as the same text. Texts that
would read as something else, or whose characters mean something in their place,
stand between single quotes; those with characters that do not show, between
double quotes; and those of several lines as a block.
-/

namespace EditMining.Yaml

/-- Whether digits with the mark of a base make up a number; negative ones reach
half as far. -/
def isBasedInteger (text : List Char) : Bool :=
  let (isNegative, ds) := Decimal.takeSign text
  let fits (base : Nat) (ds : List Char) : Bool :=
    !ds.isEmpty
      && (ds.mapM (digitValue? base)).any fun values =>
        values.foldl (fun n d => n * base + d) 0
          < (if isNegative then 2 ^ (127 : Nat) + 1 else 2 ^ (128 : Nat))
  match ds with
  | '0' :: 'x' :: ds => fits 16 ds
  | '0' :: 'o' :: ds => fits 8 ds
  | '0' :: 'b' :: ds => fits 2 ds
  | _ => false

/-- Whether a plain scalar with this text is not read as a text. -/
def readsOtherwise (text : String) : Bool :=
  isNull (.scalar text true) || (readFlag text).isSome || isBasedInteger text.toList
    || (readShare text.toList).isSome || hasLeadingZero text.toList

/-- Characters that stand for themselves in a scalar. -/
def isShown (c : Char) : Bool :=
  let n := c.toNat
  n == 0x0A || (0x20 ≤ n && n ≤ 0x7E) || (0xA0 ≤ n && n ≤ 0xFFFD && n != 0xFEFF)

/-- Whether a blank, a line break or the end follows. -/
def isGapNext (rest : List Char) : Bool :=
  rest.head?.all fun c => isBlankChar c || isBreak c

/-- Characters that mean something at the start of a scalar. -/
def isStartMark (c : Char) : Bool :=
  "#,[]\x7b\x7d&*!|>'\"%@\x60".toList.contains c

/-- Whether a scalar that goes on like this holds a mark that ends it. -/
def hasMark (afterGap : Bool) : List Char → Bool
  | [] => false
  | c :: rest =>
      (c == ':' && isGapNext rest) || (c == '#' && afterGap)
        || hasMark (isBlankChar c || isBreak c) rest

/-- Whether the characters of a text mean something where it stands. -/
def hasIndicator (text : List Char) : Bool :=
  "---".toList.isPrefixOf text || "...".toList.isPrefixOf text
    || match text with
      | [] => false
      | c :: rest =>
          isStartMark c || ((c == '?' || c == ':' || c == '-') && isGapNext rest)
            || hasMark false rest

def isEdge (c : Char) : Bool :=
  c == ' ' || isBreak c

/-- Whether a text can stand without quotes. -/
def canBePlain (text : List Char) : Bool :=
  !text.head?.any isEdge && !text.getLast?.any isEdge && !text.any isBreak && text.all isShown
    && !hasIndicator text

/-- Whether a blank stands before a line break. -/
def hasBlankBeforeBreak : List Char → Bool
  | a :: b :: rest => (a == ' ' && isBreak b) || hasBlankBeforeBreak (b :: rest)
  | _ => false

/-- Whether a text can stand as a block of lines. -/
def canBeBlock (text : List Char) : Bool :=
  text.getLast? != some ' ' && !hasBlankBeforeBreak text && text.all isShown

/-- A number in base sixteen with a fixed number of digits. -/
def fixedHex (width n : Nat) : List Char :=
  let ds := (Nat.toDigits 16 n).map Char.toUpper
  List.replicate (width - ds.length) '0' ++ ds

/-- A character between double quotes. -/
def doubleQuotedChar (c : Char) : List Char :=
  if isShown c && !isBreak c && c != '"' && c != '\\' then [c]
  else
    let named : List (Char × Char) :=
      [('\x00', '0'), ('\x07', 'a'), ('\x08', 'b'), ('\t', 't'), ('\n', 'n'), ('\x0b', 'v'),
        ('\x0c', 'f'), ('\r', 'r'), ('\x1b', 'e'), ('"', '"'), ('\\', '\\'), ('\u0085', 'N'),
        ('\u2028', 'L'), ('\u2029', 'P')]
    match named.lookup c with
    | some letter => ['\\', letter]
    | none =>
        let n := c.toNat
        if n ≤ 0xFF then '\\' :: 'x' :: fixedHex 2 n
        else if n ≤ 0xFFFF then '\\' :: 'u' :: fixedHex 4 n
        else '\\' :: 'U' :: fixedHex 8 n

def doubleQuoted (text : List Char) : List Char :=
  '"' :: text.flatMap doubleQuotedChar ++ ['"']

def singleQuoted (text : List Char) : List Char :=
  '\'' :: text.flatMap (fun c => if c == '\'' then ['\'', '\''] else [c]) ++ ['\'']

/-- The lines of a text; a line break at the end begins no further one. -/
def textLines : List Char → List (List Char)
  | [] => []
  | c :: rest =>
      if c == '\n' then [] :: textLines rest
      else
        match rest, textLines rest with
        | '\n' :: _, [] :: more => [c] :: more
        | _, line :: more => (c :: line) :: more
        | _, [] => [[c]]

/-- A line further to the right; an empty one stays empty. -/
def indented (line : List Char) : List Char :=
  if line.isEmpty then [] else ' ' :: ' ' :: line

/-- How a block says that its first line begins with a blank, and what becomes
of the line breaks at its end. -/
def blockHeader (text : List Char) : List Char :=
  let hint := if text.head?.any isEdge then ['2'] else []
  let chomping := match text.reverse with
    | '\n' :: '\n' :: _ | ['\n'] => ['+']
    | '\n' :: _ => []
    | _ => ['-']
  '|' :: hint ++ chomping

/-- The lines of a text; all but the first are indented. -/
def scalarLines (text : List Char) : List (List Char) :=
  if text.contains '\n' && canBeBlock text then
    blockHeader text :: (textLines text).map indented
  else if text.contains '\n' || !text.all isShown then [doubleQuoted text]
  else if readsOtherwise (String.ofList text) || !canBePlain text then [singleQuoted text]
  else [text]

/-- The lines with something in front of the first. -/
def afterMark (mark : List Char) : List (List Char) → List (List Char)
  | [] => [mark]
  | line :: rest => (mark ++ line) :: rest

mutual

/-- The lines of a value. -/
def valueLines : Json → List (List Char)
  | .string s => scalarLines s.toList
  | .real x => [(Decimal.Layout.yaml.text x).toList]
  | .bool true => ["true".toList]
  | .bool false => ["false".toList]
  | .natural n => [Decimal.digits n]
  | .negative n => ['-' :: Decimal.digits n.natAbs]
  | .array [] => [['[', ']']]
  | .array items => itemLines items
  | .object [] => [['\x7b', '\x7d']]
  | .object members => memberLines members
  | .null | .unreadable => ["null".toList]

def itemLines : List Json → List (List Char)
  | [] => []
  | v :: rest =>
      (match v with
        | .string _ => afterMark ['-', ' '] (valueLines v)
        | _ => (valueLines v).mapIdx fun k line =>
            if k == 0 then '-' :: ' ' :: line else indented line)
        ++ itemLines rest

def memberLines : List (String × Json) → List (List Char)
  | [] => []
  | (key, v) :: rest =>
      let mark := key.toList ++ [':']
      (match v with
        | .object (_ :: _) => mark :: (valueLines v).map indented
        | .array (_ :: _) => mark :: valueLines v
        | _ => afterMark (mark ++ [' ']) (valueLines v))
        ++ memberLines rest

end

/-- A document as text. -/
def write (v : Json) : String :=
  String.ofList ((valueLines v).flatMap fun line => line ++ ['\n'])

end EditMining.Yaml
