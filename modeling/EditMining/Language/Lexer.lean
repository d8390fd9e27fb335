import EditMining.Language.Tokenizer
import EditMining.Text.Alphanumeric
import EditMining.Text.Blank

/-!
# Grammars without structure

Where no grammar of a language is at hand, its code can still be cut into tokens. It
is gone through from the left. White space and comments are skipped; what is left is
cut into literals, numbers, identifiers and operators, each as long as it can be. A
character that begins none of these is a token by itself. Every class of tokens is
described by how many characters at the start of a text belong to it, so tokens are
stretches of the code and come in its order.

What is known of a fragment in this way is a syntax tree without inner nodes. It takes
the place of a full one (`Grammars.lexical`); nothing else depends on how code is cut.
-/

namespace EditMining.Language

open Text

/-- How long a text is, up to the end of the first `close` in it. A backslash
may take the character behind it out of consideration. -/
def lengthTo (close : List Char) (escapes : Bool) : List Char → Option Nat
  | [] => none
  | [c] => if close == [c] then some 1 else none
  | c :: d :: rest =>
      if escapes && c == '\\' then (lengthTo close escapes rest).map (· + 2)
      else if close.isPrefixOf (c :: d :: rest) then some close.length
      else (lengthTo close escapes (d :: rest)).map (· + 1)

/-- The length of a literal: what opens it, and what follows up to the end of
what closes it. -/
def delimitedLength (start close : List Char) (escapes : Bool) (text : List Char) : Option Nat :=
  if start.isPrefixOf text then
    (lengthTo close escapes (text.drop start.length)).map (· + start.length)
  else none

/-- The length of a comment to the end of the line. -/
def lineLength (text : List Char) : Nat :=
  (text.takeWhile (· != '\n')).length

/-- The length of what follows the start of a comment, up to its end, when
comments contain comments; `inner` is the number of comments inside it that are
open. -/
def nestedLength : (inner : Nat) → List Char → Nat
  | _, [] => 0
  | _, [_] => 1
  | inner, c :: d :: rest =>
      if c == '*' && d == '/' then
        match inner with
        | 0 => 2
        | inner + 1 => nestedLength inner rest + 2
      else if c == '/' && d == '*' then nestedLength (inner + 1) rest + 2
      else nestedLength inner (d :: rest) + 1

/-- The length of a comment at the start of a text, zero where there is none. -/
def commentLength (l : Language) (text : List Char) : Nat :=
  match l, text with
  | .python, '#' :: _ => lineLength text
  | .python, _ => 0
  | _, '/' :: '/' :: _ => lineLength text
  | .rust, '/' :: '*' :: rest => nestedLength 0 rest + 2
  | _, '/' :: '*' :: rest => ((lengthTo ['*', '/'] false rest).getD rest.length) + 2
  | _, _ => 0

/-- Characters between tokens. -/
def isGapChar (l : Language) (c : Char) : Bool :=
  isBlank c ||
    match l with
    | .python | .javaScript | .typeScript => c == '\u200b' || c == '\u2060' || c == '\ufeff'
    | _ => false

/-- How many characters at the start of a text belong to no token. -/
def gapLength (l : Language) (text : List Char) : Nat :=
  match text with
  | [] => 0
  | c :: _ => if isGapChar l c then 1 else commentLength l text

/-- The length of a literal behind one of some openings, each with what closes
it; the first that fits counts. -/
def firstDelimited (escapes : Bool) (text : List Char) :
    List (List Char × List Char) → Option Nat
  | [] => none
  | (start, close) :: rest =>
      if start.isPrefixOf text then delimitedLength start close escapes text
      else firstDelimited escapes text rest

def quoteMark : List Char := ['"']
def apostrophe : List Char := ['\'']
def backquote : List Char := ['\x60']

/-- The length of what comes before a literal's quote, when that is one of the
given words. -/
def leadLength (words : List String) (text : List Char) : Nat :=
  let word := text.takeWhile isWordChar
  if words.contains (String.ofList word) then word.length else 0

/-- A literal behind a lead, with the lead counted. -/
def withLead (words : List String) (literal : List Char → Option Nat) (text : List Char) :
    Option Nat :=
  let lead := leadLength words text
  (literal (text.drop lead)).map (· + lead)

/-- The quotes of Python: three in a row count as one. -/
def pythonString (text : List Char) : Option Nat :=
  let quotes := ["\"\"\"", "'''", "\"", "'"].map String.toList
  withLead
    ["r", "b", "u", "f", "t", "R", "B", "U", "F", "T", "rb", "br", "Rb", "bR", "rB", "Br", "RB",
      "BR", "rf", "fr", "Rf", "fR", "rF", "Fr", "RF", "FR", "rt", "tr", "Rt", "tR", "rT", "Tr",
      "RT", "TR"]
    (fun text => firstDelimited true text (quotes.map fun q => (q, q))) text

/-- The length of a template string behind its opening quote, up to the closing
one. In text the list of open braces is empty; inside `depths`, one entry for
each template whose expression is open, braces are counted, and a quote begins
another template. -/
def templateLength : (depths : List Nat) → List Char → Option Nat
  | _, [] => none
  | [], '\x60' :: _ => some 1
  | depths, '\\' :: _ :: rest => (templateLength depths rest).map (· + 2)
  | depths, '$' :: '\x7b' :: rest => (templateLength (0 :: depths) rest).map (· + 2)
  | depth :: depths, '\x7b' :: rest => (templateLength ((depth + 1) :: depths) rest).map (· + 1)
  | 0 :: depths, '\x7d' :: rest => (templateLength depths rest).map (· + 1)
  | (depth + 1) :: depths, '\x7d' :: rest => (templateLength (depth :: depths) rest).map (· + 1)
  | depths, _ :: rest => (templateLength depths rest).map (· + 1)

/-- The length of a regular expression's body behind its opening slash, up to
the closing one. Inside a class of characters a slash is no end, and a line
break is never part of it. -/
def regexLength : (inClass : Bool) → List Char → Option Nat
  | _, [] => none
  | _, '\n' :: _ => none
  | inClass, '\\' :: c :: rest =>
      if c == '\n' then none else (regexLength inClass rest).map (· + 2)
  | false, '/' :: _ => some 1
  | false, '[' :: rest => (regexLength true rest).map (· + 1)
  | true, ']' :: rest => (regexLength false rest).map (· + 1)
  | inClass, _ :: rest => (regexLength inClass rest).map (· + 1)

/-- Words behind which an operand is expected. -/
def operatorWords : List String :=
  ["return", "typeof", "case", "in", "of", "delete", "void", "throw", "new", "else", "do",
    "instanceof", "yield", "await", "extends", "default"]

/-- Whether a token ends an operand, so that a slash behind it divides. -/
def endsOperand (token : List Char) : Bool :=
  match token.getLast? with
  | none => false
  | some c =>
      if isWordChar c || c == '$' then !operatorWords.contains (String.ofList token)
      else c == ')' || c == ']' || c == '\x7d' || c == '"' || c == '\'' || c == '\x60'
        || token == ['+', '+'] || token == ['-', '-'] || (c == '/' && 1 < token.length && token != ['/', '='])

/-- Quotes, templates and regular expressions of JavaScript. -/
def scriptString (previous : Option (List Char)) (text : List Char) : Option Nat :=
  match text with
  | '\x60' :: rest => (templateLength [] rest).map (· + 1)
  | '/' :: rest =>
      if previous.any endsOperand then none
      else
        (regexLength false rest).map fun n =>
          n + 1 + ((rest.drop n).takeWhile isWordChar).length
  | _ => firstDelimited true text [(quoteMark, quoteMark), (apostrophe, apostrophe)]

/-- A character between apostrophes, with an escape if there is one. -/
def charLength (text : List Char) : Option Nat :=
  match text with
  | '\'' :: '\\' :: _ => delimitedLength apostrophe apostrophe true text
  | '\'' :: c :: '\'' :: _ => if c == '\'' then none else some 3
  | _ => none

/-- A raw literal: hash signs, a quote, and all up to a quote with as many hash
signs. -/
def rawHashLength (text : List Char) : Option Nat :=
  let hashes := text.takeWhile (· == '#')
  delimitedLength (hashes ++ quoteMark) (quoteMark ++ hashes) false text

def rustString (text : List Char) : Option Nat :=
  let lead := leadLength ["b", "c", "r", "br", "cr"] text
  let raw := (text.take lead).contains 'r'
  let body := text.drop lead
  let length :=
    if raw then rawHashLength body
    else
      match delimitedLength quoteMark quoteMark true body with
      | some n => some n
      | none => if lead == 0 || text.take lead == ['b'] then charLength body else none
  length.map (· + lead)

def goString (text : List Char) : Option Nat :=
  match delimitedLength backquote backquote false text with
  | some n => some n
  | none => firstDelimited true text [(quoteMark, quoteMark), (apostrophe, apostrophe)]

/-- A raw literal: a quote, a delimiter, a parenthesis, and all up to a
parenthesis with the same delimiter and a quote. -/
def rawParenLength (text : List Char) : Option Nat :=
  let delimiter := (text.drop 1).takeWhile fun c => c != '(' && c != '"' && !isBlank c
  delimitedLength ('"' :: delimiter ++ ['(']) (')' :: delimiter ++ ['"']) false text

def cppString (text : List Char) : Option Nat :=
  let lead := leadLength ["L", "u", "U", "u8", "R", "LR", "uR", "UR", "u8R"] text
  let body := text.drop lead
  let length :=
    if (text.take lead).contains 'R' then rawParenLength body
    else firstDelimited true body [(quoteMark, quoteMark), (apostrophe, apostrophe)]
  length.map (· + lead)

/-- The length of a string or another quoted literal at the start of a text. -/
def literalLength (l : Language) (previous : Option (List Char)) (text : List Char) : Option Nat :=
  match l with
  | .python => pythonString text
  | .javaScript | .typeScript => scriptString previous text
  | .rust => rustString text
  | .go => goString text
  | .cpp => cppString text

/-- The length of digits and the marks between them. -/
def digitsLength (l : Language) : List Char → Nat
  | [] => 0
  | [c] => if c.isDigit || c == '_' then 1 else 0
  | c :: d :: rest =>
      if c.isDigit || c == '_' || (l == .cpp && c == '\'' && d.isDigit) then
        digitsLength l (d :: rest) + 1
      else 0

/-- Whether a point behind digits belongs to the number. Two points in a row are
an operator where ranges are written so, and a point before a name selects. -/
def takesPoint (l : Language) : List Char → Bool
  | '.' :: rest =>
      match l, rest with
      | .rust, c :: _ => c != '.' && !(isWordChar c && !c.isDigit)
      | .go, '.' :: _ | .cpp, '.' :: _ | .python, '.' :: _ => false
      | _, _ => true
  | _ => false

/-- The length of an exponent: its letter, a sign, digits. -/
def exponentLength (l : Language) : List Char → Nat
  | e :: text =>
      if e == 'e' || e == 'E' then
        let sign := match text with
          | '+' :: _ | '-' :: _ => 1
          | _ => 0
        match text.drop sign with
        | d :: _ => if d.isDigit then 1 + sign + digitsLength l (text.drop sign) else 0
        | [] => 0
      else 0
  | [] => 0

/-- The length of a number in another base than ten, with its suffix. -/
def basedLength : List Char → Option Nat
  | '0' :: x :: rest =>
      if "xXbBoO".toList.contains x then some (2 + (rest.takeWhile isWordChar).length) else none
  | _ => none

/-- The length of a number at the start of a text, with its suffix. -/
def numberLength (l : Language) (text : List Char) : Option Nat :=
  let startsNumber := match text with
    | '.' :: d :: _ => d.isDigit && l != .rust
    | d :: _ => d.isDigit
    | [] => false
  if !startsNumber then none
  else
    match basedLength text with
    | some n => some n
    | none =>
        let whole := digitsLength l text
        let text := text.drop whole
        let fraction := if takesPoint l text then 1 + digitsLength l (text.drop 1) else 0
        let text := text.drop fraction
        let exponent := exponentLength l text
        let suffix := ((text.drop exponent).takeWhile isWordChar).length
        some (whole + fraction + exponent + suffix)

/-- Characters of identifiers. -/
def isNameChar (l : Language) (c : Char) : Bool :=
  isWordChar c || ((l == .javaScript || l == .typeScript) && c == '$')

/-- The operators of more than one character, longer ones first. -/
def operators : Language → List String
  | .python =>
      ["**=", "//=", ">>=", "<<=", "...", "->", "**", "//", ">>", "<<", "==", "!=", "<=", ">=",
        ":=", "+=", "-=", "*=", "/=", "%=", "&=", "|=", "^=", "@="]
  | .javaScript | .typeScript =>
      [">>>=", "===", "!==", "**=", "<<=", ">>=", ">>>", "&&=", "||=", "??=", "...", "=>", "==",
        "!=", "<=", ">=", "&&", "||", "??", "?.", "++", "--", "+=", "-=", "*=", "/=", "%=", "&=",
        "|=", "^=", "**", "<<", ">>"]
  | .rust =>
      ["<<=", ">>=", "...", "..=", "::", "->", "=>", "==", "!=", "<=", ">=", "&&", "||", "+=",
        "-=", "*=", "/=", "%=", "^=", "&=", "|=", "<<", ">>", ".."]
  | .go =>
      ["<<=", ">>=", "&^=", "...", ":=", "==", "!=", "<=", ">=", "&&", "||", "<-", "++", "--",
        "+=", "-=", "*=", "/=", "%=", "&=", "|=", "^=", "<<", ">>", "&^"]
  | .cpp =>
      ["<=>", "<<=", ">>=", "...", "::", "->", "++", "--", "<<", ">>", "<=", ">=", "==", "!=",
        "&&", "||", "+=", "-=", "*=", "/=", "%=", "&=", "|=", "^="]

/-- The length of an operator at the start of a text, at least one. -/
def operatorLength (l : Language) (text : List Char) : Nat :=
  match (operators l).find? fun o => o.toList.isPrefixOf text with
  | some o => o.length
  | none => 1

/-- How many characters at the start of a text make its first token. The token
before it tells a regular expression from a division. -/
def tokenLength (l : Language) (previous : Option (List Char)) (text : List Char) : Nat :=
  match literalLength l previous text with
  | some n => n
  | none =>
      match numberLength l text with
      | some n => n
      | none =>
          let name := (text.takeWhile (isNameChar l)).length
          if name == 0 then operatorLength l text else name

/-- The leaves of a text that begins at a byte of a fragment, behind another
token. -/
def leavesFrom (l : Language) (previous : Option (List Char)) (start : Nat) :
    List Char → List SyntaxNode
  | [] => []
  | c :: rest =>
      match gapLength l (c :: rest) with
      | 0 =>
          let n := tokenLength l previous (c :: rest) - 1
          let token := c :: rest.take n
          let stop := start + Utf8.size token
          .node "token" false start stop [] :: leavesFrom l (some token) stop (rest.drop n)
      | gap + 1 =>
          leavesFrom l previous (start + Utf8.size (c :: rest.take gap)) (rest.drop gap)
termination_by text => text.length
decreasing_by
  all_goals
    simp only [List.length_drop, List.length_cons]
    omega

/-- A fragment's syntax tree: its tokens are the leaves, with nothing between them
and the root. -/
def parse (l : Language) (source : String) : Option SyntaxNode :=
  some (.node "fragment" false 0 0 (leavesFrom l none 0 source.toList))

end EditMining.Language

namespace EditMining

/-- Grammars that know tokens and nothing else. -/
def Grammars.lexical : Grammars where
  parser l := .ok l.parse

/-- The tokenizers of these grammars. -/
def Tokenizers.lexical : Tokenizers :=
  .ofGrammars .lexical

end EditMining
