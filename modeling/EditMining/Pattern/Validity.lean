import EditMining.Pattern
import EditMining.Text.Alphanumeric

/-!
# Valid patterns

A pattern is worth keeping when it holds more than punctuation, when it
proposes a change, and when its brackets are balanced. The rules are asked in
this order and the first broken one is reported.

Brackets are counted over the joined token texts, whatever their polarity. The
three kinds are independent: one kind may close while another is still open.
Brackets inside quotes do not count; a quote runs to the next quote of its kind
that no backslash escapes, or to the end.
-/

namespace EditMining

/-- The rule that a pattern breaks. -/
inductive Invalidity where
  | symbolsOnly
  | noChange
  | unbalancedBrackets
  deriving DecidableEq, Inhabited, Repr

def Invalidity.message : Invalidity → String
  | .symbolsOnly => "symbols only"
  | .noChange => "no change"
  | .unbalancedBrackets => "unbalanced brackets"

/-- The three kinds of brackets. -/
inductive BracketKind where
  | round
  | square
  | curly
  deriving DecidableEq, Inhabited, Repr

/-- The kind that a character opens. -/
def BracketKind.ofOpener? : Char → Option BracketKind
  | '(' => some .round
  | '[' => some .square
  | '\x7b' => some .curly
  | _ => none

/-- The kind that a character closes. -/
def BracketKind.ofCloser? : Char → Option BracketKind
  | ')' => some .round
  | ']' => some .square
  | '\x7d' => some .curly
  | _ => none

/-- How many brackets of each kind are open. -/
structure BracketDepths where
  round : Nat
  square : Nat
  curly : Nat
  deriving DecidableEq, Inhabited, Repr

namespace BracketDepths

def zero : BracketDepths := ⟨0, 0, 0⟩

def get (d : BracketDepths) : BracketKind → Nat
  | .round => d.round
  | .square => d.square
  | .curly => d.curly

def set (d : BracketDepths) (n : Nat) : BracketKind → BracketDepths
  | .round => { d with round := n }
  | .square => { d with square := n }
  | .curly => { d with curly := n }

/-- One more open bracket. -/
def opened (d : BracketDepths) (k : BracketKind) : BracketDepths :=
  d.set (d.get k + 1) k

/-- One open bracket less, if there is one. -/
def closed? (d : BracketDepths) (k : BracketKind) : Option BracketDepths :=
  match d.get k with
  | 0 => none
  | n + 1 => some (d.set n k)

end BracketDepths

/-- A position in code: outside of quotes, or inside with the quote that ends
it and whether the next character is escaped. -/
inductive QuoteState where
  | outside
  | inside (quote : Char) (escaped : Bool)
  deriving DecidableEq, Inhabited, Repr

def isQuoteMark (c : Char) : Bool :=
  c == '\'' || c == '"' || c == '\x60'

/-- The state behind a character. -/
def QuoteState.step : QuoteState → Char → QuoteState
  | .outside, c => if isQuoteMark c then .inside c false else .outside
  | .inside quote true, _ => .inside quote false
  | .inside quote false, c =>
      if c == '\\' then .inside quote true
      else if c == quote then .outside
      else .inside quote false

/-- The depths behind a character; none where a bracket closes that was never
opened. -/
def bracketStep (state : QuoteState) (depths : BracketDepths) (c : Char) :
    Option BracketDepths :=
  match state with
  | .inside .. => some depths
  | .outside =>
      match BracketKind.ofOpener? c with
      | some k => some (depths.opened k)
      | none =>
          match BracketKind.ofCloser? c with
          | some k => depths.closed? k
          | none => some depths

/-- The depths at the end of a text. -/
def bracketScan : QuoteState → BracketDepths → List Char → Option BracketDepths
  | _, depths, [] => some depths
  | state, depths, c :: rest =>
      (bracketStep state depths c).bind fun depths => bracketScan (state.step c) depths rest

/-- Every bracket of a text that counts has its partner. -/
def bracketsBalanced (text : List Char) : Bool :=
  bracketScan .outside .zero text == some .zero

namespace Pattern

/-- The characters of all tokens in order. -/
def chars (p : Pattern) : List Char :=
  p.tokens.flatMap fun t => t.text.toList

def hasBalancedBrackets (p : Pattern) : Bool :=
  bracketsBalanced p.chars

/-- No token has a letter, a digit or an underscore. -/
def isSymbolsOnly (p : Pattern) : Bool :=
  p.tokens.all fun t => !t.text.toList.any Text.isWordChar

/-- The first rule that a pattern breaks. -/
def invalidity (p : Pattern) : Option Invalidity :=
  if p.isSymbolsOnly then some .symbolsOnly
  else if !p.proposesChange then some .noChange
  else if !p.hasBalancedBrackets then some .unbalancedBrackets
  else none

end Pattern

end EditMining
