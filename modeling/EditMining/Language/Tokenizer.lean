import EditMining.Language
import EditMining.Text.Blank
import EditMining.Text.Search
import EditMining.Text.Utf8

/-!
# Tokenizers

A fragment of code is parsed with the grammar of its language, and the leaves of
the syntax tree are its tokens. Comments and nodes that the parser has put in are
left out, literals are one token each, and a fragment that leaves a bracket open
is incomplete and is refused.

Grammars are not part of this library. They are given (`Grammars`), and with them
the tokenizers (`Tokenizers.ofGrammars`). What uses tokenizers does not look at
how they were made: a `Tokenizer` splits texts in whatever way, and may refuse
them.
-/

namespace EditMining

/-! ## Syntax trees -/

/-- A node of a syntax tree. It stands for the bytes of a text from `start` up to
but not including `stop`; a *missing* one was put in by the parser. -/
inductive SyntaxNode where
  | node (kind : String) (isMissing : Bool) (start stop : Nat) (children : List SyntaxNode)

namespace SyntaxNode

/-- The text of a token at some bytes of a fragment, if there is anything but
blanks. -/
def tokenAt (l : Language) (source : String) (start stop : Nat) : Result (List String) :=
  match Text.Utf8.sliceBytes? start stop source.toList with
  | none =>
      .error
        (.tokenization l.key
          ("token boundary " ++ start.repr ++ ".." ++ stop.repr ++ " is not a character boundary")
          (some source))
  | some text =>
      let text := Text.trim text
      .ok (if text.isEmpty then [] else [String.ofList text])

mutual

/-- The tokens of a fragment that lie in a node of its syntax tree. -/
def tokens (l : Language) (source : String) : SyntaxNode → Result (List String)
  | .node kind isMissing start stop children =>
      if isMissing || Text.isWithin "comment" kind then .ok []
      else if !l.atomicKinds.contains kind && !children.isEmpty then tokensOfAll l source children
      else tokenAt l source start stop

/-- The tokens in some nodes, one node after the other. -/
def tokensOfAll (l : Language) (source : String) : List SyntaxNode → Result (List String)
  | [] => .ok []
  | n :: rest => do
      let first ← n.tokens l source
      let more ← tokensOfAll l source rest
      .ok (first ++ more)

end

end SyntaxNode

/-- What parses fragments of code: it gives a syntax tree, or none. -/
abbrev CodeParser := String → Option SyntaxNode

/-! ## Tokenizers -/

/-- What splits fragments of code into tokens. -/
structure Tokenizer where
  language : Language
  tokenize : String → Result (List String)

/-- How many brackets are open behind a token; brackets of all kinds count
alike, and one that closes nothing counts for nothing. -/
def openBrackets (depth : Nat) (token : String) : Nat :=
  if token = "(" || token = "[" || token = "\x7b" then depth + 1
  else if token = ")" || token = "]" || token = "\x7d" then depth - 1
  else depth

namespace Tokenizer

/-- The tokens of a fragment without anything between them. -/
def compact (tk : Tokenizer) (source : String) : Result String :=
  (tk.tokenize source).map String.join

/-- The tokenizer that takes the leaves of syntax trees. -/
def ofParser (l : Language) (parse : CodeParser) : Tokenizer where
  language := l
  tokenize source :=
    match parse source with
    | none => .error (.tokenization l.key "parser produced no tree" (some source))
    | some root => do
        let tokens ← root.tokens l source
        if tokens.foldl openBrackets 0 > 0 then
          .error (.tokenization l.key "EOF in multi-line statement" (some source))
        else .ok tokens

end Tokenizer

/-- What tokenizers are made of: how the code of each language is split, or why it
cannot be. -/
structure Tokenizers where
  make : Language → Result (String → Result (List String))

/-- The tokenizer for a language, given by any of its names. -/
def Tokenizers.get (ts : Tokenizers) (name : String) : Result Tokenizer := do
  let l ← Language.find name
  let tokenize ← ts.make l
  .ok ⟨l, tokenize⟩

/-! ## Grammars -/

/-- Grammars of languages: what parses the code of each, or why nothing does. -/
structure Grammars where
  parser : Language → Except String CodeParser

/-- The parser for a language, given by any of its names. -/
def Grammars.createParser (g : Grammars) (name : String) : Result CodeParser := do
  let l ← Language.findGrammar name
  match g.parser l with
  | .ok parse => .ok parse
  | .error reason =>
      .error (.tokenization name ("Failed to set parser language: " ++ reason) none)

/-- The tokenizers for the languages of some grammars. -/
def Tokenizers.ofGrammars (g : Grammars) : Tokenizers where
  make l := do
    let parse ← g.createParser l.key
    .ok (Tokenizer.ofParser l parse).tokenize

/-! ## Languages by their keys -/

theorem Language.ofName?_key (l : Language) : ofName? l.key = some l := by
  cases l <;> decide

theorem Language.find_key (l : Language) : find l.key = .ok l := by
  rw [find, ofName?_key]

theorem Language.findGrammar_key (l : Language) : findGrammar l.key = .ok l := by
  rw [findGrammar, ofName?_key]

namespace Tokenizers

variable {l : Language}

theorem get_key (ts : Tokenizers) (l : Language) :
    ts.get l.key = (ts.make l).map (Tokenizer.mk l) := by
  rw [get, Language.find_key]
  simp only [bind, Except.bind]
  cases ts.make l <;> rfl

/-- A language whose grammar can be used has its tokenizer. -/
theorem get_ofGrammars {g : Grammars} {parse : CodeParser} (h : g.parser l = .ok parse) :
    (ofGrammars g).get l.key = .ok (.ofParser l parse) := by
  have hparser : g.createParser l.key = .ok parse := by
    rw [Grammars.createParser, Language.findGrammar_key]
    simp only [bind, Except.bind, h]
  rw [get_key]
  simp only [ofGrammars, hparser]
  rfl

end Tokenizers

end EditMining
