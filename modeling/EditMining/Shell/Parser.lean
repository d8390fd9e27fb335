import EditMining.Shell.Syntax

/-!
# Reading shell scripts

A script is read character by character. Every construct begins with characters
of its own, so the length of the script bounds how deep reading goes.
-/

namespace EditMining.Shell

/-- Reading a part of a script, which may fail. -/
abbrev Parser := StateT (List Char) Option

namespace Parser

def peek : Parser (Option Char) := do
  pure (← get).head?

def advance : Parser Unit :=
  modify List.tail

/-- Pass over some characters if they come next, and say whether they did. -/
def takeIf (chars : String) : Parser Bool := do
  match List.isPrefixOf? chars.toList (← get) with
  | some rest =>
      set rest
      pure true
  | none => pure false

def expect (chars : String) : Parser Unit := do
  if !(← takeIf chars) then failure

/-- The characters of a class that come next. -/
def takeWhile (p : Char → Bool) : Parser (List Char) := do
  let chars := (← get).takeWhile p
  modify (·.drop chars.length)
  pure chars

def isNameStart (c : Char) : Bool := c.isAlpha || c == '_'

def isNameChar (c : Char) : Bool := c.isAlphanum || c == '_'

/-- Characters that end a word. -/
def isMeta (c : Char) : Bool :=
  " \t\n;&|<>()".toList.contains c

/-- Pass over blanks, joined lines and comments. -/
def skipBlanks : Nat → Parser Unit
  | 0 => failure
  | depth + 1 => do
      discard (takeWhile fun c => c == ' ' || c == '\t')
      if ← takeIf "\\\n" then skipBlanks depth
      else if (← peek) == some '#' then discard (takeWhile (· != '\n'))

/-- Pass over blanks and line breaks. -/
def skipLines : Nat → Parser Unit
  | 0 => failure
  | depth + 1 => do
      skipBlanks depth
      if ← takeIf "\n" then skipLines depth

/-- The special parameter that a character names. -/
def specialName? (c : Char) : Option String :=
  if "@*#?$!-".toList.contains c || c.isDigit then some (String.ofList [c]) else none

/-- The name of a parameter in braces. -/
def bracedName : Parser String := do
  match ← peek with
  | some c =>
      if isNameStart c then String.ofList <$> takeWhile isNameChar
      else if c.isDigit then String.ofList <$> takeWhile Char.isDigit
      else
        match specialName? c with
        | some name =>
            advance
            pure name
        | none => failure
  | none => failure

/-- The modifier behind the name of a parameter. -/
def modifier : Parser Modifier := do
  if ← takeIf "##" then pure (.trim false true)
  else if ← takeIf "#" then pure (.trim false false)
  else if ← takeIf "%%" then pure (.trim true true)
  else if ← takeIf "%" then pure (.trim true false)
  else if ← takeIf ":-" then pure (.fallback true)
  else if ← takeIf "-" then pure (.fallback false)
  else if ← takeIf ":+" then pure (.alternative true)
  else if ← takeIf "+" then pure (.alternative false)
  else pure .none

/-- Script text between backquotes, without the backslashes that protect
characters of it. -/
def backquoted : Nat → Parser (List Char)
  | 0 => failure
  | depth + 1 => do
      match ← peek with
      | none => failure
      | some '\x60' =>
          advance
          pure []
      | some '\\' => do
          advance
          match ← peek with
          | some c =>
              advance
              let rest ← backquoted depth
              pure (if "\\\x60$".toList.contains c then c :: rest else '\\' :: c :: rest)
          | none => failure
      | some c =>
          advance
          pure (c :: (← backquoted depth))

/-- Whether a word is a keyword or anything else without quotes. -/
def plainText? : Word → Option String
  | [.text chars false] => some (String.ofList chars)
  | _ => none

/-- Words that end a list of commands. -/
def isCloser (word : String) : Bool :=
  ["then", "elif", "else", "fi", "do", "done", "esac", "\x7d"].contains word

/-- The keyword that comes next, if one does. -/
def nextWord : Parser String := do
  pure (String.ofList ((← get).takeWhile fun c => !isMeta c))

/-- A name and an equals sign in front of a word. -/
def assignmentName? : Word → Option (String × Word)
  | .text chars false :: rest =>
      let name := chars.takeWhile isNameChar
      match chars.dropWhile isNameChar with
      | '=' :: value =>
          if name.head?.any isNameStart then
            some (String.ofList name, .text value false :: rest)
          else none
      | _ => none
  | _ => none

/-- The channel and the kind of a redirection, if one comes next. -/
def redirectStart : Parser (Option (Nat × RedirectKind)) := do
  let saved ← get
  let ds ← takeWhile Char.isDigit
  let channel : Option Nat := if ds.isEmpty then none else some (Nat.ofDigitChars 10 ds 0)
  if ← takeIf ">>" then pure (some (channel.getD 1, .append))
  else if ← takeIf ">&" then pure (some (channel.getD 1, .duplicate))
  else if ← takeIf ">" then pure (some (channel.getD 1, .write))
  else if ← takeIf "<&" then pure (some (channel.getD 0, .duplicate))
  else if (← get).head? == some '<' && (← get)[1]? != some '<' then
    advance
    pure (some (channel.getD 0, .read))
  else
    set saved
    pure none

mutual

/-- What a dollar sign stands for. -/
def dollar (isQuoted : Bool) : Nat → Parser Part
  | 0 => failure
  | depth + 1 => do
      advance
      if ← takeIf "(" then
        let body ← script depth
        expect ")"
        pure (.substitution body isQuoted)
      else if ← takeIf "\x7b" then
        if (← peek) == some '#' && (← get)[1]? != some '\x7d' then
          advance
          let name ← bracedName
          expect "\x7d"
          pure (.parameter name .length [] isQuoted)
        else
          let name ← bracedName
          let m ← modifier
          let operand ← if m == .none then pure [] else parts isQuoted (some '\x7d') depth
          expect "\x7d"
          pure (.parameter name m operand isQuoted)
      else
        match ← peek with
        | some c =>
            if isNameStart c then
              pure (.parameter (String.ofList (← takeWhile isNameChar)) .none [] isQuoted)
            else
              match specialName? c with
              | some name =>
                  advance
                  pure (.parameter name .none [] isQuoted)
              | none => pure (.text ['$'] isQuoted)
        | none => pure (.text ['$'] isQuoted)

/-- The parts of a text between double quotes, up to the closing one. -/
def quotedParts : Nat → Parser Word
  | 0 => failure
  | depth + 1 => do
      match ← peek with
      | none => failure
      | some '"' =>
          advance
          pure []
      | some '$' =>
          let part ← dollar true depth
          pure (part :: (← quotedParts depth))
      | some '\x60' =>
          let part ← backquotedPart true depth
          pure (part :: (← quotedParts depth))
      | some '\\' =>
          advance
          match ← peek with
          | none => failure
          | some '\n' =>
              advance
              quotedParts depth
          | some c =>
              advance
              let chars := if "$\x60\"\\".toList.contains c then [c] else ['\\', c]
              pure (.text chars true :: (← quotedParts depth))
      | some c =>
          advance
          pure (.text [c] true :: (← quotedParts depth))

/-- A command between backquotes. -/
def backquotedPart (isQuoted : Bool) : Nat → Parser Part
  | 0 => failure
  | depth + 1 => do
      advance
      let inner ← backquoted depth
      let saved ← get
      set inner
      let body ← script depth
      if !(← get).isEmpty then failure
      set saved
      pure (.substitution body isQuoted)

/-- The parts of a word, up to a character that ends words or to the given
one. -/
def parts (isQuoted : Bool) (stop : Option Char) : Nat → Parser Word
  | 0 => failure
  | depth + 1 => do
      match ← peek with
      | none => pure []
      | some c =>
          if some c == stop || (stop.isNone && isMeta c) then pure []
          else if c == '\'' then
            advance
            let chars ← takeWhile (· != '\'')
            expect "'"
            pure (.text chars true :: (← parts isQuoted stop depth))
          else if c == '"' then
            advance
            let inner ← quotedParts depth
            pure (.text [] true :: inner ++ (← parts isQuoted stop depth))
          else if c == '$' then
            let part ← dollar isQuoted depth
            pure (part :: (← parts isQuoted stop depth))
          else if c == '\x60' then
            let part ← backquotedPart isQuoted depth
            pure (part :: (← parts isQuoted stop depth))
          else if c == '\\' then
            advance
            match ← peek with
            | none => pure [.text ['\\'] true]
            | some '\n' =>
                advance
                parts isQuoted stop depth
            | some c =>
                advance
                pure (.text [c] true :: (← parts isQuoted stop depth))
          else
            let chars ← takeWhile fun c =>
              !("'\"$\x60\\".toList.contains c) && some c != stop && !(stop.isNone && isMeta c)
            pure (.text chars false :: (← parts isQuoted stop depth))

/-- The redirections behind a compound command. -/
def redirects : Nat → Parser (List Redirect)
  | 0 => failure
  | depth + 1 => do
      skipBlanks depth
      match ← redirectStart with
      | none => pure []
      | some (channel, kind) =>
          skipBlanks depth
          let target ← parts false none depth
          if target.isEmpty then failure
          pure (.mk channel kind target :: (← redirects depth))

/-- The assignments, words and redirections of a simple command. -/
def simple : Nat → Parser (List (String × Word) × List Word × List Redirect)
  | 0 => failure
  | depth + 1 => do
      skipBlanks depth
      match ← redirectStart with
      | some (channel, kind) =>
          skipBlanks depth
          let target ← parts false none depth
          if target.isEmpty then failure
          let (assignments, words, more) ← simple depth
          pure (assignments, words, .mk channel kind target :: more)
      | none =>
          let word ← parts false none depth
          if word.isEmpty then pure ([], [], [])
          else
            let (assignments, words, more) ← simple depth
            match assignmentName? word with
            | some assignment => pure (assignment :: assignments, words, more)
            | none =>
                -- what looks like an assignment behind a word is a word
                let later := assignments.map fun (name, value) =>
                  Part.text (name.toList ++ ['=']) false :: value
                pure ([], word :: later ++ words, more)

/-- Words up to the end of the line. -/
def wordList : Nat → Parser (List Word)
  | 0 => failure
  | depth + 1 => do
      skipBlanks depth
      let word ← parts false none depth
      if word.isEmpty then pure [] else pure (word :: (← wordList depth))

/-- The branches behind the first keyword of a conditional, and what is done
otherwise. -/
def branches : Nat → Parser (List (Script × Script) × Script)
  | 0 => failure
  | depth + 1 => do
      let condition ← script depth
      expect "then"
      let body ← script depth
      if ← takeIf "elif" then
        let (more, otherwise) ← branches depth
        pure ((condition, body) :: more, otherwise)
      else if ← takeIf "else" then
        let otherwise ← script depth
        expect "fi"
        pure ([(condition, body)], otherwise)
      else
        expect "fi"
        pure ([(condition, body)], [])

/-- The patterns of one arm of a case. -/
def casePatterns : Nat → Parser (List Word)
  | 0 => failure
  | depth + 1 => do
      skipBlanks depth
      let pattern ← parts false none depth
      skipBlanks depth
      if ← takeIf "|" then pure (pattern :: (← casePatterns depth))
      else
        expect ")"
        pure [pattern]

/-- The arms of a case up to its end. -/
def arms : Nat → Parser (List (List Word × Script))
  | 0 => failure
  | depth + 1 => do
      skipLines depth
      if (← nextWord) == "esac" then
        expect "esac"
        pure []
      else
        discard (takeIf "(")
        let patterns ← casePatterns depth
        let body ← script depth
        if ← takeIf ";;" then pure ((patterns, body) :: (← arms depth))
        else
          expect "esac"
          pure [(patterns, body)]

/-- A command. -/
def command : Nat → Parser Command
  | 0 => failure
  | depth + 1 => do
      skipBlanks depth
      if ← takeIf "(" then
        let body ← script depth
        expect ")"
        pure (.subshell body (← redirects depth))
      else
        match ← nextWord with
        | "\x7b" =>
            advance
            let body ← script depth
            expect "\x7d"
            pure (.group body (← redirects depth))
        | "if" =>
            expect "if"
            let (bs, otherwise) ← branches depth
            pure (.conditional bs otherwise)
        | "while" | "until" =>
            let isUntil := (← nextWord) == "until"
            discard (takeWhile Char.isAlpha)
            let condition ← script depth
            expect "do"
            let body ← script depth
            expect "done"
            pure (.loop isUntil condition body)
        | "for" =>
            expect "for"
            skipBlanks depth
            let name ← takeWhile isNameChar
            skipLines depth
            let words ←
              if (← nextWord) == "in" then do
                expect "in"
                pure (some (← wordList depth))
              else pure none
            skipLines depth
            discard (takeIf ";")
            skipLines depth
            expect "do"
            let body ← script depth
            expect "done"
            pure (.each (String.ofList name) words body)
        | "case" =>
            expect "case"
            skipBlanks depth
            let subject ← parts false none depth
            skipLines depth
            expect "in"
            pure (.cases subject (← arms depth))
        | _ =>
            let (assignments, words, rs) ← simple depth
            if assignments.isEmpty && words.isEmpty && rs.isEmpty then failure
            pure (.simple assignments words rs)

/-- Commands joined by pipes. -/
def pipeline : Nat → Parser (List Command)
  | 0 => failure
  | depth + 1 => do
      let first ← command depth
      skipBlanks depth
      if (← peek) == some '|' && (← get)[1]? != some '|' then
        advance
        skipLines depth
        pure (first :: (← pipeline depth))
      else pure [first]

/-- A list of commands that follow something. -/
def steps (operator : Operator) : Nat → Parser Script
  | 0 => failure
  | depth + 1 => do
      skipBlanks depth
      let negated := (← nextWord) == "!"
      if negated then advance
      let commands ← pipeline depth
      let step := Step.mk operator negated commands
      skipBlanks depth
      if ← takeIf "&&" then
        skipLines depth
        pure (step :: (← steps .and depth))
      else if ← takeIf "||" then
        skipLines depth
        pure (step :: (← steps .or depth))
      else if (← get).take 2 == [';', ';'] then pure [step]
      else if (← takeIf ";") || (← takeIf "\n") then pure (step :: (← script depth))
      else pure [step]

/-- A list of commands, up to something that ends it. -/
def script : Nat → Parser Script
  | 0 => failure
  | depth + 1 => do
      skipLines depth
      match ← peek with
      | none | some ')' | some ';' => pure []
      | some _ => if isCloser (← nextWord) then pure [] else steps .next depth

end

end Parser

/-- Read a whole script. -/
def parse (text : String) : Option Script := do
  let chars := text.toList
  let (s, rest) ← (Parser.script (8 * chars.length + 8)).run chars
  if rest.isEmpty then some s else none

/-- Whether quotes are still open behind a text, given the quote that is open in
front of it. -/
def hasOpenQuote : Option Char → List Char → Bool
  | quote, [] => quote.isSome
  | some '\'', '\'' :: rest => hasOpenQuote none rest
  | some '\'', _ :: rest => hasOpenQuote (some '\'') rest
  | quote, '\\' :: _ :: rest => hasOpenQuote quote rest
  | some q, c :: rest => hasOpenQuote (if c == q then none else some q) rest
  | none, c :: rest => hasOpenQuote (if c == '"' || c == '\'' then some c else none) rest

/-- What is wrong with a script that cannot be read. -/
def syntaxFault (text : String) : String :=
  if hasOpenQuote none text.toList then "Syntax error: Unterminated quoted string"
  else "Syntax error: end of file unexpected"

end EditMining.Shell
