/-!
# The syntax of shell scripts

Oracle commands are often small shell scripts. The part of the language that is
understood here has commands with redirections, pipes, lists, conditionals,
loops and cases; and words with quotes, parameters and the output of commands.
-/

namespace EditMining.Shell

/-- Texts as they go through files and pipes. -/
abbrev Bytes := List UInt8

/-- The bytes of a text. -/
def bytesOf (text : String) : Bytes :=
  text.toUTF8.toList

/-- What is made of the value of a parameter. -/
inductive Modifier where
  | none
  | length
  /-- Remove something from the start or the end, as little or as much as
  possible. -/
  | trim (atEnd greedy : Bool)
  /-- Take something else for a parameter that is not set, or also for an empty
  one. -/
  | fallback (alsoEmpty : Bool)
  /-- Take something else for a parameter that is set. -/
  | alternative (alsoEmpty : Bool)
  deriving DecidableEq, Repr

inductive Operator where
  | next
  | and
  | or
  deriving DecidableEq, Repr

/-- Where a redirection leads to. -/
inductive RedirectKind where
  | read
  | write
  | append
  | duplicate
  deriving DecidableEq, Repr

mutual

/-- A part of a word. -/
inductive Part where
  | text (chars : List Char) (isQuoted : Bool)
  | parameter (name : String) (modifier : Modifier) (operand : List Part) (isQuoted : Bool)
  | substitution (script : List Step) (isQuoted : Bool)

/-- A redirection of one channel. -/
inductive Redirect where
  | mk (channel : Nat) (kind : RedirectKind) (target : List Part)

/-- A command. -/
inductive Command where
  | simple (assignments : List (String × List Part)) (words : List (List Part))
      (redirects : List Redirect)
  | group (body : List Step) (redirects : List Redirect)
  | subshell (body : List Step) (redirects : List Redirect)
  | conditional (branches : List (List Step × List Step)) (otherwise : List Step)
  | loop (isUntil : Bool) (condition body : List Step)
  | each (name : String) (words : Option (List (List Part))) (body : List Step)
  | cases (subject : List Part) (arms : List (List (List Part) × List Step))

/-- Commands joined by pipes, and how they follow what stands before them. -/
inductive Step where
  | mk (operator : Operator) (negated : Bool) (pipeline : List Command)

end

abbrev Word := List Part

abbrev Script := List Step

instance : Inhabited Part := ⟨.text [] false⟩
instance : Inhabited Command := ⟨.group [] []⟩

end EditMining.Shell
