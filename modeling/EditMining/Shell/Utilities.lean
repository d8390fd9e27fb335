import EditMining.Arithmetic
import EditMining.Shell.Format
import EditMining.Shell.Glob
import EditMining.Shell.Machine

/-!
# Utilities

The programs that scripts call. What a utility does depends on its arguments, on
what it reads, and on the files that are there; it gives what it writes, how it
ends, and how long that takes.
-/

namespace EditMining.Shell

/-- What a utility does. -/
structure Effect where
  out : Bytes
  complaints : List String
  status : Nat
  /-- How long it takes, in milliseconds. -/
  duration : Nat
  deriving Inhabited

namespace Effect

/-- An end with a status and nothing else. -/
def silent (status : Nat) : Effect :=
  ⟨[], [], status, 0⟩

def writing (out : Bytes) : Effect :=
  ⟨out, [], 0, 0⟩

def failing (status : Nat) (complaint : String) : Effect :=
  ⟨[], [complaint], status, 0⟩

/-- An end that says whether something holds. -/
def deciding (holds : Bool) : Effect :=
  silent (if holds then 0 else 1)

end Effect

/-- A refusal in words. -/
def describe : StorageFault → String
  | .notFound => "No such file or directory"
  | .isDirectory => "Is a directory"
  | .notADirectory => "Not a directory"
  | .alreadyExists => "File exists"
  | .invalidText => "Invalid or incomplete multibyte or wide character"
  | .other description => description

/-- What stands in a file that is named as an argument. -/
def readArgument (files : FileTree) (input : Bytes) (path : String) : Except StorageFault Bytes :=
  match path with
  | "-" | "/dev/stdin" => .ok input
  | "/dev/null" => .ok []
  | _ => (files.read path).map bytesOf

/-- What stands in some files, or what there is to read if none is named. -/
def concatenate (files : FileTree) (input : Bytes) (arguments : List Bytes) : Effect :=
  if arguments.isEmpty then .writing input
  else
    arguments.foldl (fun e argument =>
      let path := textOf argument
      match readArgument files input path with
      | .ok bytes => { e with out := e.out ++ bytes }
      | .error fault =>
          { e with status := 1, complaints := e.complaints ++ [path ++ ": " ++ describe fault] })
      (.silent 0)

/-! ## Conditions -/

/-- Whether a condition on one value holds, if there is such a condition. -/
def unaryTest? (files : FileTree) (op value : String) : Option Bool :=
  let entry : Option FileEntry := match files.locate value with
    | .ok place => files.entry? place
    | .error _ => none
  match op with
  | "-n" => some (value != "")
  | "-z" => some (value == "")
  | "-e" | "-r" | "-w" => some (entry.isSome || value == "/dev/null")
  | "-f" => some (match entry with
      | some (.file _) => true
      | _ => false)
  | "-d" | "-x" => some (entry == some .directory)
  | "-s" => some (match entry with
      | some (.file text) => text != ""
      | some .directory => true
      | none => false)
  | "-L" | "-h" | "-t" | "-p" | "-S" | "-b" | "-c" => some false
  | _ => none

/-- Whether two integers compare as asked, if that can be asked. -/
def integerTest? (op : String) : Option (Int → Int → Bool) :=
  match op with
  | "-eq" => some fun a b => a == b
  | "-ne" => some fun a b => a != b
  | "-lt" => some fun a b => decide (a < b)
  | "-le" => some fun a b => decide (a ≤ b)
  | "-gt" => some fun a b => decide (b < a)
  | "-ge" => some fun a b => decide (b ≤ a)
  | _ => none

/-- Whether two values compare as asked. -/
def binaryTest (a op b : String) : Except String Bool :=
  match op with
  | "=" => .ok (a == b)
  | "!=" => .ok (a != b)
  | "<" => .ok (decide (a < b))
  | ">" => .ok (decide (b < a))
  | _ =>
      match integerTest? op with
      | none => .error (op ++ ": unexpected operator")
      | some compare =>
          match Format.readInteger a.toList, Format.readInteger b.toList with
          | some x, some y => .ok (compare x y)
          | none, _ => .error ("Illegal number: " ++ a)
          | _, none => .error ("Illegal number: " ++ b)

/-- Whether a condition holds. -/
def test (files : FileTree) : List String → Except String Bool
  | [] => .ok false
  | [value] => .ok (value != "")
  | ["!", value] => .ok (value == "")
  | [op, value] =>
      match unaryTest? files op value with
      | some holds => .ok holds
      | none => .error (op ++ ": unexpected operator")
  | ["!", op, value] => (test files [op, value]).map (!·)
  | [a, op, b] => if op == "-a" then .ok (a != "" && b != "")
      else if op == "-o" then .ok (a != "" || b != "")
      else binaryTest a op b
  | "!" :: rest => (test files rest).map (!·)
  | a :: b :: "-a" :: rest => do
      let first ← test files [a, b]
      .ok (first && (← test files rest))
  | a :: b :: "-o" :: rest => do
      let first ← test files [a, b]
      .ok (first || (← test files rest))
  | a :: b :: c :: "-a" :: rest => do
      let first ← test files [a, b, c]
      .ok (first && (← test files rest))
  | a :: b :: c :: "-o" :: rest => do
      let first ← test files [a, b, c]
      .ok (first || (← test files rest))
  | _ :: op :: _ => .error (op ++ ": unexpected operator")
termination_by arguments => arguments.length

def testEffect (files : FileTree) (arguments : List String) : Effect :=
  match test files arguments with
  | .ok holds => .deciding holds
  | .error complaint => .failing 2 complaint

/-! ## Other utilities -/

/-- A span of time: digits, perhaps with a point, and a unit. -/
def readSpan (text : List Char) : Option Nat :=
  let whole := text.takeWhile Char.isDigit
  let rest := text.drop whole.length
  let (fraction, rest) := match rest with
    | '.' :: rest => (rest.takeWhile Char.isDigit, rest.dropWhile Char.isDigit)
    | rest => ([], rest)
  let unit : Option Nat := match rest with
    | [] | ['s'] => some 1
    | ['m'] => some 60
    | ['h'] => some 3600
    | ['d'] => some 86400
    | _ => none
  if whole.isEmpty && fraction.isEmpty then none
  else
    unit.map fun u =>
      Nat.ofDigitChars 10 (whole ++ fraction) 0 * u * 1000 / 10 ^ fraction.length

def sleep (arguments : List String) : Effect :=
  if arguments.isEmpty then .failing 1 "missing operand"
  else
    match arguments.mapM fun a => readSpan a.toList with
    | some spans => { Effect.silent 0 with duration := spans.sum }
    | none => .failing 1 "invalid time interval"

/-- The lines of some bytes, without their ends. -/
def linesOf (bytes : Bytes) : List Bytes :=
  let (open', closed) := bytes.foldl (fun (line, done) b =>
    if b == 0x0A then ([], line.reverse :: done) else (b :: line, done))
    (([] : Bytes), ([] : List Bytes))
  (if open'.isEmpty then closed else open'.reverse :: closed).reverse

def unlines (lines : List Bytes) : Bytes :=
  lines.flatMap (· ++ [0x0A])

/-- The parts of a pattern for lines: a point stands for any byte, and with a star
behind it for any number of them. -/
def lineParts : List Char → List Glob
  | '.' :: '*' :: rest => .many :: lineParts rest
  | '.' :: rest => .one :: lineParts rest
  | '\\' :: c :: rest => .literal c.toNat.toUInt8 :: lineParts rest
  | c :: rest => .literal c.toNat.toUInt8 :: lineParts rest
  | [] => []

/-- A pattern that is looked for within lines. -/
def lineGlob (isFixed : Bool) (pattern : Bytes) : List Glob :=
  let chars := toChars pattern
  if isFixed then .many :: pattern.map Glob.literal ++ [.many]
  else
    let atStart := chars.head? == some '^'
    let atEnd := chars.getLast? == some '$'
    let inner := if atStart then chars.drop 1 else chars
    let inner := if atEnd then inner.dropLast else inner
    (if atStart then [] else [.many]) ++ lineParts inner ++ (if atEnd then [] else [.many])

/-- Look for lines that match a pattern. -/
def grep (files : FileTree) (input : Bytes) (arguments : List Bytes) : Effect :=
  let isOption (a : Bytes) : Bool := a.length > 1 && a.head? == some 0x2D
  let options := (arguments.takeWhile isOption).flatMap fun a => toChars (a.drop 1)
  match arguments.dropWhile isOption with
  | [] => .failing 2 "no pattern"
  | pattern :: paths =>
      let glob := lineGlob (options.contains 'F') pattern
      let text := concatenate files input paths
      let found := (linesOf text.out).filter fun line =>
        Glob.isMatch glob line != options.contains 'v'
      let out :=
        if options.contains 'q' then []
        else if options.contains 'c' then bytesOf (found.length.repr ++ "\n")
        else unlines found
      let status := if found.isEmpty then 1 else 0
      { text with out := out, status := if text.status == 0 then status else 2 }

/-- The first lines of something. -/
def headLines (files : FileTree) (input : Bytes) (arguments : List Bytes) : Effect :=
  let (count, paths) := match arguments with
    | [0x2D, 0x6E] :: n :: paths => (Nat.ofDigitChars 10 (toChars n) 0, paths)
    | (0x2D :: n) :: paths => (Nat.ofDigitChars 10 ((toChars n).filter Char.isDigit) 0, paths)
    | paths => (10, paths)
  let text := concatenate files input paths
  { text with out := unlines ((linesOf text.out).take count) }

/-- The last lines of something. -/
def tailLines (files : FileTree) (input : Bytes) (arguments : List Bytes) : Effect :=
  let (count, paths) := match arguments with
    | [0x2D, 0x6E] :: n :: paths => (Nat.ofDigitChars 10 (toChars n) 0, paths)
    | (0x2D :: n) :: paths => (Nat.ofDigitChars 10 ((toChars n).filter Char.isDigit) 0, paths)
    | paths => (10, paths)
  let text := concatenate files input paths
  let lines := linesOf text.out
  { text with out := unlines (lines.drop (lines.length - count)) }

/-- How many words there are: runs of bytes without blanks. -/
def countWords (bytes : Bytes) : Nat :=
  let isBlank (b : UInt8) : Bool := b == 0x20 || (0x09 ≤ b && b ≤ 0x0D)
  let (count, _) := bytes.foldl (fun (n, inside) b =>
    if isBlank b then (n, false) else (if inside then n else n + 1, true)) (0, false)
  count

/-- The numbers of lines, words and bytes, as far as they are asked for. -/
def countsOf (letters : List Char) (bytes : Bytes) : List Nat :=
  let isAsked (letter : Char) : Bool := letters.isEmpty || letters.contains letter
  (if isAsked 'l' then [bytes.countP (· == 0x0A)] else [])
    ++ (if isAsked 'w' then [countWords bytes] else [])
    ++ (if isAsked 'c' then [bytes.length] else [])

/-- Some numbers, each filled up to a width, and what they belong to. -/
def countLine (width : Nat) (counts : List Nat) (name : List String) : Bytes :=
  let columns := counts.map fun n => "".pushn ' ' (width - n.repr.length) ++ n.repr
  bytesOf (" ".intercalate (columns ++ name) ++ "\n")

/-- Count lines, words or bytes of each file, and of all together if there are
several. -/
def countText (files : FileTree) (input : Bytes) (arguments : List Bytes) : Effect :=
  let (options, paths) := arguments.partition fun a => a.length > 1 && a.head? == some 0x2D
  let letters := options.flatMap fun a => toChars (a.drop 1)
  let all := concatenate files input paths
  let total := countsOf letters all.out
  let width :=
    if total.length == 1 && paths.length ≤ 1 then 1
    else if paths.isEmpty then 7
    else all.out.length.repr.length
  let lines := paths.filterMap fun path =>
    (readArgument files input (textOf path)).toOption.map fun bytes =>
      countLine width (countsOf letters bytes) [textOf path]
  let last := match paths with
    | [] => [countLine width total []]
    | [_] => []
    | _ => [countLine width total ["total"]]
  { all with out := (lines ++ last).flatten }

/-- The name behind the last separator of a path. -/
def baseName (path : List Char) : List Char :=
  let trimmed := (path.reverse.dropWhile (· == '/')).reverse
  if trimmed.isEmpty then path.take 1 else (trimmed.reverse.takeWhile (· != '/')).reverse

def baseNameEffect : List Bytes → Effect
  | path :: suffixes =>
      let name := baseName (toChars path)
      let ending := (suffixes.head?.map toChars).getD []
      let name :=
        if ending.isSuffixOf name && ending.length < name.length then
          name.take (name.length - ending.length)
        else name
      .writing (ofChars (name ++ ['\n']))
  | [] => .failing 1 "missing operand"

/-- The path of the directory that something is in. -/
def directoryName (path : List Char) : List Char :=
  let isSeparator (c : Char) : Bool := c == '/'
  let trimmed := path.reverse.dropWhile isSeparator
  let above := trimmed.dropWhile fun c => !isSeparator c
  match above with
  | [] => if trimmed.isEmpty && !path.isEmpty then ['/'] else ['.']
  | above =>
      match above.dropWhile isSeparator with
      | [] => ['/']
      | above => above.reverse

def directoryNameEffect (arguments : List Bytes) : Effect :=
  if arguments.isEmpty then .failing 1 "missing operand"
  else .writing (arguments.flatMap fun a => ofChars (directoryName (toChars a) ++ ['\n']))

/-- What a utility does with the files, its input and its arguments. -/
abbrev Utility := FileTree → Bytes → List Bytes → Effect

/-- The utilities that are part of a shell. -/
def builtIn? (name : String) : Option Utility :=
  match name with
  | ":" | "true" => some fun _ _ _ => .silent 0
  | "false" => some fun _ _ _ => .silent 1
  | "echo" => some fun _ _ arguments => .writing (Format.echo arguments)
  | "printf" => some fun _ _ arguments =>
      match arguments with
      | [] => .failing 2 "usage: printf format [arg ...]"
      | format :: rest =>
          let (out, complaints) := Format.print format rest
          ⟨out, complaints, if complaints.isEmpty then 0 else 1, 0⟩
  | "test" => some fun files _ arguments => testEffect files (arguments.map textOf)
  | "[" => some fun files _ arguments =>
      if arguments.getLast? == some [0x5D] then
        testEffect files (arguments.dropLast.map textOf)
      else .failing 2 "missing ]"
  | _ => none

/-- The utilities that are programs of their own and nothing else. -/
def external? (name : String) : Option Utility :=
  match name with
  | "cat" => some concatenate
  | "sleep" => some fun _ _ arguments => sleep (arguments.map textOf)
  | "grep" => some grep
  | "head" => some headLines
  | "tail" => some tailLines
  | "wc" => some countText
  | "basename" => some fun _ _ arguments => baseNameEffect arguments
  | "dirname" => some fun _ _ arguments => directoryNameEffect arguments
  | _ => none

/-- The name of a utility without the directory that programs are kept in. -/
def programName (path : String) : String :=
  (["/bin/", "/usr/bin/"].findSome? fun directory =>
    (List.isPrefixOf? directory.toList path.toList).map String.ofList).getD path

/-- The utilities that can be called as programs. -/
def program? (path : String) : Option Utility :=
  let name := programName path
  if name == ":" then none else external? name <|> builtIn? name

/-- Programs that run scripts. -/
def isShell (path : String) : Bool :=
  ["sh", "dash", "bash"].contains (programName path)

end EditMining.Shell
