import EditMining.Error
import EditMining.Json.Fields

/-!
# Reserved names

Some names say the same in every program: keywords, the names a language brings
along, and methods that everything has. They are never abstracted. More such
names can be given one by one, or in a dictionary, a file that holds a JSON
array of names.
-/

namespace EditMining

/-- Words with a meaning in the grammar. -/
def keywords : List String :=
  ["False", "None", "True", "and", "as", "assert", "async", "await", "break", "class",
    "continue", "def", "del", "elif", "else", "except", "finally", "for", "from", "global", "if",
    "import", "in", "is", "lambda", "nonlocal", "not", "or", "pass", "raise", "return", "try",
    "while", "with", "yield"]

/-- Functions, types and exceptions that every program can use. -/
def builtinNames : List String :=
  ["abs", "aiter", "all", "anext", "any", "ascii", "bin", "bool", "breakpoint", "bytearray",
    "bytes", "callable", "chr", "classmethod", "compile", "complex", "copyright", "credits",
    "delattr", "dict", "dir", "divmod", "enumerate", "eval", "exec", "exit", "filter", "float",
    "format", "frozenset", "getattr", "globals", "hasattr", "hash", "help", "hex", "id", "input",
    "int", "isinstance", "issubclass", "iter", "len", "license", "list", "locals", "map", "max",
    "memoryview", "min", "next", "object", "oct", "open", "ord", "pow", "print", "property",
    "quit", "range", "repr", "reversed", "round", "set", "setattr", "slice", "sorted",
    "staticmethod", "str", "sum", "super", "tuple", "type", "vars", "zip", "__build_class__",
    "__debug__", "__doc__", "__import__", "__loader__", "__name__", "__package__", "__spec__",
    "Ellipsis", "NotImplemented", "ArithmeticError", "AssertionError", "AttributeError",
    "BaseException", "BaseExceptionGroup", "BlockingIOError", "BrokenPipeError", "BufferError",
    "BytesWarning", "ChildProcessError", "ConnectionAbortedError", "ConnectionError",
    "ConnectionRefusedError", "ConnectionResetError", "DeprecationWarning", "EOFError",
    "EncodingWarning", "EnvironmentError", "Exception", "ExceptionGroup", "FileExistsError",
    "FileNotFoundError", "FloatingPointError", "FutureWarning", "GeneratorExit", "IOError",
    "ImportError", "ImportWarning", "IndentationError", "IndexError", "InterruptedError",
    "IsADirectoryError", "KeyError", "KeyboardInterrupt", "LookupError", "MemoryError",
    "ModuleNotFoundError", "NameError", "NotADirectoryError", "NotImplementedError", "OSError",
    "OverflowError", "PendingDeprecationWarning", "PermissionError", "ProcessLookupError",
    "RecursionError", "ReferenceError", "ResourceWarning", "RuntimeError", "RuntimeWarning",
    "StopAsyncIteration", "StopIteration", "SyntaxError", "SyntaxWarning", "SystemError",
    "SystemExit", "TabError", "TimeoutError", "TypeError", "UnboundLocalError",
    "UnicodeDecodeError", "UnicodeEncodeError", "UnicodeError", "UnicodeTranslateError",
    "UnicodeWarning", "UserWarning", "ValueError", "Warning", "ZeroDivisionError"]

/-- Methods that say nothing about what they belong to. -/
def genericMethods : List String :=
  ["__init__", "__str__", "__repr__", "append", "extend", "pop", "clear", "update", "dispose",
    "cancel", "close", "get", "set", "validate", "check"]

/-- Names that are never abstracted, each once. -/
structure ReservedNames where
  names : List String
  deriving DecidableEq, Inhabited, Repr

/-- Where names are abstracted, which ones are not. -/
structure AbstractionSettings where
  extraReservedNames : List String
  dictionaryPath : Option String
  normalizesFunctionNames : Bool
  deriving DecidableEq, Inhabited, Repr

namespace ReservedNames

/-- Add names that are not there yet. -/
def add (r : ReservedNames) (names : List String) : ReservedNames :=
  ⟨(r.names ++ names).eraseDups⟩

/-- The names that are reserved without being asked for. -/
def builtin : ReservedNames :=
  (⟨[]⟩ : ReservedNames).add (keywords ++ builtinNames ++ genericMethods)

def contains (r : ReservedNames) (name : String) : Bool :=
  r.names.contains name

def size (r : ReservedNames) : Nat :=
  r.names.length

/-- Read a file of names. -/
def readDictionary (readFile : String → Except StorageFault String) (path : String) :
    Result (List String) :=
  match readFile path with
  | .error fault => .error (.io ("Failed to read dictionary: " ++ path) fault)
  | .ok text =>
      match Json.decode (Json.asList Json.asString) text with
      | some names => .ok names
      | none =>
          .error
            (.config ("Dictionary " ++ path ++ " is not a JSON array of names")
              (some "abstraction.dictionary_path"))

/-- The names that some settings reserve. -/
def ofSettings (readFile : String → Except StorageFault String) (s : AbstractionSettings) :
    Result ReservedNames := do
  let reserved := builtin.add s.extraReservedNames
  match s.dictionaryPath with
  | none => .ok reserved
  | some path => do
      let names ← readDictionary readFile path
      .ok (reserved.add names)

end ReservedNames

end EditMining
