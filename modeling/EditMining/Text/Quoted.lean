import EditMining.Text.Printable

/-!
# Text shown in messages

A message that names a text puts it between double quotes, so that its ends can
be seen. Quotes and backslashes are escaped, characters that do not show are
written by their code point, and the rest stands as it is.
-/

namespace EditMining.Text

/-- The digits of a code point in base sixteen. -/
def hexDigits (n : Nat) : List Char :=
  Nat.toDigits 16 n

/-- One character as it is shown between double quotes. -/
def shownChar (c : Char) : List Char :=
  if c = '"' then ['\\', '"']
  else if c = '\\' then ['\\', '\\']
  else if c = '\n' then ['\\', 'n']
  else if c = '\r' then ['\\', 'r']
  else if c = '\t' then ['\\', 't']
  else if c = '\x00' then ['\\', '0']
  else if isPrintable c then [c]
  else '\\' :: 'u' :: '\x7b' :: hexDigits c.toNat ++ ['\x7d']

/-- A text between double quotes. -/
def shown (text : String) : String :=
  String.ofList ('"' :: text.toList.flatMap shownChar ++ ['"'])

/-- A list of texts, each between double quotes. -/
def shownList (texts : List String) : String :=
  "[" ++ ", ".intercalate (texts.map shown) ++ "]"

end EditMining.Text
