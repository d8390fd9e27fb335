/-!
# UTF-8

Bytes are read as characters from the left. A character is one to four bytes
long: its first byte says how many follow and, for some, narrows the range of
the second, so that no character has two forms and none is a surrogate.

Where reading fails, the bytes up to the one that cannot belong to any character
are *invalid*; at the end of the bytes a character may also be *incomplete*.

A stretch of a text can be told by its bytes. It is one only if no character is cut
at either of its ends.
-/

namespace EditMining.Text.Utf8

/-- What some bytes begin with. -/
inductive Head where
  | character (c : Char) (width : Nat)
  /-- Bytes that begin no character. -/
  | invalid (width : Nat)
  /-- Bytes that begin a character whose end is missing. -/
  | incomplete
  deriving DecidableEq, Repr

/-- A first byte: how many bytes follow, the range of the next one, and the bits
that the first one gives. -/
structure Lead where
  following : Nat
  least : Nat
  most : Nat
  bits : Nat
  deriving DecidableEq, Repr

/-- The meaning of a first byte. -/
def lead? (b : Nat) : Option Lead :=
  if b < 0x80 then some ⟨0, 0x80, 0xBF, b⟩
  else if b < 0xC2 then none
  else if b < 0xE0 then some ⟨1, 0x80, 0xBF, b - 0xC0⟩
  else if b = 0xE0 then some ⟨2, 0xA0, 0xBF, b - 0xE0⟩
  else if b = 0xED then some ⟨2, 0x80, 0x9F, b - 0xE0⟩
  else if b < 0xF0 then some ⟨2, 0x80, 0xBF, b - 0xE0⟩
  else if b = 0xF0 then some ⟨3, 0x90, 0xBF, b - 0xF0⟩
  else if b < 0xF4 then some ⟨3, 0x80, 0xBF, b - 0xF0⟩
  else if b = 0xF4 then some ⟨3, 0x80, 0x8F, b - 0xF0⟩
  else none

/-- The rest of a character of which `width` bytes are read. -/
def readFollowing (following least most bits width : Nat) (bytes : List UInt8) : Head :=
  match following, bytes with
  | 0, _ => .character (Char.ofNat bits) width
  | _ + 1, [] => .incomplete
  | n + 1, b :: rest =>
      if least ≤ b.toNat && b.toNat ≤ most then
        readFollowing n 0x80 0xBF (bits * 64 + (b.toNat - 0x80)) (width + 1) rest
      else .invalid width

/-- What a byte and those behind it begin with. -/
def head (b : UInt8) (rest : List UInt8) : Head :=
  match lead? b.toNat with
  | none => .invalid 1
  | some l => readFollowing l.following l.least l.most l.bits 1 rest

/-- Why bytes are not a text: where reading fails, and how many bytes are invalid
there; none are if the bytes end too early. -/
structure Fault where
  index : Nat
  width : Option Nat
  deriving DecidableEq, Inhabited, Repr

def Fault.message (f : Fault) : String :=
  match f.width with
  | some width =>
      "invalid utf-8 sequence of " ++ width.repr ++ " bytes from index " ++ f.index.repr
  | none => "incomplete utf-8 byte sequence from index " ++ f.index.repr

/-- The characters of bytes that follow `index` others. -/
def decodeFrom (index : Nat) : List UInt8 → Except Fault (List Char)
  | [] => .ok []
  | b :: rest =>
      match head b rest with
      | .character c width =>
          (decodeFrom (index + width) (rest.drop (width - 1))).map (c :: ·)
      | .invalid width => .error ⟨index, some width⟩
      | .incomplete => .error ⟨index, none⟩
termination_by bytes => bytes.length
decreasing_by
  simp only [List.length_drop, List.length_cons]
  omega

/-- The characters of some bytes. -/
def decode (bytes : List UInt8) : Except Fault (List Char) :=
  decodeFrom 0 bytes

/-- The characters of some bytes, with one replacement character for each stretch
that is none. -/
def decodeLossy : List UInt8 → List Char
  | [] => []
  | b :: rest =>
      match head b rest with
      | .character c width => c :: decodeLossy (rest.drop (width - 1))
      | .invalid width => '\uFFFD' :: decodeLossy (rest.drop (width - 1))
      | .incomplete => ['\uFFFD']
termination_by bytes => bytes.length
decreasing_by
  all_goals
    simp only [List.length_drop, List.length_cons]
    omega

/-- The number of bytes of a text. -/
def size (text : List Char) : Nat :=
  text.foldl (fun n c => n + c.utf8Size) 0

/-- The text behind so many bytes, if a character ends there. -/
def dropBytes? : Nat → List Char → Option (List Char)
  | 0, text => some text
  | _ + 1, [] => none
  | n + 1, c :: rest =>
      if c.utf8Size ≤ n + 1 then dropBytes? (n + 1 - c.utf8Size) rest else none

/-- So many bytes of a text, if a character ends there. -/
def takeBytes? : Nat → List Char → Option (List Char)
  | 0, _ => some []
  | _ + 1, [] => none
  | n + 1, c :: rest =>
      if c.utf8Size ≤ n + 1 then (takeBytes? (n + 1 - c.utf8Size) rest).map (c :: ·) else none

/-- The stretch of a text from one byte up to another. -/
def sliceBytes? (start stop : Nat) (text : List Char) : Option (List Char) :=
  if start ≤ stop then (dropBytes? start text).bind (takeBytes? (stop - start)) else none

end EditMining.Text.Utf8
