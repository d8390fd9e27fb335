import EditMining.Error

/-!
# Tagged tokens

An edit is described by the tokens before it and the tokens after it. A tagged
token has a text and a `Polarity`: it was *removed*, it was *added*, or it was
*kept*. Its written form is the sign of the polarity followed by the text.

Tokens are ordered by polarity and then by text, character by character. Since
polarities are ordered as their signs are, this is also the order of the
written forms.
-/

namespace EditMining

/-- Whether a token is there only after an edit, only before it, or both. -/
inductive Polarity where
  | added
  | removed
  | kept
  deriving DecidableEq, Inhabited, Repr

namespace Polarity

/-- The sign in front of a written token. -/
def symbol : Polarity → Char
  | .added => '+'
  | .removed => '-'
  | .kept => '='

def ofSymbol? : Char → Option Polarity
  | '+' => some .added
  | '-' => some .removed
  | '=' => some .kept
  | _ => none

/-- Part of the picture before the edit. -/
def inTrigger : Polarity → Bool
  | .added => false
  | .removed | .kept => true

/-- Part of the picture after the edit. -/
def inChange : Polarity → Bool
  | .removed => false
  | .added | .kept => true

/-- The place of a polarity in the order of the signs. -/
def rank : Polarity → Nat
  | .added => 0
  | .removed => 1
  | .kept => 2

instance : Ord Polarity := ⟨compareOn rank⟩

theorem ofSymbol?_symbol (p : Polarity) : ofSymbol? p.symbol = some p := by
  cases p <;> rfl

theorem symbol_of_ofSymbol? {c : Char} {p : Polarity} (h : ofSymbol? c = some p) :
    p.symbol = c := by
  unfold ofSymbol? at h
  split at h
  · cases h; rfl
  · cases h; rfl
  · cases h; rfl
  · cases h

theorem rank_injective {p q : Polarity} (h : p.rank = q.rank) : p = q := by
  cases p <;> cases q <;> simp_all [rank]

end Polarity

/-- A piece of code that an edit removed, added or kept. -/
structure Token where
  polarity : Polarity
  text : String
  deriving DecidableEq, Inhabited, Repr

namespace Token

instance : Ord Token :=
  ⟨fun a b => (compare a.polarity b.polarity).then (compare a.text b.text)⟩

/-- The written form of a token. -/
def render (t : Token) : String :=
  String.ofList (t.polarity.symbol :: t.text.toList)

/-- The failure on a text that does not begin with a sign. -/
def missingSign (raw : String) : Error :=
  .mismatch "Token is missing its polarity prefix" "token" "one of '+', '-', '='" raw

/-- Read a written token. -/
def parse (raw : String) : Result Token :=
  match raw.toList with
  | [] => .error (missingSign raw)
  | c :: text =>
      match Polarity.ofSymbol? c with
      | some p => .ok ⟨p, String.ofList text⟩
      | none => .error (missingSign raw)

/-- The length of the written form in characters. -/
def renderedLength (t : Token) : Nat :=
  1 + t.text.length

theorem parse_render (t : Token) : parse t.render = .ok t := by
  simp [parse, render, Polarity.ofSymbol?_symbol]

theorem render_of_parse {raw : String} {t : Token} (h : parse raw = .ok t) : t.render = raw := by
  unfold parse at h
  split at h
  · simp at h
  · next c text hraw =>
      split at h
      · next p hp =>
          simp only [Except.ok.injEq] at h
          rw [← h, render, String.toList_ofList, Polarity.symbol_of_ofSymbol? hp, ← hraw,
            String.ofList_toList]
      · simp at h

end Token

end EditMining
