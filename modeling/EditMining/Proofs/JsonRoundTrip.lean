import EditMining.Json.Fields
import EditMining.Json.Printer

/-!
# Documents read back

A document that is written and read again is the same document, as long as its
numbers are counts (`parse_pretty`).

Writing and reading meet in the lexemes. A document has its own sequence of them
(`lexemesOf`), which the printer spells out with white space in between and which
the reader takes as one value. So one half of the argument is about characters:
a written value, whatever is behind it, cuts into the lexemes of the value
(`lexemes_prettyChars`). Only numbers need to know what is behind them, because
nothing closes a number but a character that cannot be part of it. The other half
is about the stack of the reader: the lexemes of a value take it from wherever a
value may begin to where the value is complete (`run_lexemesOf`). Both go by
induction on the document.
-/

namespace EditMining.Json

open Decimal

/-! ## Documents whose numbers are counts -/

mutual

/-- Whether all numbers of a document are whole, not negative, and fit a word. -/
def hasCountsOnly : Json → Bool
  | .null | .bool _ | .string _ => true
  | .natural n => n < wordLimit
  | .negative _ | .real _ | .unreadable => false
  | .array items => haveCountsOnly items
  | .object members => membersHaveCountsOnly members

def haveCountsOnly : List Json → Bool
  | [] => true
  | v :: rest => hasCountsOnly v && haveCountsOnly rest

def membersHaveCountsOnly : List (String × Json) → Bool
  | [] => true
  | (_, v) :: rest => hasCountsOnly v && membersHaveCountsOnly rest

end

theorem haveCountsOnly_iff {items : List Json} :
    haveCountsOnly items = true ↔ ∀ v ∈ items, v.hasCountsOnly = true := by
  induction items with
  | nil => simp [haveCountsOnly]
  | cons v rest ih => simp [haveCountsOnly, ih]

/-! ## The lexemes of a document -/

mutual

def lexemesOf : Json → List Lexeme
  | .array [] => [.openBracket, .closeBracket]
  | .array (v :: rest) => .openBracket :: (lexemesOf v ++ itemLexemes rest)
  | .object [] => [.openBrace, .closeBrace]
  | .object ((key, v) :: rest) =>
      .openBrace :: .string (some key) :: .colon :: (lexemesOf v ++ memberLexemes rest)
  | .string s => [.string (some s)]
  | v => [.scalar v]

/-- The lexemes behind the first item of an array. -/
def itemLexemes : List Json → List Lexeme
  | [] => [.closeBracket]
  | v :: rest => .comma :: (lexemesOf v ++ itemLexemes rest)

/-- The lexemes behind the first member of an object. -/
def memberLexemes : List (String × Json) → List Lexeme
  | [] => [.closeBrace]
  | (key, v) :: rest =>
      .comma :: .string (some key) :: .colon :: (lexemesOf v ++ memberLexemes rest)

end

/-! ## Numbers -/

/-- What may stand behind a number. -/
def EndsNumber (rest : List Char) : Prop :=
  ∀ c ∈ rest.head?, c.isDigit = false ∧ c ≠ '.' ∧ c ≠ 'e' ∧ c ≠ 'E'

theorem endsNumber_nil : EndsNumber [] := by
  intro c hc
  nomatch hc

theorem endsNumber_cons {c : Char} (hc : c.isDigit = false ∧ c ≠ '.' ∧ c ≠ 'e' ∧ c ≠ 'E')
    (rest : List Char) : EndsNumber (c :: rest) := by
  intro d hd
  cases hd
  exact hc

theorem endsNumber_newLine (level : Nat) (rest : List Char) :
    EndsNumber (newLine level ++ rest) :=
  endsNumber_cons (by decide) _

theorem isDigit_of_mem_digits {n : Nat} {c : Char} (h : c ∈ digits n) : c.isDigit = true :=
  Nat.isDigit_of_mem_toDigits (by decide) (by decide) h

theorem digits_ne_nil (n : Nat) : digits n ≠ [] :=
  Nat.toDigits_ne_nil

theorem head?_digits_ne_zero {n : Nat} (h : 0 < n) : (digits n).head? ≠ some '0' := by
  induction n using Nat.strongRecOn with
  | ind n ih =>
      by_cases hsmall : n < 10
      · have hall : ∀ k < 10, 0 < k → [Nat.digitChar k].head? ≠ some '0' := by decide
        rw [digits, Nat.toDigits_of_lt_base hsmall]
        exact hall n hsmall h
      · have hfront := ih (n / 10) (by omega) (by omega)
        rw [digits, Nat.toDigits_of_base_le (by decide) (by omega), List.head?_append]
        cases hdigits : Nat.toDigits 10 (n / 10) with
        | nil => exact absurd hdigits (digits_ne_nil (n / 10))
        | cons d ds =>
            rw [digits, hdigits] at hfront
            exact hfront

theorem takeDigits_append {ds rest : List Char} (hne : ds ≠ [])
    (hds : ∀ c ∈ ds, c.isDigit = true) (hrest : EndsNumber rest) :
    takeDigits (ds ++ rest) = some (ds, rest) := by
  have htake : rest.takeWhile (·.isDigit) = [] ∧ rest.dropWhile (·.isDigit) = rest := by
    cases rest with
    | nil => exact ⟨rfl, rfl⟩
    | cons c rest => simp [(hrest c rfl).1]
  rw [takeDigits, List.takeWhile_append_of_pos hds, List.dropWhile_append_of_pos hds, htake.1,
    htake.2, List.append_nil]
  cases ds with
  | nil => exact absurd rfl hne
  | cons c ds => rfl

theorem takeWhole_digits (n : Nat) {rest : List Char} (hrest : EndsNumber rest) :
    takeWhole (digits n ++ rest) = some (digits n, rest) := by
  have hzero : ((digits n).head? == some '0' && (digits n).length != 1) = false := by
    rcases Nat.eq_zero_or_pos n with rfl | hpos
    · decide
    · rw [beq_eq_false_iff_ne.2 (head?_digits_ne_zero hpos), Bool.false_and]
  rw [takeWhole, takeDigits_append (digits_ne_nil n) (fun c => isDigit_of_mem_digits) hrest,
    Option.bind_some]
  simp only [hzero, Bool.false_eq_true, if_false]

theorem takeFraction_none {rest : List Char} (hrest : EndsNumber rest) :
    takeFraction rest = some (none, rest) := by
  rw [takeFraction.eq_def]
  split
  · exact absurd rfl (hrest '.' rfl).2.1
  · rfl

theorem takeExponent_none {rest : List Char} (hrest : EndsNumber rest) :
    takeExponent rest = some (none, rest) := by
  rw [takeExponent.eq_def]
  split
  · exact absurd rfl (hrest 'e' rfl).2.2.1
  · exact absurd rfl (hrest 'E' rfl).2.2.2
  · rfl

theorem takeNumber_digits {n : Nat} (hn : n < wordLimit) {rest : List Char}
    (hrest : EndsNumber rest) : takeNumber (digits n ++ rest) = some (.natural n, rest) := by
  have hvalue : NumberText.value ⟨false, digits n, none, none⟩ = .natural n := by
    rw [NumberText.value, ofDigits_digits]
    simp [Nat.not_le_of_lt hn]
  cases hds : digits n with
  | nil => exact absurd hds (digits_ne_nil n)
  | cons d ds =>
      have hdigit : d.isDigit = true := isDigit_of_mem_digits (hds ▸ List.mem_cons_self)
      have hminus : d ≠ '-' := by
        rintro rfl
        exact absurd hdigit (by decide)
      have hwhole := takeWhole_digits n hrest
      rw [hds, List.cons_append] at hwhole
      rw [hds] at hvalue
      rw [List.cons_append, takeNumber]
      · simp [hwhole, takeFraction_none hrest, takeExponent_none hrest, hvalue]
      · intro rest' heq
        exact hminus (List.cons.inj heq).1

/-! ## Strings -/

/-- A control character that no letter stands for behind a backslash. -/
def isUnnamedControl (c : Char) : Bool :=
  c.toNat < 0x20 && !(['\n', '\r', '\t', '\x08', '\x0c'].contains c)

/-- What is read for a character of a string. -/
def unitOf (c : Char) : StringUnit :=
  if isUnnamedControl c then .unit c.toNat else .char c

theorem hexValue_hexDigit {n : Nat} (h : n < 16) : hexValue (hexDigit n) = some n := by
  have hall : ∀ n < 16, hexValue (hexDigit n) = some n := by decide
  exact hall n h

theorem hexUnit_of_lt {n : Nat} (h : n < 0x20) :
    hexUnit '0' '0' (hexDigit (n / 16)) (hexDigit (n % 16)) = some n := by
  have hzero : hexValue '0' = some 0 := by decide
  simp only [hexUnit, hzero, hexValue_hexDigit (show n / 16 < 16 by omega),
    hexValue_hexDigit (show n % 16 < 16 by omega)]
  show some _ = some n
  congr 1
  omega

theorem takeUnits_escapeChar (c : Char) (rest : List Char) :
    takeUnits (escapeChar c ++ rest) =
      (takeUnits rest).map fun read => (unitOf c :: read.1, read.2) := by
  have hmap : ∀ u : StringUnit, ((takeUnits rest).bind fun read => some (u :: read.1, read.2)) =
      (takeUnits rest).map fun read => (u :: read.1, read.2) := by
    intro u
    cases takeUnits rest <;> rfl
  by_cases hnamed : c = '"' ∨ c = '\\' ∨ c = '\n' ∨ c = '\r' ∨ c = '\t' ∨ c = '\x08' ∨ c = '\x0c'
  · rcases hnamed with rfl | rfl | rfl | rfl | rfl | rfl | rfl <;> exact hmap _
  · simp only [not_or] at hnamed
    obtain ⟨hquote, hslash, hn, hr, ht, hb, hf⟩ := hnamed
    rw [escapeChar, if_neg hquote, if_neg hslash, if_neg hn, if_neg hr, if_neg ht, if_neg hb,
      if_neg hf, unitOf, isUnnamedControl]
    by_cases hcontrol : c.toNat < 0x20
    · have hunit := hexUnit_of_lt hcontrol
      rw [if_pos hcontrol]
      simpa [takeUnits, hunit, hcontrol, hn, hr, ht, hb, hf] using hmap (.unit c.toNat)
    · rw [if_neg hcontrol]
      simpa [takeUnits, hcontrol, hslash] using hmap (.char c)

theorem takeUnits_quoted (cs rest : List Char) :
    takeUnits (cs.flatMap escapeChar ++ '"' :: rest) = some (cs.map unitOf, rest) := by
  induction cs with
  | nil => rfl
  | cons c cs ih =>
      rw [List.flatMap_cons, List.append_assoc, takeUnits_escapeChar, ih]
      rfl

theorem unitsText_unit_cons {n : Nat} (hn : n < 0xD800) (rest : List StringUnit) :
    unitsText (.unit n :: rest) = (unitsText rest).map (Char.ofNat n :: ·) := by
  have hhigh : ¬ 0xD800 ≤ n := by omega
  have hlow : ¬ 0xDC00 ≤ n := by omega
  rcases rest with _ | ⟨c | low, rest⟩
  · simp [unitsText, hhigh]
  · simp [unitsText, hhigh]
  · simp [unitsText, hhigh, hlow]

/-- No unit that is written is half of a surrogate pair. -/
theorem unitsText_map_unitOf (cs : List Char) : unitsText (cs.map unitOf) = some cs := by
  induction cs with
  | nil => rfl
  | cons c cs ih =>
      rw [List.map_cons, unitOf]
      split
      · next hcontrol =>
          rw [isUnnamedControl, Bool.and_eq_true, decide_eq_true_eq] at hcontrol
          rw [unitsText_unit_cons (by omega), ih, Char.ofNat_toNat]
          rfl
      · rw [unitsText, ih]
        rfl

theorem takeLiteral_quote (s : String) (rest : List Char) :
    takeLiteral (quote s ++ rest) = some (.string (some s), rest) := by
  rw [quote, List.cons_append, List.append_assoc, takeLiteral, takeString]
  rw [List.cons_append, List.nil_append, takeUnits_quoted, Option.map_some]
  dsimp only
  rw [unitsText_map_unitOf, Option.map_some, String.ofList_toList]

theorem takeLiteral_digits {n : Nat} (hn : n < wordLimit) {rest : List Char}
    (hrest : EndsNumber rest) :
    takeLiteral (digits n ++ rest) = some (.scalar (.natural n), rest) := by
  have hnumber := takeNumber_digits hn hrest
  cases hds : digits n with
  | nil => exact absurd hds (digits_ne_nil n)
  | cons d ds =>
      have hdigit : d.isDigit = true := isDigit_of_mem_digits (hds ▸ List.mem_cons_self)
      rw [hds] at hnumber
      rw [List.cons_append] at hnumber ⊢
      rw [takeLiteral, hnumber, Option.map_some]
      all_goals
        intro rest' heq
        rw [(List.cons.inj heq).1] at hdigit
        exact absurd hdigit (by decide)

/-! ## Cutting into lexemes -/

theorem lexemes_space {c : Char} (hc : isSpace c = true) (rest : List Char) :
    lexemes (c :: rest) = lexemes rest := by
  rw [lexemes, if_pos hc]

theorem lexemes_newLine (level : Nat) (rest : List Char) :
    lexemes (newLine level ++ rest) = lexemes rest := by
  rw [newLine, List.cons_append, lexemes_space (by decide)]
  induction 2 * level with
  | zero => rfl
  | succ n ih => rw [List.replicate_succ, List.cons_append, lexemes_space (by decide), ih]

theorem lexemes_punctuation {c : Char} {mark : Lexeme} (hspace : isSpace c = false)
    (hc : punctuation c = some mark) (rest : List Char) :
    lexemes (c :: rest) = (lexemes rest).map (mark :: ·) := by
  rw [lexemes, if_neg (by rw [hspace]; exact Bool.false_ne_true), hc]

theorem lexemes_literal {c : Char} {literal : Lexeme} {text behind : List Char}
    (hspace : isSpace c = false) (hc : punctuation c = none)
    (htake : takeLiteral (c :: text) = some (literal, behind)) :
    lexemes (c :: text) = (lexemes behind).map (literal :: ·) := by
  rw [lexemes, if_neg (by rw [hspace]; exact Bool.false_ne_true), hc]
  dsimp only
  split
  · next hnone =>
      rw [htake] at hnone
      cases hnone
  · next heq =>
      rw [htake] at heq
      cases heq
      rfl

theorem lexemes_quote (s : String) (rest : List Char) :
    lexemes (quote s ++ rest) = (lexemes rest).map (.string (some s) :: ·) :=
  lexemes_literal (by decide) (by decide) (takeLiteral_quote s rest)

theorem isSpace_of_isDigit {c : Char} (h : c.isDigit = true) : isSpace c = false := by
  refine Bool.eq_false_iff.2 fun hspace => ?_
  simp only [isSpace, Bool.or_eq_true, beq_iff_eq] at hspace
  rcases hspace with ((rfl | rfl) | rfl) | rfl <;> exact absurd h (by decide)

theorem punctuation_of_isDigit {c : Char} (h : c.isDigit = true) : punctuation c = none := by
  rw [punctuation.eq_def]
  split <;> first | rfl | exact absurd h (by decide)

theorem lexemes_digits {n : Nat} (hn : n < wordLimit) {rest : List Char}
    (hrest : EndsNumber rest) :
    lexemes (digits n ++ rest) = (lexemes rest).map (.scalar (.natural n) :: ·) := by
  have htake := takeLiteral_digits hn hrest
  cases hds : digits n with
  | nil => exact absurd hds (digits_ne_nil n)
  | cons d ds =>
      have hdigit : d.isDigit = true := isDigit_of_mem_digits (hds ▸ List.mem_cons_self)
      rw [hds, List.cons_append] at htake
      exact lexemes_literal (isSpace_of_isDigit hdigit) (punctuation_of_isDigit hdigit) htake

theorem endsNumber_prettyItems (level : Nat) (items : List Json) (rest : List Char) :
    EndsNumber (prettyItems (level + 1) items ++ (newLine level ++ rest)) := by
  cases items with
  | nil => exact endsNumber_newLine level rest
  | cons v items => exact endsNumber_cons (by decide) _

theorem endsNumber_prettyMembers (level : Nat) (members : List (String × Json))
    (rest : List Char) :
    EndsNumber (prettyMembers (level + 1) members ++ (newLine level ++ rest)) := by
  cases members with
  | nil => exact endsNumber_newLine level rest
  | cons member members => exact endsNumber_cons (by decide) _

/-- The lexemes of a key and of the colon behind it. -/
theorem lexemes_key (key : String) (rest : List Char) :
    lexemes (quote key ++ (": ".toList ++ rest)) =
      (lexemes rest).map fun ls => .string (some key) :: .colon :: ls := by
  have hcolon : ": ".toList = [':', ' '] := by decide
  rw [lexemes_quote, hcolon, List.cons_append, lexemes_punctuation (by decide) rfl,
    List.cons_append, lexemes_space (by decide), List.nil_append, Option.map_map]
  rfl

mutual

/-- A written value, whatever is behind it, cuts into its own lexemes. -/
theorem lexemes_prettyChars (level : Nat) : ∀ (v : Json) (rest : List Char),
    v.hasCountsOnly = true → EndsNumber rest →
      lexemes (prettyChars level v ++ rest) = (lexemes rest).map (lexemesOf v ++ ·)
  | .null, rest, _, _ => lexemes_literal (by decide) (by decide) rfl
  | .bool true, rest, _, _ => lexemes_literal (by decide) (by decide) rfl
  | .bool false, rest, _, _ => lexemes_literal (by decide) (by decide) rfl
  | .natural n, rest, hv, hrest => lexemes_digits (of_decide_eq_true hv) hrest
  | .string s, rest, _, _ => lexemes_quote s rest
  | .array [], rest, _, _ => by
      rw [prettyChars, List.cons_append, lexemes_punctuation (by decide) rfl, List.cons_append,
        lexemes_punctuation (by decide) rfl, List.nil_append, Option.map_map]
      rfl
  | .array (v :: items), rest, hv, _ => by
      rw [hasCountsOnly, haveCountsOnly, Bool.and_eq_true] at hv
      have hspelt : prettyChars level (.array (v :: items)) ++ rest =
          '[' :: (newLine (level + 1) ++ (prettyChars (level + 1) v ++
            (prettyItems (level + 1) items ++ (newLine level ++ ']' :: rest)))) := by
        simp [prettyChars]
      -- Behind the first item is a comma or the end of the line, so a number ends there.
      rw [hspelt, lexemes_punctuation (by decide) rfl, lexemes_newLine,
        lexemes_prettyChars (level + 1) v _ hv.1 (endsNumber_prettyItems level items _),
        lexemes_prettyItems level items rest hv.2, Option.map_map, Option.map_map]
      simp [Function.comp_def, lexemesOf]
  | .object [], rest, _, _ => by
      rw [prettyChars, List.cons_append, lexemes_punctuation (by decide) rfl, List.cons_append,
        lexemes_punctuation (by decide) rfl, List.nil_append, Option.map_map]
      rfl
  | .object ((key, v) :: members), rest, hv, _ => by
      rw [hasCountsOnly, membersHaveCountsOnly, Bool.and_eq_true] at hv
      have hspelt : prettyChars level (.object ((key, v) :: members)) ++ rest =
          '\x7b' :: (newLine (level + 1) ++ (quote key ++ (": ".toList ++
            (prettyChars (level + 1) v ++
              (prettyMembers (level + 1) members ++ (newLine level ++ '\x7d' :: rest)))))) := by
        simp [prettyChars]
      rw [hspelt, lexemes_punctuation (by decide) rfl, lexemes_newLine, lexemes_key,
        lexemes_prettyChars (level + 1) v _ hv.1 (endsNumber_prettyMembers level members _),
        lexemes_prettyMembers level members rest hv.2, Option.map_map, Option.map_map,
        Option.map_map]
      simp [Function.comp_def, lexemesOf]

theorem lexemes_prettyItems (level : Nat) : ∀ (items : List Json) (rest : List Char),
    haveCountsOnly items = true →
      lexemes (prettyItems (level + 1) items ++ (newLine level ++ ']' :: rest)) =
        (lexemes rest).map (itemLexemes items ++ ·)
  | [], rest, _ => by
      rw [prettyItems, List.nil_append, lexemes_newLine, lexemes_punctuation (by decide) rfl]
      rfl
  | v :: items, rest, hitems => by
      rw [haveCountsOnly, Bool.and_eq_true] at hitems
      have hspelt : prettyItems (level + 1) (v :: items) ++ (newLine level ++ ']' :: rest) =
          ',' :: (newLine (level + 1) ++ (prettyChars (level + 1) v ++
            (prettyItems (level + 1) items ++ (newLine level ++ ']' :: rest)))) := by
        simp [prettyItems]
      rw [hspelt, lexemes_punctuation (by decide) rfl, lexemes_newLine,
        lexemes_prettyChars (level + 1) v _ hitems.1 (endsNumber_prettyItems level items _),
        lexemes_prettyItems level items rest hitems.2, Option.map_map, Option.map_map]
      simp [Function.comp_def, itemLexemes]

theorem lexemes_prettyMembers (level : Nat) : ∀ (members : List (String × Json))
    (rest : List Char), membersHaveCountsOnly members = true →
      lexemes (prettyMembers (level + 1) members ++ (newLine level ++ '\x7d' :: rest)) =
        (lexemes rest).map (memberLexemes members ++ ·)
  | [], rest, _ => by
      rw [prettyMembers, List.nil_append, lexemes_newLine, lexemes_punctuation (by decide) rfl]
      rfl
  | (key, v) :: members, rest, hmembers => by
      rw [membersHaveCountsOnly, Bool.and_eq_true] at hmembers
      have hspelt : prettyMembers (level + 1) ((key, v) :: members) ++
          (newLine level ++ '\x7d' :: rest) =
          ',' :: (newLine (level + 1) ++ (quote key ++ (": ".toList ++
            (prettyChars (level + 1) v ++
              (prettyMembers (level + 1) members ++ (newLine level ++ '\x7d' :: rest)))))) := by
        simp [prettyMembers]
      rw [hspelt, lexemes_punctuation (by decide) rfl, lexemes_newLine, lexemes_key,
        lexemes_prettyChars (level + 1) v _ hmembers.1 (endsNumber_prettyMembers level members _),
        lexemes_prettyMembers level members rest hmembers.2, Option.map_map, Option.map_map,
        Option.map_map]
      simp [Function.comp_def, memberLexemes]

end

/-! ## Reading lexemes -/

/-- The first item of an array is read like any other. -/
theorem run_firstItem (stack : List OpenContainer) (v : Json) (rest : List Lexeme) :
    Reader.run ⟨.items [] :: stack, .firstItem⟩ (lexemesOf v ++ rest) =
      Reader.run ⟨.items [] :: stack, .value⟩ (lexemesOf v ++ rest) := by
  rcases v with _ | _ | _ | _ | _ | _ | ⟨_ | _⟩ | ⟨_ | _⟩ | _ <;> rfl

mutual

/-- The lexemes of a value take the reader to where the value is complete. -/
theorem run_lexemesOf : ∀ (v : Json) (stack : List OpenContainer) (rest : List Lexeme),
    Reader.run ⟨stack, .value⟩ (lexemesOf v ++ rest) = (Reader.close stack v).run rest
  | .null, _, _ | .bool _, _, _ | .natural _, _, _ | .negative _, _, _ | .real _, _, _
  | .string _, _, _ | .unreadable, _, _ | .array [], _, _ | .object [], _, _ => rfl
  | .array (v :: items), stack, rest => by
      have hfirst : Reader.run ⟨stack, .value⟩ (lexemesOf (.array (v :: items)) ++ rest) =
          Reader.run ⟨.items [] :: stack, .firstItem⟩
            (lexemesOf v ++ (itemLexemes items ++ rest)) := by
        rw [lexemesOf, List.cons_append, List.append_assoc]
        rfl
      rw [hfirst, run_firstItem, run_lexemesOf v]
      exact run_itemLexemes items [v] stack rest
  | .object ((key, v) :: members), stack, rest => by
      have hfirst : Reader.run ⟨stack, .value⟩ (lexemesOf (.object ((key, v) :: members)) ++ rest) =
          Reader.run ⟨.members [] true key :: stack, .value⟩
            (lexemesOf v ++ (memberLexemes members ++ rest)) := by
        rw [lexemesOf, List.cons_append, List.cons_append, List.cons_append, List.append_assoc]
        rfl
      rw [hfirst, run_lexemesOf v]
      exact run_memberLexemes members [(key, v)] key stack rest

theorem run_itemLexemes : ∀ (items read : List Json) (stack : List OpenContainer)
    (rest : List Lexeme),
    Reader.run ⟨.items read :: stack, .separator⟩ (itemLexemes items ++ rest) =
      (Reader.close stack (.array (read.reverse ++ items))).run rest
  | [], read, stack, rest => by
      rw [List.append_nil]
      rfl
  | v :: items, read, stack, rest => by
      have hcomma : Reader.run ⟨.items read :: stack, .separator⟩
            (itemLexemes (v :: items) ++ rest) =
          Reader.run ⟨.items read :: stack, .value⟩
            (lexemesOf v ++ (itemLexemes items ++ rest)) := by
        rw [itemLexemes, List.cons_append, List.append_assoc]
        rfl
      rw [hcomma, run_lexemesOf v, Reader.close, run_itemLexemes items, List.reverse_cons,
        List.append_assoc]
      rfl

theorem run_memberLexemes : ∀ (members read : List (String × Json)) (key : String)
    (stack : List OpenContainer) (rest : List Lexeme),
    Reader.run ⟨.members read true key :: stack, .separator⟩ (memberLexemes members ++ rest) =
      (Reader.close stack (.object (read.reverse ++ members))).run rest
  | [], read, key, stack, rest => by
      rw [List.append_nil]
      rfl
  | (key', v) :: members, read, key, stack, rest => by
      have hcomma : Reader.run ⟨.members read true key :: stack, .separator⟩
            (memberLexemes ((key', v) :: members) ++ rest) =
          Reader.run ⟨.members read true key' :: stack, .value⟩
            (lexemesOf v ++ (memberLexemes members ++ rest)) := by
        rw [memberLexemes, List.cons_append, List.cons_append, List.cons_append, List.append_assoc]
        rfl
      rw [hcomma, run_lexemesOf v, Reader.close, run_memberLexemes members, List.reverse_cons,
        List.append_assoc]
      rfl

end

/-- A document whose numbers are counts reads back as it was written. -/
theorem parse_pretty {v : Json} (hv : v.hasCountsOnly = true) : parse v.pretty = some v := by
  have hlexemes := lexemes_prettyChars 0 v [] hv endsNumber_nil
  have hrun := run_lexemesOf v [] []
  rw [List.append_nil] at hlexemes hrun
  rw [parse, pretty, String.toList_ofList, hlexemes, lexemes, Option.map_some, Option.bind_some,
    List.append_nil, ofLexemes, hrun]
  rfl

theorem decode_pretty {α : Type} (read : Json → Option α) {v : Json}
    (hv : v.hasCountsOnly = true) : decode read v.pretty = read v := by
  rw [decode, parse_pretty hv, Option.bind_some]

end EditMining.Json
