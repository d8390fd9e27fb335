import EditMining.Language.Lexer
import EditMining.Proofs.LexicalMatches
import EditMining.Proofs.Placeholders
import Mathlib.Control.Monad.Basic

/-!
# Abstracting twice

A hunk that has been abstracted is to be left alone when it is abstracted again.
Here this is followed for the lexical oracle, which matches equal leaves of the
two sides.

In a tidy hunk a value is replaced lexeme by lexeme (`rewriteChars_text`): all
lexemes with the value become the name of its placeholder, and the hunk stays
tidy. So behind the first round every lexeme is one that was there before or a
placeholder, and no lexeme is left whose value was replaced. A value that is
stable in the second round is on both sides; it is no placeholder, so it was on
both sides before, and was replaced. Hence there is none
(`abstractHunk_twice`).

A hunk is tidy if its lines are orderly and no word of a string is a word of the
code or a placeholder. Without this the statement fails: a name that also is a
word in a string changes the string before the string is looked for
(`abstractHunk_twice_fails`).
-/

namespace EditMining

open Text

/-! ## Reserved names

Only whether a name is reserved counts. Names are added to a list without
repetitions, and repetitions make no difference to that.
-/

theorem ReservedNames.contains_add (r : ReservedNames) (names : List String) (name : String) :
    (r.add names).contains name = (⟨r.names ++ names⟩ : ReservedNames).contains name := by
  rw [add, contains, contains, List.contains_eq_mem, List.contains_eq_mem]
  exact decide_eq_decide.2 List.mem_eraseDups

namespace Abstraction

variable {r r' : ReservedNames}

theorem stableValues_congr (h : ∀ name, r.contains name = r'.contains name) :
    stableValues r = stableValues r' := by
  have hable : isAbstractable r = isAbstractable r' :=
    funext fun name => by rw [isAbstractable, h, isAbstractable]
  have hvalue : stableValue? r = stableValue? r' := by
    funext before behind m
    rw [stableValue?, hable, stableValue?]
  funext hunk d
  rw [stableValues, hvalue, stableValues]

theorem abstractHunk_congr (h : ∀ name, r.contains name = r'.contains name) {σ : Type}
    (o : Oracle σ) : abstractHunk o r = abstractHunk o r' := by
  have happly : applyDiff r = applyDiff r' := by
    funext d a
    rw [applyDiff, stableValues_congr h, applyDiff]
  funext normalizes tk hunk
  rw [abstractHunk, happly, abstractHunk]

end Abstraction

namespace Lexeme

/-- A lexeme of a hunk whose names and numbers are `code`. A placeholder may
stand for any of these; a string holds none of them. -/
structure Tidy (code : List (List Char)) (x : Lexeme) : Prop where
  valid : x.isValid = true
  known : ∀ w, x.code? = some w → w ∈ code ∨ Placeholder.isPlaceholder w = true
  apart : ∀ content, x = quoted content → ∀ w ∈ Text.words content,
    w ∉ code ∧ Placeholder.isPlaceholder w = false

structure TidyLine (code : List (List Char)) (xs : List Lexeme) : Prop where
  tidy : ∀ x ∈ xs, x.Tidy code
  chain : xs.IsChain fun x y => x.fits y = true

variable {code : List (List Char)} {x y : Lexeme} {xs : List Lexeme} {w : List Char}
  {reserved : ReservedNames} {v : StableValue} {p : Placeholder}

theorem TidyLine.orderly (h : TidyLine code xs) : Orderly xs :=
  ⟨fun x hx => (h.tidy x hx).valid, h.chain⟩

/-- No word of a string is spelt outside of strings. -/
theorem Tidy.notMem_words {content : List Char} (hx : x.Tidy code)
    (hquoted : (quoted content).Tidy code) (hcode : x.code? = some w) :
    w ∉ Text.words content := by
  intro hmem
  obtain ⟨hnot, hplaceholder⟩ := hquoted.apart content rfl w hmem
  rcases hx.known w hcode with hknown | hknown
  · exact hnot hknown
  · rw [hplaceholder] at hknown
    nomatch hknown

/-- A value is replaced lexeme by lexeme. -/
theorem rewriteChars_text (h : TidyLine code xs) (hx : x.Tidy code)
    (hv : x.value? reserved = some v) (p : Placeholder) :
    Abstraction.rewriteChars v p (text xs) = text (xs.map (exchange x p.renderChars)) := by
  have hinner : ∀ w, x.code? = some w → ∀ content, quoted content ∈ xs →
      w ∉ Text.words content :=
    fun w hcode content hcontent => hx.notMem_words (h.tidy _ hcontent) hcode
  cases x with
  | name w =>
      obtain ⟨hchars, hne, hword⟩ := code?_valid hx.valid rfl
      rw [value?] at hv
      split at hv
      · cases hv
        show replaceWord (String.ofList w).toList p.renderChars (text xs) = _
        rw [String.toList_ofList, replaceWord, replaceBounded_eq_substituteRuns hne hword]
        exact substituteRuns_text (fun _ hc => hc) hx.valid rfl (marksOutside_isWordChar _)
          h.orderly (hinner w rfl) _
      · cases hv
  | number w =>
      obtain ⟨hchars, hne, hword⟩ := code?_valid hx.valid rfl
      have hclass : ∀ c, isWordChar c = true → isNumberChar c = true := fun c hc => by
        rw [isNumberChar, hc, Bool.true_or]
      cases hv
      show replaceNumber (String.ofList w).toList p.renderChars (text xs) = _
      rw [String.toList_ofList, replaceNumber,
        replaceBounded_eq_substituteRuns hne fun c hc => hclass c (hword c hc)]
      exact substituteRuns_text hclass hx.valid rfl (marksOutside_isNumberChar w) h.orderly
        (hinner w rfl) _
  | quoted content =>
      cases hv
      show replaceAll (String.ofList (quoted content).chars).toList p.renderChars (text xs) = _
      rw [String.toList_ofList]
      exact replaceAll_text hx.valid h.orderly
        (fun y hy w hcode => (h.tidy y hy).notMem_words hx hcode) _
  | mark c => cases hv

/-! ## Placeholders as lexemes -/

theorem isValid_placeholder (p : Placeholder) : (name p.renderChars).isValid = true := by
  obtain ⟨more, hchars⟩ := p.exists_renderChars_eq
  have hstart : LeafKind.isNameStart p.kind.initial = true := by
    cases p.kind <;> decide
  rw [isValid, Bool.and_eq_true, List.all_eq_true]
  refine ⟨by rw [hchars]; exact hstart, fun c hc => ?_⟩
  rw [LeafKind.isNameChar, Bool.or_eq_true, beq_iff_eq]
  exact Placeholder.mem_renderChars hc

theorem tidy_placeholder (code : List (List Char)) (hp : p.index < Decimal.wordLimit) :
    (name p.renderChars).Tidy code where
  valid := isValid_placeholder p
  known w hcode := by
    cases hcode
    exact .inr (Placeholder.isPlaceholder_renderChars hp)
  apart content heq := nomatch heq

/-- A placeholder is never replaced. -/
theorem value?_placeholder (reserved : ReservedNames) (hp : p.index < Decimal.wordLimit) :
    (name p.renderChars).value? reserved = none := by
  rw [value?, Abstraction.isAbstractable, String.toList_ofList,
    Placeholder.isPlaceholder_renderChars hp, Bool.not_true, Bool.and_false]
  rfl

/-- The lexeme with a value. -/
def ofValue (v : StableValue) : Lexeme :=
  match v.kind with
  | .number => .number v.value.toList
  | .string => .quoted v.value.toList.tail.dropLast
  | .identifier | .function => .name v.value.toList

theorem ofValue_eq (hv : x.value? reserved = some v) : ofValue v = x := by
  cases x with
  | name w =>
      rw [value?] at hv
      split at hv
      · cases hv
        exact congrArg name String.toList_ofList
      · cases hv
  | number w =>
      cases hv
      exact congrArg number String.toList_ofList
  | quoted content =>
      cases hv
      rw [ofValue, String.toList_ofList]
      exact congrArg quoted List.dropLast_concat
  | mark c => cases hv

theorem ne_mark_of_value? (hv : x.value? reserved = some v) (c : Char) : x ≠ mark c := by
  rintro rfl
  nomatch hv

theorem fits_exchange (hx : ∀ c, x ≠ mark c) (new : List Char) {a b : Lexeme}
    (h : a.fits b = true) : (exchange x new a).fits (exchange x new b) = true := by
  by_cases ha : a = x
  · obtain ⟨c, rfl⟩ := exists_mark_of_fits (ha ▸ hx) (.inl h)
    rw [exchange, if_pos ha, exchange, if_neg fun heq => hx c heq.symm]
    rfl
  · by_cases hb : b = x
    · obtain ⟨c, rfl⟩ := exists_mark_of_fits (hb ▸ hx) (.inr h)
      rw [exchange, if_neg ha, exchange, if_pos hb]
      rfl
    · rw [exchange, if_neg ha, exchange, if_neg hb]
      exact h

theorem mem_map_exchange {new : List Char} (h : y ∈ xs.map (exchange x new)) :
    (y ∈ xs ∧ y ≠ x) ∨ y = name new := by
  obtain ⟨z, hz, rfl⟩ := List.mem_map.1 h
  rw [exchange]
  split
  · exact .inr rfl
  · next hne => exact .inl ⟨hz, hne⟩

theorem TidyLine.exchange (h : TidyLine code xs) (hx : ∀ c, x ≠ mark c)
    (hp : p.index < Decimal.wordLimit) :
    TidyLine code (xs.map (exchange x p.renderChars)) where
  tidy y hy := by
    rcases mem_map_exchange hy with ⟨hy, -⟩ | rfl
    · exact h.tidy y hy
    · exact tidy_placeholder code hp
  chain := List.isChain_map_of_isChain _ (fun _ _ => fits_exchange hx _) h.chain

/-! ## Lines as one text -/

/-- Lines with a line break between neighbours. -/
def joined : List (List Lexeme) → List Lexeme
  | [] => []
  | [line] => line
  | line :: rest => line ++ mark '\n' :: joined rest

theorem fits_lineBreak (x : Lexeme) :
    x.fits (mark '\n') = true ∧ (mark '\n').fits x = true := by
  cases x <;> exact ⟨rfl, rfl⟩

theorem orderly_joined {lines : List (List Lexeme)} (h : ∀ line ∈ lines, Orderly line) :
    Orderly (joined lines) := by
  induction lines with
  | nil => exact ⟨fun _ hx => (nomatch hx), List.IsChain.nil⟩
  | cons line rest ih =>
      have hline := h line List.mem_cons_self
      have hrest := ih fun line' hmem => h line' (List.mem_cons_of_mem line hmem)
      cases rest with
      | nil => exact hline
      | cons second rest =>
          show Orderly (line ++ mark '\n' :: joined (second :: rest))
          refine ⟨fun x hx => ?_, List.IsChain.append hline.chain
            (hrest.chain.cons fun y _ => (fits_lineBreak y).2) ?_⟩
          · rcases List.mem_append.1 hx with hx | hx
            · exact hline.valid x hx
            · rcases List.mem_cons.1 hx with rfl | hx
              · decide
              · exact hrest.valid x hx
          · intro x _ y hy
            cases hy
            exact (fits_lineBreak x).1

theorem text_joined (lines : List (List Lexeme)) :
    (joinLines (lines.map fun line => String.ofList (text line))).toList = text (joined lines) := by
  induction lines with
  | nil => rfl
  | cons line rest ih =>
      cases rest with
      | nil => exact String.toList_ofList
      | cons second rest =>
          show (String.ofList (text line) ++ "\n" ++ joinLines _).toList =
            text (line ++ mark '\n' :: joined (second :: rest))
          rw [String.toList_append, String.toList_append, ih, String.toList_ofList, text_append,
            text_cons, List.append_assoc]
          rfl

theorem mem_joined_iff {lines : List (List Lexeme)} (hx : ∀ c, x ≠ mark c) :
    x ∈ joined lines ↔ x ∈ lines.flatten := by
  induction lines with
  | nil => rfl
  | cons line rest ih =>
      cases rest with
      | nil => rw [List.flatten_singleton]; rfl
      | cons second rest =>
          show x ∈ line ++ mark '\n' :: joined (second :: rest) ↔ _
          rw [List.flatten_cons, List.mem_append, List.mem_append, List.mem_cons, ih,
            or_iff_right (hx '\n')]

end Lexeme

/-! ## Hunks made of lexemes -/

/-- The two sides of a hunk, each line made of lexemes. -/
structure LexedHunk where
  condition : List (List Lexeme)
  consequent : List (List Lexeme)

namespace LexedHunk

open Lexeme

def lineOf (line : List Lexeme) : String :=
  String.ofList (text line)

def toHunk (L : LexedHunk) : Hunk :=
  ⟨L.condition.map lineOf, L.consequent.map lineOf⟩

def lines (L : LexedHunk) : List (List Lexeme) :=
  L.condition ++ L.consequent

/-- The names and numbers of a hunk. -/
def codeWords (L : LexedHunk) : List (List Char) :=
  L.lines.flatten.filterMap code?

def Tidy (code : List (List Char)) (L : LexedHunk) : Prop :=
  ∀ line ∈ L.lines, TidyLine code line

def exchange (x : Lexeme) (new : List Char) (L : LexedHunk) : LexedHunk :=
  ⟨L.condition.map (List.map (x.exchange new)), L.consequent.map (List.map (x.exchange new))⟩

variable {code : List (List Char)} {L L' L'' : LexedHunk} {x : Lexeme} {p : Placeholder}
  {reserved : ReservedNames} {v : StableValue} {l : Language}

theorem Tidy.exchange (h : L.Tidy code) (hx : ∀ c, x ≠ mark c)
    (hp : p.index < Decimal.wordLimit) : (L.exchange x p.renderChars).Tidy code := by
  intro line hline
  rw [lines, LexedHunk.exchange, ← List.map_append] at hline
  obtain ⟨line, hmem, rfl⟩ := List.mem_map.1 hline
  exact (h line hmem).exchange hx hp

/-- Replacing a value in a hunk is exchanging a lexeme. -/
theorem replaceValue_toHunk (h : L.Tidy code) (hx : x.Tidy code)
    (hv : x.value? reserved = some v) (m : Assignments) :
    Abstraction.replaceValue ⟨L.toHunk, m⟩ v =
      ⟨(L.exchange x (m.assign v.kind v.value).2.renderChars).toHunk,
        (m.assign v.kind v.value).1⟩ := by
  have hline : ∀ line ∈ L.lines,
      Abstraction.rewriteLine v (m.assign v.kind v.value).2 (lineOf line) =
        lineOf (line.map (x.exchange (m.assign v.kind v.value).2.renderChars)) := by
    intro line hmem
    rw [Abstraction.rewriteLine, lineOf, String.toList_ofList,
      rewriteChars_text (h line hmem) hx hv, lineOf]
  have hside : ∀ side : List (List Lexeme), (∀ line ∈ side, line ∈ L.lines) →
      (side.map lineOf).map (Abstraction.rewriteLine v (m.assign v.kind v.value).2) =
        (side.map (List.map (x.exchange (m.assign v.kind v.value).2.renderChars))).map lineOf := by
    intro side hsub
    rw [List.map_map, List.map_map]
    exact List.map_congr_left fun line hmem => hline line (hsub line hmem)
  rw [Abstraction.replaceValue, toHunk, toHunk]
  exact congrArg (AbstractedHunk.mk · _) (congrArg₂ Hunk.mk
    (hside L.condition fun line hmem => List.mem_append_left _ hmem)
    (hside L.consequent fun line hmem => List.mem_append_right _ hmem))

/-- Every lexeme was there before, on the same side, or is a placeholder. -/
def ComesFrom (L' L : LexedHunk) : Prop :=
  (∀ x ∈ L'.condition.flatten, x ∈ L.condition.flatten ∨ ∃ p : Placeholder,
    p.index < Decimal.wordLimit ∧ x = name p.renderChars) ∧
  ∀ x ∈ L'.consequent.flatten, x ∈ L.consequent.flatten ∨ ∃ p : Placeholder,
    p.index < Decimal.wordLimit ∧ x = name p.renderChars

theorem comesFrom_refl (L : LexedHunk) : L.ComesFrom L :=
  ⟨fun _ hx => .inl hx, fun _ hx => .inl hx⟩

theorem ComesFrom.trans (h : L''.ComesFrom L') (h' : L'.ComesFrom L) : L''.ComesFrom L :=
  ⟨fun x hx => (h.1 x hx).elim (h'.1 x) .inr, fun x hx => (h.2 x hx).elim (h'.2 x) .inr⟩

theorem comesFrom_exchange (L : LexedHunk) (x : Lexeme) (hp : p.index < Decimal.wordLimit) :
    (L.exchange x p.renderChars).ComesFrom L := by
  refine ⟨fun y hy => ?_, fun y hy => ?_⟩
  · rw [exchange, ← List.map_flatten] at hy
    exact (mem_map_exchange hy).imp And.left fun heq => ⟨p, hp, heq⟩
  · rw [exchange, ← List.map_flatten] at hy
    exact (mem_map_exchange hy).imp And.left fun heq => ⟨p, hp, heq⟩

/-- All values are replaced, and stay so: what is put in their place is never
replaced itself. -/
theorem foldl_replaceValue {vs : List StableValue} {m : Assignments} (h : L.Tidy code)
    (hvs : ∀ v ∈ vs, ∃ x : Lexeme, x.Tidy code ∧ x.value? reserved = some v) (hm : m.Readable)
    (hsize : m.size + vs.length < Decimal.wordLimit) :
    ∃ (L' : LexedHunk) (m' : Assignments),
      vs.foldl Abstraction.replaceValue ⟨L.toHunk, m⟩ = ⟨L'.toHunk, m'⟩ ∧
      L'.Tidy code ∧ L'.ComesFrom L ∧
      ∀ v ∈ vs, ∀ x : Lexeme, x.value? reserved = some v → x ∉ L'.condition.flatten := by
  induction vs generalizing L m with
  | nil => exact ⟨L, m, rfl, h, comesFrom_refl L, fun _ hv => nomatch hv⟩
  | cons v vs ih =>
      rw [List.length_cons] at hsize
      obtain ⟨x, hx, hv⟩ := hvs v List.mem_cons_self
      have hmark := ne_mark_of_value? hv
      obtain ⟨hm', hp, hsize'⟩ := hm.assign (by omega) v.kind v.value
      obtain ⟨L', m', hfold, htidy, hfrom, hgone⟩ := ih (h.exchange hmark hp)
        (fun u hu => hvs u (List.mem_cons_of_mem v hu)) hm' (by omega)
      refine ⟨L', m', ?_, htidy, hfrom.trans (comesFrom_exchange L x hp), ?_⟩
      · rw [List.foldl_cons, replaceValue_toHunk h hx hv, hfold]
      · intro u hu y hy hmem
        rcases List.mem_cons.1 hu with rfl | hu
        · obtain rfl : y = x := (ofValue_eq hy).symm.trans (ofValue_eq hv)
          rcases hfrom.1 y hmem with hmem | ⟨q, hq, rfl⟩
          · rw [exchange, ← List.map_flatten] at hmem
            rcases mem_map_exchange hmem with ⟨-, hne⟩ | rfl
            · exact hne rfl
            · rw [value?_placeholder reserved hp] at hy
              nomatch hy
          · rw [value?_placeholder reserved hq] at hy
            nomatch hy
        · exact hgone u hu y hy hmem

/-! ## What is stable behind the first round -/

theorem joinedCondition_toHunk (L : LexedHunk) :
    L.toHunk.joinedCondition.toList = text (joined L.condition) :=
  text_joined L.condition

theorem joinedConsequent_toHunk (L : LexedHunk) :
    L.toHunk.joinedConsequent.toList = text (joined L.consequent) :=
  text_joined L.consequent

theorem Tidy.orderly_condition (h : L.Tidy code) : Orderly (joined L.condition) :=
  orderly_joined fun line hline => (h line (List.mem_append_left _ hline)).orderly

theorem Tidy.orderly_consequent (h : L.Tidy code) : Orderly (joined L.consequent) :=
  orderly_joined fun line hline => (h line (List.mem_append_right _ hline)).orderly

theorem Tidy.mem_stableValues (h : L.Tidy code) :
    v ∈ Abstraction.stableValues reserved L.toHunk (lexicalDiff L.toHunk) ↔
      ∃ x ∈ L.condition.flatten, x ∈ L.consequent.flatten ∧ x.value? reserved = some v := by
  rw [mem_stableValues_lexicalDiff h.orderly_condition h.orderly_consequent
    L.joinedCondition_toHunk L.joinedConsequent_toHunk]
  constructor
  · rintro ⟨x, hx, hx', hv⟩
    have hmark := ne_mark_of_value? hv
    exact ⟨x, (mem_joined_iff hmark).1 hx, (mem_joined_iff hmark).1 hx', hv⟩
  · rintro ⟨x, hx, hx', hv⟩
    have hmark := ne_mark_of_value? hv
    exact ⟨x, (mem_joined_iff hmark).2 hx, (mem_joined_iff hmark).2 hx', hv⟩

theorem Tidy.exists_of_mem_stableValues (h : L.Tidy code)
    (hv : v ∈ Abstraction.stableValues reserved L.toHunk (lexicalDiff L.toHunk)) :
    ∃ x : Lexeme, x.Tidy code ∧ x.value? reserved = some v := by
  obtain ⟨x, hx, -, hvalue⟩ := h.mem_stableValues.1 hv
  obtain ⟨line, hline, hmem⟩ := List.mem_flatten.1 hx
  exact ⟨x, (h line (List.mem_append_left _ hline)).tidy x hmem, hvalue⟩

/-- A value that is stable after the replacement was stable before, and replaced. -/
theorem stableValues_of_comesFrom (h : L.Tidy code) (h' : L'.Tidy code) (hfrom : L'.ComesFrom L)
    (hgone : ∀ v ∈ Abstraction.stableValues reserved L.toHunk (lexicalDiff L.toHunk),
      ∀ x : Lexeme, x.value? reserved = some v → x ∉ L'.condition.flatten) :
    Abstraction.stableValues reserved L'.toHunk (lexicalDiff L'.toHunk) = [] := by
  refine List.eq_nil_iff_forall_not_mem.2 fun v hv => ?_
  obtain ⟨x, hx, hx', hvalue⟩ := h'.mem_stableValues.1 hv
  have hno : ∀ p : Placeholder, p.index < Decimal.wordLimit → x ≠ name p.renderChars := by
    rintro p hp rfl
    rw [value?_placeholder reserved hp] at hvalue
    nomatch hvalue
  have hbefore : x ∈ L.condition.flatten :=
    (hfrom.1 x hx).resolve_right fun ⟨p, hp, heq⟩ => hno p hp heq
  have hbehind : x ∈ L.consequent.flatten :=
    (hfrom.2 x hx').resolve_right fun ⟨p, hp, heq⟩ => hno p hp heq
  exact hgone v (h.mem_stableValues.2 ⟨x, hbefore, hbehind, hvalue⟩) x hvalue hx

/-! ## Hunks that define no function -/

/-- No word of the hunk is the keyword behind which a function is named. -/
def DefinesNone (l : Language) (L : LexedHunk) : Prop :=
  ∀ keyword ∈ l.functionKeyword, ∀ x ∈ L.lines.flatten, keyword.toList ∉ x.words

theorem DefinesNone.definedNames {tk : Tokenizer} (hnone : L.DefinesNone tk.language)
    (h : L.Tidy code) : definedNames tk L.toHunk = [] := by
  rw [EditMining.definedNames]
  cases hkeyword : tk.language.functionKeyword with
  | none => rfl
  | some keyword =>
      have hlines : L.toHunk.lines = L.lines.map lineOf := List.map_append.symm
      have hfilter : L.toHunk.lines.filterMap (definedName? tk keyword) = [] := by
        rw [hlines, List.filterMap_map, List.filterMap_eq_nil_iff]
        intro line hline
        have hnot : ¬ (Text.words (lineOf line).toList).contains keyword.toList = true := by
          rw [lineOf, String.toList_ofList, words_text (h line hline).orderly,
            List.contains_iff_mem, List.mem_flatMap]
          rintro ⟨x, hx, hword⟩
          exact hnone keyword hkeyword x (List.mem_flatten.2 ⟨line, hline, hx⟩) hword
        exact if_neg hnot
      dsimp only
      rw [hfilter]
      rfl

theorem isPlaceholder_functionKeyword {l : Language} {keyword : String}
    (h : keyword ∈ l.functionKeyword) : Placeholder.isPlaceholder keyword.toList = false := by
  cases l <;> cases h <;> decide

/-- The first round does not bring in a definition. -/
theorem DefinesNone.of_comesFrom (hnone : L.DefinesNone l) (hfrom : L'.ComesFrom L) :
    L'.DefinesNone l := by
  intro keyword hkeyword x hx hword
  have hbefore : x ∈ L.lines.flatten ∨ ∃ p : Placeholder,
      p.index < Decimal.wordLimit ∧ x = name p.renderChars := by
    rw [lines, List.flatten_append, List.mem_append] at hx ⊢
    rcases hx with hx | hx
    · exact (hfrom.1 x hx).imp .inl id
    · exact (hfrom.2 x hx).imp .inr id
  rcases hbefore with hx | ⟨p, hp, rfl⟩
  · exact hnone keyword hkeyword x hx hword
  · have hplaceholder := Placeholder.isPlaceholder_renderChars hp
    rw [← List.mem_singleton.1 hword, isPlaceholder_functionKeyword hkeyword] at hplaceholder
    nomatch hplaceholder

theorem prepare_toHunk {normalizes : Bool} {tk : Tokenizer}
    (hnone : normalizes = true → L.DefinesNone tk.language) (h : L.Tidy code) :
    Abstraction.prepare normalizes tk L.toHunk = ⟨L.toHunk, .empty⟩ := by
  rw [Abstraction.prepare]
  split
  · next hnormalizes =>
      rw [normalizeFunctionNames, (hnone hnormalizes).definedNames h]
      show AbstractedHunk.mk (L.toHunk.mapLines id) _ = _
      rw [Hunk.mapLines, List.map_id, List.map_id]
  · rfl

/-! ## Two rounds -/

/-- The lines of a hunk are orderly, and no word in a string is a name or a number
of the hunk or a placeholder. -/
def IsTidy (L : LexedHunk) : Prop :=
  (∀ line ∈ L.lines, (∀ x ∈ line, x.isValid = true) ∧ line.IsChain fun x y => x.fits y = true) ∧
    ∀ x ∈ L.lines.flatten, x.code? = none → ∀ w ∈ x.words,
      w ∉ L.codeWords ∧ Placeholder.isPlaceholder w = false

instance (L : LexedHunk) : Decidable L.IsTidy :=
  inferInstanceAs (Decidable (_ ∧ _))

theorem IsTidy.tidy (h : L.IsTidy) : L.Tidy L.codeWords := by
  intro line hline
  have hmem : ∀ x ∈ line, x ∈ L.lines.flatten := fun x hx =>
    List.mem_flatten.2 ⟨line, hline, hx⟩
  refine ⟨fun x hx => ⟨(h.1 line hline).1 x hx, fun w hcode => .inl ?_, ?_⟩, (h.1 line hline).2⟩
  · exact List.mem_filterMap.2 ⟨x, hmem x hx, hcode⟩
  · rintro content rfl
    exact h.2 _ (hmem _ hx) rfl

/-- Abstracting a tidy hunk that defines no function gives a hunk that is left
alone when it is abstracted again, and then no value has a placeholder. -/
theorem abstractHunk_twice (reserved : ReservedNames) (normalizes : Bool) (tk : Tokenizer)
    {L : LexedHunk} (h : L.IsTidy) (hnone : normalizes = true → L.DefinesNone tk.language)
    (hsize : L.toHunk.joinedCondition.length < Decimal.wordLimit) (s t : Nat) :
    ∃ a, ((Abstraction.abstractHunk lexicalOracle reserved normalizes tk L.toHunk).run.run s).1 =
        .ok a ∧
      ((Abstraction.abstractHunk lexicalOracle reserved normalizes tk a.hunk).run.run t).1 =
        .ok ⟨a.hunk, .empty⟩ := by
  have hround : ∀ {L : LexedHunk} (s : Nat),
      Abstraction.prepare normalizes tk L.toHunk = ⟨L.toHunk, .empty⟩ →
      ((Abstraction.abstractHunk lexicalOracle reserved normalizes tk L.toHunk).run.run s).1 =
        .ok ((Abstraction.stableValues reserved L.toHunk (lexicalDiff L.toHunk)).foldl
          Abstraction.replaceValue ⟨L.toHunk, .empty⟩) := by
    intro L s hprepare
    rw [Abstraction.abstractHunk, hprepare]
    rfl
  have hlength : Assignments.empty.size +
      (Abstraction.stableValues reserved L.toHunk (lexicalDiff L.toHunk)).length <
        Decimal.wordLimit :=
    (Nat.zero_add _).trans_lt ((length_stableValues_lexicalDiff_le h.tidy.orderly_condition
      L.joinedCondition_toHunk).trans_lt hsize)
  obtain ⟨L', m, hfold, htidy, hfrom, hgone⟩ := foldl_replaceValue h.tidy
    (fun v hv => h.tidy.exists_of_mem_stableValues hv) Assignments.readable_empty hlength
  have hsecond := prepare_toHunk (fun hn => (hnone hn).of_comesFrom hfrom) htidy
  refine ⟨⟨L'.toHunk, m⟩, ?_, ?_⟩
  · rw [hround s (prepare_toHunk hnone h.tidy), hfold]
  · rw [hround t hsecond, stableValues_of_comesFrom h.tidy htidy hfrom hgone]
    rfl

theorem abstractHunk_twice_of_quoted_key :
    let assigned : List Lexeme := [name "total".toList, mark ' ', mark '=', mark ' ']
    let times : List Lexeme := [mark ' ', mark '*', mark ' ', number "3".toList]
    let L : LexedHunk :=
      ⟨[assigned ++ [name "d".toList, mark '[', quoted "eur".toList, mark ']'] ++ times],
        [assigned ++ [name "d".toList, mark '.', name "get".toList, mark '(',
          quoted "eur".toList, mark ')'] ++ times]⟩
    let tk := Tokenizer.ofParser .python Language.python.parse
    L.IsTidy ∧ L.DefinesNone .python ∧ L.toHunk.joinedCondition.length < Decimal.wordLimit ∧
      ∃ a, ((Abstraction.abstractHunk lexicalOracle .builtin true tk L.toHunk).run.run 0).1 =
          .ok a ∧
        ((Abstraction.abstractHunk lexicalOracle .builtin true tk a.hunk).run.run 1).1 =
          .ok ⟨a.hunk, .empty⟩ := by
  intro assigned times L tk
  have htidy : L.IsTidy := by decide +kernel
  have hnone : L.DefinesNone .python := by
    intro keyword hkeyword
    cases hkeyword
    decide +kernel
  have hsize : L.toHunk.joinedCondition.length < Decimal.wordLimit := by decide +kernel
  exact ⟨htidy, hnone, hsize,
    abstractHunk_twice .builtin true tk htidy (fun _ => hnone) hsize 0 1⟩

/-- The name is replaced first, in the string too. So the string is no longer
found, and is left for a second round. -/
theorem abstractHunk_twice_fails :
    let tk := Tokenizer.ofParser .python Language.python.parse
    let round (s : Nat) (h : Hunk) :=
      ((Abstraction.abstractHunk lexicalOracle .builtin true tk h).run.run s).1
    let once : Hunk := ⟨["VARIABLE_1 = VARIABLE_2['VARIABLE_1']"],
      ["VARIABLE_1 = VARIABLE_2.get('VARIABLE_1')"]⟩
    let twice : Hunk := ⟨["VARIABLE_1 = VARIABLE_2[STRING_1]"],
      ["VARIABLE_1 = VARIABLE_2.get(STRING_1)"]⟩
    round 0 ⟨["name = d['name']"], ["name = d.get('name')"]⟩ =
        .ok ⟨once, ⟨[⟨"name", .identifier, 1⟩, ⟨"d", .identifier, 2⟩, ⟨"'name'", .string, 1⟩]⟩⟩ ∧
      round 1 once = .ok ⟨twice, ⟨[⟨"'VARIABLE_1'", .string, 1⟩]⟩⟩ ∧ twice ≠ once := by
  intro tk round once twice
  have hreserved := ReservedNames.contains_add ⟨[]⟩ (keywords ++ builtinNames ++ genericMethods)
  have hround : ∀ s h, round s h = ((Abstraction.abstractHunk lexicalOracle _ true tk
      h).run.run s).1 := fun s h => by
    rw [← Abstraction.abstractHunk_congr hreserved]
    rfl
  rw [hround, hround]
  refine ⟨?_, ?_, by decide⟩
  · decide +kernel
  · decide +kernel

end LexedHunk

end EditMining
