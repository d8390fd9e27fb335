import EditMining.Abstraction
import EditMining.Oracle.Lexical
import EditMining.Proofs.Runs
import Mathlib.Data.List.Chain

/-!
# Replacing values in code that is made of lexemes

A line of code is seen here as a list of *lexemes*: names, whole numbers,
strings in single quotes, and marks, the single characters between them. In an
orderly line marks keep the other lexemes apart, no number stands next to a
point, and a string that is not empty has a word in it.

A value is replaced in the text of a line, and the search for it knows nothing
of lexemes. In an orderly line it still finds one lexeme or another and nothing
else, if the words in strings are not those outside of strings.

* **Names and numbers.** Both stand free exactly where they are a whole run of
  their class (`replaceBounded_eq_substituteRuns`). The marks around a lexeme end
  its run, and a run outside of strings that spells the same is the same lexeme
  (`substituteRuns_text`).

* **Strings.** A string is searched for with its quotes. It could only be found
  from the closing quote of one string to the opening quote of the next, but
  what is between these has no word, or only words that are in no string
  (`replaceAll_text`).
-/

namespace EditMining

open Text

inductive Lexeme where
  | name (word : List Char)
  | number (digits : List Char)
  | quoted (content : List Char)
  | mark (c : Char)
  deriving DecidableEq, Repr

namespace Lexeme

/-- The characters of a lexeme, those of a string with its quotes. -/
def chars : Lexeme → List Char
  | .name w => w
  | .number w => w
  | .quoted content => '\'' :: (content ++ ['\''])
  | .mark c => [c]

/-- What a name or a number spells. -/
def code? : Lexeme → Option (List Char)
  | .name w => some w
  | .number w => some w
  | .quoted _ => none
  | .mark _ => none

/-- The words in a lexeme. -/
def words : Lexeme → List (List Char)
  | .name w => [w]
  | .number w => [w]
  | .quoted content => Text.words content
  | .mark _ => []

/-- Whether a lexeme is written as its kind has to be. -/
def isValid : Lexeme → Bool
  | .name w => w.head?.any LeafKind.isNameStart && w.all LeafKind.isNameChar
  | .number w => !w.isEmpty && w.all Char.isDigit
  | .quoted content => !content.contains '\'' && (content.isEmpty || !(Text.words content).isEmpty)
  | .mark c => !isWordChar c && c != '\''

/-- Whether the second lexeme can stand behind the first one: one of them is a
mark, and no point is next to a number. -/
def fits : Lexeme → Lexeme → Bool
  | .number _, .mark c => c != '.'
  | .mark c, .number _ => c != '.'
  | .mark _, _ => true
  | _, .mark _ => true
  | _, _ => false

/-- The text of some lexemes. -/
def text (xs : List Lexeme) : List Char :=
  xs.flatMap chars

@[simp] theorem text_nil : text [] = [] := rfl

@[simp] theorem text_cons (x : Lexeme) (xs : List Lexeme) : text (x :: xs) = x.chars ++ text xs :=
  rfl

@[simp] theorem text_append (xs ys : List Lexeme) : text (xs ++ ys) = text xs ++ text ys :=
  List.flatMap_append

/-- Lexemes that are valid and stand where they can. -/
structure Orderly (xs : List Lexeme) : Prop where
  valid : ∀ x ∈ xs, x.isValid = true
  chain : xs.IsChain fun x y => x.fits y = true

theorem Orderly.of_cons {x : Lexeme} {xs : List Lexeme} (h : Orderly (x :: xs)) : Orderly xs :=
  ⟨fun y hy => h.valid y (List.mem_cons_of_mem x hy), h.chain.tail⟩

theorem Orderly.of_append {xs ys : List Lexeme} (h : Orderly (xs ++ ys)) :
    Orderly xs ∧ Orderly ys :=
  ⟨⟨fun x hx => h.valid x (List.mem_append_left ys hx), h.chain.left_of_append⟩,
    ⟨fun y hy => h.valid y (List.mem_append_right xs hy), h.chain.right_of_append⟩⟩

/-! ## Characters of lexemes -/

theorem isWordChar_of_isNameChar {c : Char} (h : LeafKind.isNameChar c = true) :
    isWordChar c = true := by
  rw [LeafKind.isNameChar, Bool.or_eq_true] at h
  rw [isWordChar, Bool.or_eq_true]
  exact h.imp isAlphanumeric_of_isAlphanum id

theorem isNameChar_of_isDigit {c : Char} (h : c.isDigit = true) : LeafKind.isNameChar c = true := by
  simp [LeafKind.isNameChar, Char.isAlphanum, h]

theorem isNameStart_of_isDigit {c : Char} (h : c.isDigit = true) :
    LeafKind.isNameStart c = false := by
  refine Bool.eq_false_iff.2 fun hstart => ?_
  rw [LeafKind.isNameStart] at hstart
  delta Char.isDigit at h
  delta Char.isAlpha Char.isUpper Char.isLower at hstart
  simp only [Bool.or_eq_true, Bool.and_eq_true, decide_eq_true_eq, ge_iff_le,
    UInt32.le_iff_toNat_le, beq_iff_eq] at h hstart
  change 48 ≤ c.toNat ∧ c.toNat ≤ 57 at h
  change ((65 ≤ c.toNat ∧ c.toNat ≤ 90) ∨ (97 ≤ c.toNat ∧ c.toNat ≤ 122)) ∨ c = '_' at hstart
  rcases hstart with hletter | rfl
  · omega
  · exact absurd h (by decide)

theorem isWordChar_quote : isWordChar '\'' = false := by decide

variable {x : Lexeme} {w : List Char}

/-- A code word is a run of word characters. -/
theorem code?_valid (hvalid : x.isValid = true) (hcode : x.code? = some w) :
    x.chars = w ∧ w ≠ [] ∧ ∀ c ∈ w, isWordChar c = true := by
  cases x with
  | name v =>
      cases hcode
      rw [isValid, Bool.and_eq_true, List.all_eq_true] at hvalid
      refine ⟨rfl, ?_, fun c hc => isWordChar_of_isNameChar (hvalid.2 c hc)⟩
      rintro rfl
      simp at hvalid
  | number v =>
      cases hcode
      rw [isValid, Bool.and_eq_true, List.all_eq_true] at hvalid
      refine ⟨rfl, ?_, fun c hc => isWordChar_of_isNameChar (isNameChar_of_isDigit (hvalid.2 c hc))⟩
      rintro rfl
      simp at hvalid
  | quoted content => nomatch hcode
  | mark c => nomatch hcode

/-- A name does not begin as a number does, so what a lexeme spells tells which
of them it is. -/
theorem eq_of_code?_eq {y : Lexeme} (hx : x.isValid = true) (hy : y.isValid = true)
    (hxw : x.code? = some w) (hyw : y.code? = some w) : x = y := by
  have hname : ∀ v : List Char, (name v).isValid = true → (number v).isValid = true → False := by
    intro v hname hnumber
    rw [isValid.eq_def, Bool.and_eq_true] at hname hnumber
    cases v with
    | nil => simp at hname
    | cons c v =>
        have hdigit : c.isDigit = true := List.all_eq_true.1 hnumber.2 c List.mem_cons_self
        have hstart : LeafKind.isNameStart c = true := hname.1
        rw [isNameStart_of_isDigit hdigit] at hstart
        nomatch hstart
  cases x <;> cases y <;> cases hxw <;> cases hyw <;> first | rfl | exact (hname _ hx hy).elim |
    exact (hname _ hy hx).elim

/-! ## What stands between lexemes -/

/-- The marks that can be next to a lexeme are outside the class. -/
def MarksOutside (inClass : Char → Bool) (x : Lexeme) : Prop :=
  ∀ c, (mark c).isValid = true → (x.fits (mark c) = true ∨ (mark c).fits x = true) →
    inClass c = false

theorem exists_mark_of_fits {y : Lexeme} (hx : ∀ c, x ≠ mark c)
    (h : x.fits y = true ∨ y.fits x = true) : ∃ c, y = mark c := by
  cases y with
  | mark c => exact ⟨c, rfl⟩
  | name v | number v | quoted v => cases x <;> simp_all [fits]

variable {inClass : Char → Bool}

theorem startsOutside_text {xs : List Lexeme} (h : Orderly (x :: xs)) (hx : ∀ c, x ≠ mark c)
    (hmarks : MarksOutside inClass x) : StartsOutside inClass (text xs) := by
  cases xs with
  | nil => exact startsOutside_nil
  | cons y ys =>
      have hfits : x.fits y = true := (List.isChain_cons_cons.1 h.chain).1
      obtain ⟨c, rfl⟩ := exists_mark_of_fits hx (.inl hfits)
      exact startsOutside_cons.2 (hmarks c (h.valid _ (by simp)) (.inl hfits))

theorem endsOutside_text {xs ys : List Lexeme} (h : Orderly (xs ++ x :: ys))
    (hx : ∀ c, x ≠ mark c) (hmarks : MarksOutside inClass x) :
    ∀ c ∈ (text xs).getLast?, inClass c = false := by
  rcases List.eq_nil_or_concat xs with rfl | ⟨xs, y, rfl⟩
  · exact fun _ h => nomatch h
  · have hfits : y.fits x = true :=
      (List.isChain_append.1 h.chain).2.2 y (by simp) x (by simp)
    obtain ⟨c, rfl⟩ := exists_mark_of_fits hx (.inr hfits)
    intro d hd
    rw [List.concat_eq_append, text_append, text_cons, chars, text_nil, List.append_nil,
      List.getLast?_concat] at hd
    cases hd
    exact hmarks c (h.valid _ (by simp)) (.inr hfits)

theorem marksOutside_isWordChar (x : Lexeme) : MarksOutside isWordChar x := by
  intro c hvalid _
  rw [isValid.eq_def, Bool.and_eq_true, Bool.not_eq_true'] at hvalid
  exact hvalid.1

theorem marksOutside_isNumberChar (w : List Char) : MarksOutside isNumberChar (number w) := by
  intro c hvalid hfits
  rw [isNumberChar, marksOutside_isWordChar _ c hvalid hfits, Bool.false_or]
  rcases hfits with hfits | hfits
  · exact beq_eq_false_iff_ne.2 (bne_iff_ne.1 hfits)
  · exact beq_eq_false_iff_ne.2 (bne_iff_ne.1 hfits)

/-! ## The words of a line -/

theorem words_of_code? (hvalid : x.isValid = true) (hcode : x.code? = some w) :
    Text.words x.chars = [w] := by
  obtain ⟨hchars, hne, hword⟩ := code?_valid hvalid hcode
  have hrun := runsOf_run_append hne hword startsOutside_nil
  rw [List.append_nil] at hrun
  rw [hchars, Text.words, hrun]
  rfl

theorem words_chars (hvalid : x.isValid = true) : Text.words x.chars = x.words := by
  cases x with
  | name w => exact words_of_code? hvalid rfl
  | number w => exact words_of_code? hvalid rfl
  | quoted content =>
      have hquote : StartsOutside isWordChar ['\''] := startsOutside_cons.2 isWordChar_quote
      rw [chars, Text.words, runsOf_cons isWordChar_quote, runsOf_append (.inr hquote),
        runsOf_cons isWordChar_quote]
      exact List.append_nil _
  | mark c =>
      rw [isValid, Bool.and_eq_true, Bool.not_eq_true'] at hvalid
      exact runsOf_cons hvalid.1 []

theorem apart_chars {xs : List Lexeme} (h : Orderly (x :: xs)) :
    Apart isWordChar x.chars (text xs) := by
  have hstarts : (∀ c, x ≠ mark c) → StartsOutside isWordChar (text xs) := fun hx =>
    startsOutside_text h hx (marksOutside_isWordChar x)
  cases x with
  | name w => exact .inr (hstarts fun _ heq => nomatch heq)
  | number w => exact .inr (hstarts fun _ heq => nomatch heq)
  | quoted content => exact .inr (hstarts fun _ heq => nomatch heq)
  | mark c =>
      refine .inl fun d hd => ?_
      cases hd
      have hvalid := h.valid (mark c) List.mem_cons_self
      rw [isValid, Bool.and_eq_true, Bool.not_eq_true'] at hvalid
      exact hvalid.1

theorem words_text {xs : List Lexeme} (h : Orderly xs) :
    Text.words (text xs) = xs.flatMap words := by
  induction xs with
  | nil => rfl
  | cons x xs ih =>
      have hx := words_chars (h.valid x List.mem_cons_self)
      have hxs := ih h.of_cons
      rw [Text.words] at hx hxs ⊢
      rw [text_cons, runsOf_append (apart_chars h), hx, hxs, List.flatMap_cons]

/-! ## Names and numbers -/

/-- A lexeme replaced by a name, and all others left alone. -/
def exchange (x : Lexeme) (new : List Char) (y : Lexeme) : Lexeme :=
  if y = x then .name new else y

theorem map_exchange_of_notMem {xs : List Lexeme} (h : x ∉ xs) (new : List Char) :
    xs.map (exchange x new) = xs := by
  refine (List.map_congr_left fun y hy => ?_).trans (List.map_id xs)
  exact if_neg fun (heq : y = x) => h (heq ▸ hy)

/-- A run that is no word of a line is left alone by the exchange of runs. -/
theorem substituteRuns_of_notMem_words (hclass : ∀ c, isWordChar c = true → inClass c = true)
    (hword : ∀ c ∈ w, isWordChar c = true) {t : List Char} (h : w ∉ Text.words t)
    (new : List Char) : substituteRuns inClass w new t = t :=
  substituteRuns_of_notMem (fun hmem => h (mem_runsOf_of_imp hclass hword hmem)) new

/-- What a lexeme spells is found in the words of a line only where the lexeme
itself is. -/
theorem notMem_words_text (hvalid : x.isValid = true) (hcode : x.code? = some w)
    {xs : List Lexeme} (h : Orderly xs) (hx : x ∉ xs)
    (hinner : ∀ content, quoted content ∈ xs → w ∉ Text.words content) :
    w ∉ Text.words (text xs) := by
  intro hmem
  rw [words_text h] at hmem
  obtain ⟨y, hy, hwy⟩ := List.mem_flatMap.1 hmem
  have hyvalid := h.valid y hy
  cases y with
  | name v =>
      cases List.mem_singleton.1 hwy
      exact hx (eq_of_code?_eq hvalid hyvalid hcode rfl ▸ hy)
  | number v =>
      cases List.mem_singleton.1 hwy
      exact hx (eq_of_code?_eq hvalid hyvalid hcode rfl ▸ hy)
  | quoted content => exact hinner content hy hwy
  | mark c => nomatch hwy

theorem substituteRuns_text (hclass : ∀ c, isWordChar c = true → inClass c = true)
    (hvalid : x.isValid = true) (hcode : x.code? = some w) (hmarks : MarksOutside inClass x)
    {xs : List Lexeme} (h : Orderly xs)
    (hinner : ∀ content, quoted content ∈ xs → w ∉ Text.words content) (new : List Char) :
    substituteRuns inClass w new (text xs) = text (xs.map (exchange x new)) := by
  obtain ⟨hchars, hne, hword⟩ := code?_valid hvalid hcode
  have hin : ∀ c ∈ w, inClass c = true := fun c hc => hclass c (hword c hc)
  have hnotmark : ∀ c, x ≠ mark c := by
    rintro c rfl
    nomatch hcode
  induction hn : xs.length using Nat.strong_induction_on generalizing xs with
  | _ n ih =>
      by_cases hx : x ∈ xs
      · obtain ⟨front, back, rfl, hnot⟩ := List.eq_append_cons_of_mem hx
        obtain ⟨hfront, hback⟩ := h.of_append
        have hapart : Apart inClass (text front) (w ++ text back) :=
          .inl (endsOutside_text h hnotmark hmarks)
        have hstarts : StartsOutside inClass (text back) :=
          startsOutside_text hback hnotmark hmarks
        have habsent : w ∉ Text.words (text front) :=
          notMem_words_text hvalid hcode hfront hnot fun content hcontent =>
            hinner content (List.mem_append_left _ hcontent)
        have hshorter : back.length < n := by
          rw [← hn, List.length_append, List.length_cons]
          omega
        have hrest := ih back.length hshorter hback.of_cons
          (fun content hcontent => hinner content (by simp [hcontent])) rfl
        rw [text_append, text_cons, hchars, substituteRuns_append hapart,
          substituteRuns_run_append hne hin hstarts, if_pos rfl,
          substituteRuns_of_notMem_words hclass hword habsent, hrest, List.map_append,
          List.map_cons, map_exchange_of_notMem hnot, exchange, if_pos rfl, text_append, text_cons]
        rfl
      · rw [map_exchange_of_notMem hx, substituteRuns_of_notMem_words hclass hword
          (notMem_words_text hvalid hcode h hx hinner)]

/-! ## Strings -/

theorem chars_ne_nil (hvalid : x.isValid = true) : x.chars ≠ [] := by
  cases x with
  | name w => exact (code?_valid hvalid rfl).2.1
  | number w => exact (code?_valid hvalid rfl).2.1
  | quoted content => exact List.cons_ne_nil _ _
  | mark c => exact List.cons_ne_nil _ _

theorem eq_of_append_quote_eq {xs ys xs' ys' : List Char} (hxs : '\'' ∉ xs) (hys : '\'' ∉ ys)
    (h : xs ++ '\'' :: xs' = ys ++ '\'' :: ys') : xs = ys := by
  induction xs generalizing ys with
  | nil =>
      cases ys with
      | nil => rfl
      | cons d ys =>
          rw [(List.cons.inj h).1] at hys
          simp at hys
  | cons c xs ih =>
      cases ys with
      | nil =>
          rw [← (List.cons.inj h).1] at hxs
          simp at hxs
      | cons d ys =>
          obtain ⟨rfl, hrest⟩ := List.cons.inj h
          rw [ih (fun hc => hxs (List.mem_cons_of_mem _ hc))
            (fun hc => hys (List.mem_cons_of_mem _ hc)) hrest]

theorem quote_notMem_chars (hvalid : x.isValid = true) (hx : ∀ content, x ≠ quoted content) :
    '\'' ∉ x.chars := by
  have hcode : ∀ w, x.code? = some w → '\'' ∉ x.chars := by
    intro w hcode hmem
    obtain ⟨hchars, -, hword⟩ := code?_valid hvalid hcode
    have hquote := hword _ (hchars ▸ hmem)
    rw [isWordChar_quote] at hquote
    nomatch hquote
  cases x with
  | name w => exact hcode w rfl
  | number w => exact hcode w rfl
  | quoted content => exact absurd rfl (hx content)
  | mark c =>
      rw [isValid, Bool.and_eq_true, bne_iff_ne] at hvalid
      exact fun hmem => hvalid.2 (List.mem_singleton.1 hmem).symm

theorem quote_notMem_text {xs : List Lexeme} (h : Orderly xs)
    (hxs : ∀ content, quoted content ∉ xs) : '\'' ∉ text xs := by
  intro hmem
  obtain ⟨x, hx, hmem⟩ := List.mem_flatMap.1 hmem
  exact quote_notMem_chars (h.valid x hx) (fun content heq => hxs content (heq ▸ hx)) hmem

theorem quoted_isValid_iff {content : List Char} :
    (quoted content).isValid = true ↔
      '\'' ∉ content ∧ (content = [] ∨ Text.words content ≠ []) := by
  simp [isValid]

theorem quoted_chars_append (content rest : List Char) :
    (quoted content).chars ++ rest = '\'' :: (content ++ '\'' :: rest) := by
  rw [chars, List.cons_append, List.append_assoc, List.singleton_append]

/-- The lexemes in front of the first string. -/
theorem exists_first_quoted {xs : List Lexeme} {content : List Char} (h : quoted content ∈ xs) :
    ∃ front first back, xs = front ++ quoted first :: back ∧ ∀ c, quoted c ∉ front := by
  induction xs with
  | nil => nomatch h
  | cons x xs ih =>
      by_cases hx : ∃ first, x = quoted first
      · obtain ⟨first, rfl⟩ := hx
        exact ⟨[], first, xs, rfl, fun _ hmem => nomatch hmem⟩
      · have hnot : ∀ c, quoted c ≠ x := fun c heq => hx ⟨c, heq.symm⟩
        obtain ⟨front, first, back, rfl, hfront⟩ := ih ((List.mem_cons.1 h).resolve_left (hnot _))
        refine ⟨x :: front, first, back, rfl, fun c hc => ?_⟩
        exact (List.mem_cons.1 hc).elim (hnot c) (hfront c)

/-- From the quote that closes a string no other string begins. Up to the next
quote there would have to be its content: not nothing, since strings are kept
apart, and nothing with a word in it either. -/
theorem not_prefix_behind_quoted {content content' : List Char}
    (hvalid : (quoted content).isValid = true) {xs : List Lexeme}
    (h : Orderly (quoted content' :: xs))
    (hcode : ∀ x ∈ xs, ∀ w, x.code? = some w → w ∉ Text.words content) :
    ¬content ++ ['\''] <+: text xs := by
  rintro ⟨rest, hrest⟩
  obtain ⟨hquote, hcontent⟩ := quoted_isValid_iff.1 hvalid
  rw [List.append_assoc, List.singleton_append] at hrest
  by_cases hquoted : ∃ c, quoted c ∈ xs
  · obtain ⟨c, hc⟩ := hquoted
    obtain ⟨front, first, back, rfl, hfront⟩ := exists_first_quoted hc
    have hfrontOrderly := h.of_cons.of_append.1
    rw [text_append, text_cons, quoted_chars_append] at hrest
    have heq : content = text front :=
      eq_of_append_quote_eq hquote (quote_notMem_text hfrontOrderly hfront) hrest
    rcases hcontent with hnil | hwords
    · cases front with
      | nil =>
          have hfits : (quoted content').fits (quoted first) = true :=
            (List.isChain_cons_cons.1 h.chain).1
          nomatch hfits
      | cons y front =>
          rw [hnil, text_cons] at heq
          exact chars_ne_nil (hfrontOrderly.valid y List.mem_cons_self)
            (List.append_eq_nil_iff.1 heq.symm).1
    · obtain ⟨w, hw⟩ := List.exists_mem_of_ne_nil _ hwords
      have hmem := hw
      rw [heq, words_text hfrontOrderly] at hmem
      obtain ⟨y, hy, hwy⟩ := List.mem_flatMap.1 hmem
      have hnot := hcode y (List.mem_append_left _ hy) w
      cases y with
      | name v =>
          cases List.mem_singleton.1 hwy
          exact hnot rfl hw
      | number v =>
          cases List.mem_singleton.1 hwy
          exact hnot rfl hw
      | quoted c => exact hfront c hy
      | mark c => nomatch hwy
  · have hnone := quote_notMem_text h.of_cons fun c hc => hquoted ⟨c, hc⟩
    rw [← hrest] at hnone
    simp at hnone

theorem replaceFrom_cons {needle rest : List Char} {c : Char} (h : ¬needle <+: c :: rest)
    (new : List Char) :
    replaceFrom needle new 0 (c :: rest) = c :: replaceFrom needle new 0 rest := by
  rw [replaceFrom, if_neg (by rwa [List.isPrefixOf_iff_prefix])]

theorem replaceFrom_passed (needle new u rest : List Char) :
    replaceFrom needle new u.length (u ++ rest) = replaceFrom needle new 0 rest := by
  induction u with
  | nil => rfl
  | cons c u ih => exact ih

theorem replaceFrom_found {needle : List Char} (hne : needle ≠ []) (new rest : List Char) :
    replaceFrom needle new 0 (needle ++ rest) = new ++ replaceFrom needle new 0 rest := by
  obtain ⟨c, more, rfl⟩ := List.exists_cons_of_ne_nil hne
  have hprefix : (c :: more).isPrefixOf (c :: (more ++ rest)) = true :=
    List.isPrefixOf_iff_prefix.2 (List.prefix_append (c :: more) rest)
  rw [List.cons_append, replaceFrom, if_pos hprefix]
  exact congrArg (new ++ ·) (replaceFrom_passed (c :: more) new more rest)

theorem replaceFrom_skip {content u : List Char} (hu : '\'' ∉ u) (new rest : List Char) :
    replaceFrom (quoted content).chars new 0 (u ++ rest) =
      u ++ replaceFrom (quoted content).chars new 0 rest := by
  induction u with
  | nil => rfl
  | cons c u ih =>
      have hc : ¬(quoted content).chars <+: c :: (u ++ rest) := by
        intro hprefix
        exact hu ((List.cons_prefix_cons.1 hprefix).1 ▸ List.mem_cons_self)
      rw [List.cons_append, replaceFrom_cons hc, ih fun hmem => hu (List.mem_cons_of_mem c hmem),
        List.cons_append]

/-- One string is not found in another. -/
theorem replaceFrom_other {content content' : List Char}
    (hvalid : (quoted content).isValid = true) (hne : content ≠ content') {xs : List Lexeme}
    (h : Orderly (quoted content' :: xs))
    (hcode : ∀ x ∈ xs, ∀ w, x.code? = some w → w ∉ Text.words content) (new : List Char) :
    replaceFrom (quoted content).chars new 0 ((quoted content').chars ++ text xs) =
      (quoted content').chars ++ replaceFrom (quoted content).chars new 0 (text xs) := by
  have hquote := (quoted_isValid_iff.1 hvalid).1
  have hquote' := (quoted_isValid_iff.1 (h.valid _ List.mem_cons_self)).1
  have hopening : ¬(quoted content).chars <+: '\'' :: (content' ++ '\'' :: text xs) := by
    intro hprefix
    obtain ⟨rest, hrest⟩ := (List.cons_prefix_cons.1 hprefix).2
    rw [List.append_assoc, List.singleton_append] at hrest
    exact hne (eq_of_append_quote_eq hquote hquote' hrest)
  have hclosing : ¬(quoted content).chars <+: '\'' :: text xs := by
    intro hprefix
    exact not_prefix_behind_quoted hvalid h hcode (List.cons_prefix_cons.1 hprefix).2
  rw [quoted_chars_append, replaceFrom_cons hopening, replaceFrom_skip hquote',
    replaceFrom_cons hclosing, quoted_chars_append]

theorem replaceAll_text {content : List Char} (hvalid : (quoted content).isValid = true)
    {xs : List Lexeme} (h : Orderly xs)
    (hcode : ∀ x ∈ xs, ∀ w, x.code? = some w → w ∉ Text.words content) (new : List Char) :
    replaceAll (quoted content).chars new (text xs) =
      text (xs.map (exchange (quoted content) new)) := by
  rw [replaceAll, if_neg (by simp [chars])]
  induction xs with
  | nil => rfl
  | cons x xs ih =>
      have hcodeRest := fun y hy => hcode y (List.mem_cons_of_mem x hy)
      have hrest := ih h.of_cons hcodeRest
      rw [List.map_cons, text_cons, text_cons, ← hrest]
      by_cases hx : x = quoted content
      · rw [exchange, if_pos hx, hx]
        exact replaceFrom_found (chars_ne_nil hvalid) new _
      · rw [exchange, if_neg hx]
        by_cases hquoted : ∃ content', x = quoted content'
        · obtain ⟨content', rfl⟩ := hquoted
          exact replaceFrom_other hvalid (fun heq => hx (heq ▸ rfl)) h hcodeRest new
        · exact replaceFrom_skip (quote_notMem_chars (h.valid x List.mem_cons_self)
            fun content' heq => hquoted ⟨content', heq⟩) new _

end Lexeme

end EditMining
