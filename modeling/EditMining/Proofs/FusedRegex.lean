import EditMining.Language.Lexer
import EditMining.Oracle.Lexical
import EditMining.Proofs.BoundedReplacement
import EditMining.Proofs.UnchangedSides

/-!
# Regular expressions of fused tokens

The blanks between tokens are gone when neighbours are fused, so a word of the fused
text may be made of words of several tokens. Such a word is read on its own: a
placeholder behind a keyword is no placeholder any more, and digits behind a placeholder
change its number.

A regular expression is made word by word (`regexOf_run_append`), so two of them can be
compared the same way: behind a word, neither the rest of the text nor its regular
expression goes on with a word character. What a word says and what its parts say begin
differently, or go on differently, unless neither the word nor a part is a placeholder
(`wordRegex_append_eq_iff`). So a fused token says what its tokens say just if all its
words come from one token each or have nothing to do with placeholders
(`regexSource_fuse_iff`). Lines of programs are not all like that
(`fused_keyword_hides_placeholder`).
-/

namespace EditMining

open Text

namespace Placeholder

variable {p q : Placeholder} {w front rest : List Char}

theorem exists_digits_of_parse? (h : parse? w = some p) :
    ∃ digits, w = p.kind.stem.toList ++ '_' :: digits ∧ digits.all Char.isDigit = true := by
  obtain ⟨kind, -, hkind⟩ := List.exists_of_findSome?_eq_some h
  rw [parseAs?] at hkind
  split at hkind
  · next digits hprefix =>
      obtain ⟨index, hindex, rfl⟩ := Option.map_eq_some_iff.1 hkind
      refine ⟨digits, (List.isPrefixOf?_eq_some_iff_append_eq.1 hprefix).symm, ?_⟩
      rw [Decimal.readNumeral] at hindex
      obtain ⟨hnumeral, -⟩ := Option.ite_none_right_eq_some.1 hindex
      simp only [Decimal.isNumeral, Bool.and_eq_true] at hnumeral
      exact hnumeral.1.2
  · simp at hkind

theorem canRun_of_parse? (h : parse? w = some p) : CanRun isWordChar w := by
  obtain ⟨digits, rfl, hdigits⟩ := exists_digits_of_parse? h
  have hstem : p.kind.stem.toList.all isWordChar = true := by
    cases p.kind <;> decide
  refine ⟨by simp, fun c hc => ?_⟩
  rw [List.mem_append, List.mem_cons] at hc
  obtain hc | rfl | hc := hc
  · exact List.all_eq_true.1 hstem c hc
  · rfl
  · have hdigit := List.all_eq_true.1 hdigits c hc
    rw [isWordChar, isAlphanumeric_of_isAlphanum (by simp [Char.isAlphanum, hdigit]),
      Bool.true_or]

/-- If the front of a placeholder is a placeholder too, both are of one kind, and only
digits follow. -/
theorem kind_eq_of_append (hw : parse? (front ++ rest) = some p) (hfront : parse? front = some q) :
    q.kind = p.kind ∧ rest.all Char.isDigit = true := by
  obtain ⟨digits, hp, hdigits⟩ := exists_digits_of_parse? hw
  obtain ⟨digits', hq, -⟩ := exists_digits_of_parse? hfront
  have hkind : q.kind = p.kind := by
    obtain ⟨more, hmore⟩ := q.kind.exists_stem_eq
    obtain ⟨more', hmore'⟩ := p.kind.exists_stem_eq
    rw [hq, hmore, hmore'] at hp
    have hinitial : q.kind.initial = p.kind.initial := (List.cons.inj hp).1
    revert hinitial
    cases q.kind <;> cases p.kind <;> decide
  rw [hq, hkind, List.append_assoc, List.append_cancel_left_eq, List.cons_append] at hp
  rw [← (List.cons.inj hp).2, List.all_append, Bool.and_eq_true] at hdigits
  exact ⟨hkind, hdigits.2⟩

end Placeholder

namespace Text

variable {c : Char} {w text rest : List Char}

/-! ## The regular expression of a text, word by word -/

/-- What a word becomes in a regular expression. -/
def wordRegex (w : List Char) : List Char :=
  pieceRegex ⟨true, w⟩

theorem wordRegex_of_parse? {p : Placeholder} (h : Placeholder.parse? w = some p) :
    wordRegex w = p.kind.regex.toList := by
  simp [wordRegex, pieceRegex, h]

theorem escapeRegex_of_isWordChar (h : isWordChar c = true) : escapeRegex c = [c] := by
  have hmarks : ("\\.+*?()|[]\x7b\x7d^$#&-~".toList.all fun d => !isWordChar d) = true := by decide
  rw [escapeRegex, if_neg]
  intro hmark
  have hc := List.all_eq_true.1 hmarks c (List.contains_iff_mem.1 hmark)
  rw [h] at hc
  nomatch hc

theorem flatMap_escapeRegex (hw : ∀ c ∈ w, isWordChar c = true) : w.flatMap escapeRegex = w := by
  induction w with
  | nil => rfl
  | cons c w ih =>
      rw [List.flatMap_cons, escapeRegex_of_isWordChar (hw c List.mem_cons_self),
        ih fun d hd => hw d (List.mem_cons_of_mem c hd)]
      rfl

theorem wordRegex_of_not_isPlaceholder (h : Placeholder.isPlaceholder w = false)
    (hw : ∀ c ∈ w, isWordChar c = true) : wordRegex w = w := by
  have hnone : Placeholder.parse? w = none :=
    Option.not_isSome_iff_eq_none.1 (Bool.eq_false_iff.1 h)
  rw [wordRegex, pieceRegex]
  simp only [hnone, ↓reduceIte]
  exact flatMap_escapeRegex hw

theorem regexOf_run_append (hw : CanRun isWordChar w) (hrest : StartsOutside isWordChar rest) :
    regexOf (w ++ rest) = wordRegex w ++ regexOf rest := by
  rw [regexOf, pieces_run_append hw.ne_nil hw.inside hrest, List.flatMap_cons]
  rfl

theorem regexOf_cons (hc : isWordChar c = false) (rest : List Char) :
    regexOf (c :: rest) = escapeRegex c ++ regexOf rest := by
  rw [regexOf, flatMap_pieces_cons (fun _ => by simp [pieceRegex]) hc]
  simp [pieceRegex, regexOf]

theorem regexOf_outside_append (h : ∀ c ∈ text, isWordChar c = false) (rest : List Char) :
    regexOf (text ++ rest) = text.flatMap escapeRegex ++ regexOf rest := by
  induction text with
  | nil => rfl
  | cons c text ih =>
      rw [List.cons_append, regexOf_cons (h c List.mem_cons_self),
        ih fun d hd => h d (List.mem_cons_of_mem c hd), List.flatMap_cons, List.append_assoc]

theorem startsOutside_regexOf (h : StartsOutside isWordChar text) :
    StartsOutside isWordChar (regexOf text) := by
  cases text with
  | nil => exact startsOutside_nil
  | cons c rest =>
      have hc := startsOutside_cons.1 h
      rw [regexOf_cons hc, escapeRegex]
      split
      · exact startsOutside_cons.2 (by decide)
      · exact startsOutside_cons.2 hc

/-- A word begins with a word character, and the values of a placeholder do not. -/
theorem run_append_ne_regex (hw : CanRun isWordChar w) (kind : PlaceholderKind)
    (xs ys : List Char) : w ++ xs ≠ kind.regex.toList ++ ys := by
  have hhead : ∃ c, kind.regex.toList.head? = some c ∧ isWordChar c = false := by
    cases kind with
    | identifier => exact ⟨'[', by decide, by decide⟩
    | string => exact ⟨'[', by decide, by decide⟩
    | number => exact ⟨'\\', by decide, by decide⟩
    | function => exact ⟨'[', by decide, by decide⟩
  obtain ⟨c, hc, hout⟩ := hhead
  obtain ⟨more, hmore⟩ := List.head?_eq_some_iff.1 hc
  obtain ⟨d, rest, rfl⟩ := List.exists_cons_of_ne_nil hw.ne_nil
  have hd := hw.inside d List.mem_cons_self
  intro heq
  rw [hmore] at heq
  rw [(List.cons.inj heq).1, hout] at hd
  nomatch hd

/-! ## Words that tokens are fused into -/

/-- The words of a text that is made of some pieces, each with the pieces it is made
of. -/
def partsOfWords : List Piece → List (List (List Char))
  | [] => []
  | p :: ps =>
      if p.inside then
        (p.chars :: (ps.takeWhile (·.inside)).map (·.chars))
          :: partsOfWords (ps.dropWhile (·.inside))
      else partsOfWords ps
termination_by ps => ps.length
decreasing_by
  · exact Nat.lt_succ_of_le (List.dropWhile_suffix _).length_le
  · exact Nat.lt_succ_self _

/-- The words of a text that is fused of others, each with the parts that these
contribute. -/
def wordParts (texts : List (List Char)) : List (List (List Char)) :=
  partsOfWords (texts.flatMap (pieces isWordChar))

/-- A word comes from one text, or neither it nor any part of it is a placeholder. -/
def KeepsPlaceholders (parts : List (List Char)) : Prop :=
  parts.length = 1 ∨
    (∀ w ∈ parts, Placeholder.isPlaceholder w = false) ∧
      Placeholder.isPlaceholder parts.flatten = false

variable {parts : List (List Char)} {xs ys : List Char}

theorem canRun_flatten (hne : parts ≠ []) (hparts : ∀ w ∈ parts, CanRun isWordChar w) :
    CanRun isWordChar parts.flatten := by
  obtain ⟨w, hw⟩ := List.exists_mem_of_ne_nil parts hne
  refine ⟨fun hnil => (hparts w hw).ne_nil (List.flatten_eq_nil_iff.1 hnil w hw), fun c hc => ?_⟩
  obtain ⟨v, hv, hc⟩ := List.mem_flatten.1 hc
  exact (hparts v hv).inside c hc

theorem flatten_append_eq_iff (hparts : ∀ w ∈ parts, CanRun isWordChar w) :
    parts.flatten ++ xs = parts.flatMap wordRegex ++ ys ↔
      (∀ w ∈ parts, Placeholder.isPlaceholder w = false) ∧ xs = ys := by
  induction parts with
  | nil => simp
  | cons w parts ih =>
      obtain ⟨hw, hparts⟩ := List.forall_mem_cons.1 hparts
      rw [List.flatten_cons, List.flatMap_cons, List.append_assoc, List.append_assoc,
        List.forall_mem_cons]
      cases hplaceholder : Placeholder.isPlaceholder w with
      | false =>
          rw [wordRegex_of_not_isPlaceholder hplaceholder hw.inside, List.append_cancel_left_eq,
            ih hparts]
          simp
      | true =>
          obtain ⟨p, hp⟩ := Option.isSome_iff_exists.1 hplaceholder
          rw [wordRegex_of_parse? hp]
          constructor
          · intro heq
            exact absurd heq (run_append_ne_regex hw p.kind _ _)
          · rintro ⟨⟨hnot, -⟩, -⟩
            nomatch hnot

theorem isPlaceholder_of_isDigit (hc : c.isDigit = true) :
    Placeholder.isPlaceholder (c :: w) = false := by
  refine Bool.eq_false_iff.2 fun h => ?_
  obtain ⟨kind, more, heq⟩ := Placeholder.exists_initial_of_isPlaceholder h
  rw [(List.cons.inj heq).1] at hc
  cases kind <;> nomatch hc

theorem regex_append_ne {p : Placeholder} {v : List Char}
    (hflat : Placeholder.parse? (w ++ (v ++ parts.flatten)) = some p)
    (hw : CanRun isWordChar w) (hv : CanRun isWordChar v) (hxs : StartsOutside isWordChar xs)
    (ys : List Char) :
    p.kind.regex.toList ++ xs ≠ (w :: v :: parts).flatMap wordRegex ++ ys := by
  intro heq
  rw [List.flatMap_cons, List.flatMap_cons, List.append_assoc, List.append_assoc] at heq
  cases hplaceholder : Placeholder.isPlaceholder w with
  | false =>
      rw [wordRegex_of_not_isPlaceholder hplaceholder hw.inside] at heq
      exact run_append_ne_regex hw p.kind _ _ heq.symm
  | true =>
      -- Both begin with the values of one kind, and then one of them goes on with a digit.
      obtain ⟨q, hq⟩ := Option.isSome_iff_exists.1 hplaceholder
      obtain ⟨hkind, hdigits⟩ := Placeholder.kind_eq_of_append hflat hq
      obtain ⟨e, rest, rfl⟩ := List.exists_cons_of_ne_nil hv.ne_nil
      rw [List.cons_append, List.all_cons, Bool.and_eq_true] at hdigits
      rw [wordRegex_of_parse? hq, hkind, List.append_cancel_left_eq,
        wordRegex_of_not_isPlaceholder (isPlaceholder_of_isDigit hdigits.1) hv.inside] at heq
      have he := hv.inside e List.mem_cons_self
      rw [hxs e (by rw [heq]; rfl)] at he
      nomatch he

theorem wordRegex_append_eq_iff (hne : parts ≠ []) (hparts : ∀ w ∈ parts, CanRun isWordChar w)
    (hxs : StartsOutside isWordChar xs) :
    wordRegex parts.flatten ++ xs = parts.flatMap wordRegex ++ ys ↔
      KeepsPlaceholders parts ∧ xs = ys := by
  match parts with
  | [] => exact absurd rfl hne
  | [w] => simp [KeepsPlaceholders]
  | w :: v :: parts =>
      have hlength : (w :: v :: parts).length ≠ 1 := by simp
      have hinside := (canRun_flatten hne hparts).inside
      rw [KeepsPlaceholders, or_iff_right hlength]
      cases hplaceholder : Placeholder.isPlaceholder (w :: v :: parts).flatten with
      | false =>
          rw [wordRegex_of_not_isPlaceholder hplaceholder hinside, flatten_append_eq_iff hparts]
          simp
      | true =>
          obtain ⟨p, hp⟩ := Option.isSome_iff_exists.1 hplaceholder
          rw [wordRegex_of_parse? hp]
          have hother := regex_append_ne hp (hparts w (by simp)) (hparts v (by simp)) hxs ys
          exact ⟨fun heq => absurd heq hother, fun h => nomatch h.1.2⟩

/-! ## Fused texts -/

/-- Pieces that each lie on one side are followed word by word. -/
theorem partsOfWords_induction {motive : List Piece → List (List (List Char)) → Prop}
    (nil : motive [] [])
    (outside : ∀ p ps, p.inside = false → (∀ c ∈ p.chars, isWordChar c = false) →
      motive ps (partsOfWords ps) → motive (p :: ps) (partsOfWords ps))
    (word : ∀ word rest, (∀ p ∈ word, p.inside = true) → word.map (·.chars) ≠ [] →
      (∀ w ∈ word.map (·.chars), CanRun isWordChar w) →
      StartsOutside isWordChar (rest.flatMap (·.chars)) → motive rest (partsOfWords rest) →
      motive (word ++ rest) (word.map (·.chars) :: partsOfWords rest))
    {ps : List Piece} (hne : ∀ p ∈ ps, p.chars ≠ [])
    (huniform : ∀ p ∈ ps, ∀ c ∈ p.chars, isWordChar c = p.inside) :
    motive ps (partsOfWords ps) := by
  fun_induction partsOfWords ps with
  | case1 => exact nil
  | case2 p ps hp ih =>
      have hcut : p :: ps = (p :: ps.takeWhile (·.inside)) ++ ps.dropWhile (·.inside) := by
        rw [List.cons_append, List.takeWhile_append_dropWhile]
      have hinside : ∀ q ∈ p :: ps.takeWhile (·.inside), q.inside = true :=
        List.forall_mem_cons.2 ⟨hp, fun q hq => List.all_eq_true.1 List.all_takeWhile q hq⟩
      rw [hcut] at hne huniform
      simp only [List.forall_mem_append] at hne huniform
      rw [hcut]
      refine word _ _ hinside (by simp) ?_ ?_ (ih hne.2 huniform.2)
      · refine List.forall_mem_map.2 fun q hq => ⟨hne.1 q hq, fun c hc => ?_⟩
        rw [huniform.1 q hq c hc, hinside q hq]
      · -- What is left begins with a piece outside of words, if there is one.
        cases hrest : ps.dropWhile (·.inside) with
        | nil => exact startsOutside_nil
        | cons q rest =>
            have hout := List.head?_dropWhile_not (·.inside) ps
            rw [hrest] at hne huniform hout
            obtain ⟨c, more, hchars⟩ := List.exists_cons_of_ne_nil (hne.2 q List.mem_cons_self)
            rw [List.flatMap_cons, hchars]
            refine startsOutside_cons.2 ?_
            rw [huniform.2 q List.mem_cons_self c (by simp [hchars])]
            simpa using hout
  | case3 p ps hp ih =>
      rw [Bool.not_eq_true] at hp
      rw [List.forall_mem_cons] at hne huniform
      refine outside p ps hp (fun c hc => ?_) (ih hne.2 huniform.2)
      rw [huniform.1 c hc, hp]

section Pieces

variable {ps : List Piece} (hne : ∀ p ∈ ps, p.chars ≠ [])
  (huniform : ∀ p ∈ ps, ∀ c ∈ p.chars, isWordChar c = p.inside)

include hne huniform

theorem map_flatten_partsOfWords :
    (partsOfWords ps).map List.flatten = words (ps.flatMap (·.chars)) := by
  refine partsOfWords_induction (motive := fun ps parts =>
    parts.map List.flatten = words (ps.flatMap (·.chars))) rfl ?_ ?_ hne huniform
  · intro p ps _ hout ih
    rw [List.flatMap_cons, words, runsOf_outside_append hout]
    exact ih
  · intro word rest _ hword hparts hbehind ih
    have hrun := canRun_flatten hword hparts
    have hchars : word.flatMap (·.chars) = (word.map (·.chars)).flatten := List.flatMap_def
    rw [List.map_cons, ih, List.flatMap_append, hchars]
    exact (runsOf_run_append hrun.ne_nil hrun.inside hbehind).symm

theorem flatten_partsOfWords :
    (partsOfWords ps).flatten = (ps.filter (·.inside)).map (·.chars) := by
  refine partsOfWords_induction (motive := fun ps parts =>
    parts.flatten = (ps.filter (·.inside)).map (·.chars)) rfl ?_ ?_ hne huniform
  · intro p ps hp _ ih
    rw [ih, List.filter_cons_of_neg (by simp [hp])]
  · intro word rest hinside _ _ _ ih
    have hall : word.filter (·.inside) = word := List.filter_eq_self.2 hinside
    rw [List.flatten_cons, ih, List.filter_append, hall, List.map_append]

theorem regexOf_flatMap_chars_iff :
    regexOf (ps.flatMap (·.chars)) = ps.flatMap pieceRegex ↔
      ∀ parts ∈ partsOfWords ps, KeepsPlaceholders parts := by
  refine partsOfWords_induction (motive := fun ps parts =>
    (regexOf (ps.flatMap (·.chars)) = ps.flatMap pieceRegex ↔
      ∀ ws ∈ parts, KeepsPlaceholders ws)) (by simp [regexOf, pieces]) ?_ ?_ hne huniform
  · intro p ps hp hout ih
    have hpiece : pieceRegex p = p.chars.flatMap escapeRegex := by simp [pieceRegex, hp]
    rw [List.flatMap_cons, List.flatMap_cons, regexOf_outside_append hout, hpiece,
      List.append_cancel_left_eq, ih]
  · intro word rest hinside hword hparts hbehind ih
    have hchars : word.flatMap (·.chars) = (word.map (·.chars)).flatten := List.flatMap_def
    have hregex : word.flatMap pieceRegex = (word.map (·.chars)).flatMap wordRegex := by
      rw [List.flatMap_map]
      refine List.flatMap_congr fun p hp => ?_
      rw [wordRegex, ← hinside p hp]
    rw [List.flatMap_append, List.flatMap_append, hchars, hregex,
      regexOf_run_append (canRun_flatten hword hparts) hbehind,
      wordRegex_append_eq_iff hword hparts (startsOutside_regexOf hbehind), ih,
      List.forall_mem_cons]

end Pieces

theorem flatMap_pieces_chars (texts : List (List Char)) :
    (texts.flatMap (pieces isWordChar)).flatMap (·.chars) = texts.flatten := by
  simp [List.flatMap_assoc, flatten_pieces]

theorem flatMap_pieces_pieceRegex (texts : List (List Char)) :
    (texts.flatMap (pieces isWordChar)).flatMap pieceRegex = texts.flatMap regexOf :=
  List.flatMap_assoc

theorem ne_nil_of_mem_flatMap_pieces {texts : List (List Char)} :
    ∀ p ∈ texts.flatMap (pieces isWordChar), p.chars ≠ [] :=
  List.forall_mem_flatMap.2 fun text _ => (cuts_pieces isWordChar text).ne_nil

theorem uniform_of_mem_flatMap_pieces {texts : List (List Char)} :
    ∀ p ∈ texts.flatMap (pieces isWordChar), ∀ c ∈ p.chars, isWordChar c = p.inside :=
  List.forall_mem_flatMap.2 fun text _ => (cuts_pieces isWordChar text).uniform

theorem map_flatten_wordParts (texts : List (List Char)) :
    (wordParts texts).map List.flatten = words texts.flatten := by
  rw [wordParts, map_flatten_partsOfWords ne_nil_of_mem_flatMap_pieces
    uniform_of_mem_flatMap_pieces, flatMap_pieces_chars]

theorem flatten_wordParts (texts : List (List Char)) :
    (wordParts texts).flatten = texts.flatMap words := by
  rw [wordParts, flatten_partsOfWords ne_nil_of_mem_flatMap_pieces uniform_of_mem_flatMap_pieces,
    List.filter_flatMap, List.map_flatMap]
  rfl

theorem regexOf_flatten_iff (texts : List (List Char)) :
    regexOf texts.flatten = texts.flatMap regexOf ↔
      ∀ parts ∈ wordParts texts, KeepsPlaceholders parts := by
  rw [← flatMap_pieces_chars, ← flatMap_pieces_pieceRegex]
  exact regexOf_flatMap_chars_iff ne_nil_of_mem_flatMap_pieces uniform_of_mem_flatMap_pieces

theorem regexOf_append {text rest : List Char} (h : Apart isWordChar text rest) :
    regexOf (text ++ rest) = regexOf text ++ regexOf rest := by
  induction text using run_induction isWordChar with
  | nil => rfl
  | outside c text hc ih =>
      rw [List.cons_append, regexOf_cons hc, regexOf_cons hc, ih h.of_cons, List.append_assoc]
  | run w text hne hw htext ih =>
      have hbehind : StartsOutside isWordChar (text ++ rest) :=
        startsOutside_append htext fun hnil =>
          Apart.startsOutside (by rwa [hnil, List.append_nil] at h) hne hw
      rw [List.append_assoc, regexOf_run_append ⟨hne, hw⟩ hbehind,
        regexOf_run_append ⟨hne, hw⟩ htext, ih h.of_append, List.append_assoc]

/-! ## Tokens -/

theorem regexSource_singleton (t : String) :
    regexSource [t] = String.ofList (regexOf t.toList) := by
  simp [regexSource]

theorem regexSource_fuse (polarity : Polarity) (ts : List String) :
    regexSource ((TokenDiff.fuse (ts.map (Token.mk polarity))).map Token.text) =
      String.ofList (regexOf (ts.map String.toList).flatten) := by
  cases ts with
  | nil => rfl
  | cons t ts =>
      rw [TokenDiff.fuse_map (List.cons_ne_nil t ts), List.map_singleton, regexSource_singleton,
        String.toList_join, List.flatMap_def]

theorem toList_join_regexSource (ts : List String) :
    (String.join (ts.map fun t => regexSource [t])).toList =
      (ts.map String.toList).flatMap regexOf := by
  simp [String.toList_join, List.flatMap_map, regexSource_singleton]

/-- Tokens that are fused into one say what they say one by one, just if all the words
that come about keep placeholders; their parts are the words of the single tokens. A
placeholder with no word character next to it is always read as one. -/
theorem regexSource_fuse_iff (polarity : Polarity) (ts : List String) :
    let texts := ts.map String.toList
    let fused := regexSource ((TokenDiff.fuse (ts.map (Token.mk polarity))).map Token.text)
    ((wordParts texts).map List.flatten = words texts.flatten ∧
        (wordParts texts).flatten = texts.flatMap words) ∧
      (fused = String.join (ts.map fun t => regexSource [t]) ↔
        ∀ parts ∈ wordParts texts, KeepsPlaceholders parts) ∧
      ∀ front t back p, ts = front ++ t :: back → Placeholder.parse? t.toList = some p →
        (∀ c ∈ (String.join front).toList.getLast?, isWordChar c = false) →
        (∀ c ∈ (String.join back).toList.head?, isWordChar c = false) →
        fused = regexSource [String.join front] ++ p.kind.regex ++
          regexSource [String.join back] := by
  intro texts fused
  refine ⟨⟨map_flatten_wordParts texts, flatten_wordParts texts⟩, ?_, ?_⟩
  · rw [← String.toList_inj, toList_join_regexSource, ← regexOf_flatten_iff,
      show fused = _ from regexSource_fuse polarity ts, String.toList_ofList]
  · rintro front t back p rfl hp hfront hback
    have hword := Placeholder.canRun_of_parse? hp
    have htoken : regexOf (t.toList ++ (String.join back).toList) =
        p.kind.regex.toList ++ regexOf (String.join back).toList := by
      rw [regexOf_run_append hword hback, wordRegex_of_parse? hp]
    have hall : (texts.flatten : List Char) =
        (String.join front).toList ++ (t.toList ++ (String.join back).toList) := by
      simp [texts, String.toList_join, List.flatMap_def]
    rw [show fused = _ from regexSource_fuse polarity _, hall, regexOf_append (.inl hfront),
      htoken, regexSource_singleton, regexSource_singleton, ← String.toList_inj]
    simp

theorem regexSource_fuse_iff_of_call :
    let ts := ["load", "(", "VARIABLE_1", ")"]
    wordParts (ts.map String.toList) = [["load".toList], ["VARIABLE_1".toList]] ∧
      regexSource ((TokenDiff.fuse (ts.map (Token.mk .kept))).map Token.text) =
        "load\\(" ++ PlaceholderKind.identifier.regex ++ "\\)" := by
  intro ts
  have hfront : (String.join ["load", "("]).toList.getLast? = some '(' := by decide +kernel
  have hback : (String.join [")"]).toList.head? = some ')' := by decide +kernel
  refine ⟨by decide +kernel, ?_⟩
  refine (regexSource_fuse_iff .kept ts).2.2 ["load", "("] "VARIABLE_1" [")"] ⟨.identifier, 1⟩ rfl
    (by decide +kernel) ?_ ?_
  · rw [hfront]
    rintro c ⟨⟩
    decide
  · rw [hback]
    rintro c ⟨⟩
    decide

/-- A keyword in front hides the placeholder of an abstracted line. -/
theorem fused_keyword_hides_placeholder :
    let tk := Tokenizer.ofParser .python Language.python.parse
    let h : Hunk := ⟨["return value"], ["return value + 1"]⟩
    let abstracted : Hunk := ⟨["return VARIABLE_1"], ["return VARIABLE_1 + 1"]⟩
    let ts := ["return", "VARIABLE_1"]
    ((Abstraction.abstractHunk lexicalOracle ⟨["return"]⟩ true tk h).run.run 0).1 =
        .ok ⟨abstracted, ⟨[⟨"value", .identifier, 1⟩]⟩⟩ ∧
      tk.tokenize "return VARIABLE_1" = .ok ts ∧
      regexSource ((TokenDiff.fuse (ts.map (Token.mk .kept))).map Token.text) =
        "returnVARIABLE_1" ∧
      String.join (ts.map fun t => regexSource [t]) =
        "return" ++ PlaceholderKind.identifier.regex := by
  decide +kernel

end Text
end EditMining
