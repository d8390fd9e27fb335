import EditMining.Proofs.Placeholders
import EditMining.Structure.Node
import Mathlib.Data.List.DropRight

/-!
# The written forms of a node

An oracle writes a node as its kind, a colon and its text, and a span in brackets.
Nothing is escaped: colons, commas and brackets may stand in the text too. What
keeps the parts apart is where they are looked for. The span is behind the *last*
opening bracket, its two offsets are parted by the *first* comma there, and the
kind ends at the *first* colon of all.

`IsWritten` says which texts are read, and as what: the marks stand anywhere in the
text, and each is kept out of the parts that it must not stand in. How the parts
are found is left open there, and reading is shown to accept these texts and no
others (`parse_eq_ok_iff`). A node whose kind and text have no blanks at their ends,
and whose kind has no colon, is read back from what is written for it
(`parse_render`), so no two such nodes are written alike.
-/

namespace EditMining

/-! ## Blanks at the ends of a text -/

namespace Text

variable {text blanks before behind : List Char} {mark c : Char}

theorem trimEnd_append_cons (h : isBlank c = false) (before behind : List Char) :
    trimEnd (before ++ c :: behind) = before ++ c :: trimEnd behind := by
  have hstay : (c :: before.reverse).dropWhile isBlank = c :: before.reverse :=
    List.dropWhile_cons_of_neg (by rw [h]; exact Bool.false_ne_true)
  rw [trimEnd, trimEnd, List.reverse_append, List.reverse_cons, List.append_assoc,
    List.singleton_append, List.dropWhile_append]
  split
  · next hempty => simp [hstay, List.isEmpty_iff.1 hempty]
  · simp

theorem trim_append_blanks (h : ∀ c ∈ blanks, isBlank c = true) (text : List Char) :
    trim (text ++ blanks) = trim text := by
  rw [trim, trim, trimStart, trimStart, List.dropWhile_append]
  split
  · next hempty => rw [List.dropWhile_eq_nil_iff.2 h, List.isEmpty_iff.1 hempty]
  · rw [trimEnd, trimEnd, List.reverse_append,
      List.dropWhile_append_of_pos fun c hc => h c (List.mem_reverse.1 hc)]

theorem trim_cons_blank (h : isBlank c = true) (text : List Char) :
    trim (c :: text) = trim text := by
  rw [trim, trim, trimStart, trimStart, List.dropWhile_cons_of_pos h]

theorem trim_trimEnd (text : List Char) : trim (trimEnd text) = trim text := by
  calc trim (trimEnd text)
      = trim (trimEnd text ++ text.rtakeWhile isBlank) :=
        (trim_append_blanks (fun _ hc => List.mem_rtakeWhile_imp hc) _).symm
    _ = trim text := congrArg trim List.rdropWhile_append_rtakeWhile

theorem trim_of_forall_not_blank (h : ∀ c ∈ text, isBlank c = false) : trim text = text := by
  have hstart : trimStart text = text := List.dropWhile_eq_self_iff.2 fun hlength =>
    by simp [h _ (List.getElem_mem hlength)]
  have hend : trimEnd text = text := List.rdropWhile_eq_self_iff.2 fun hne =>
    by simp [h _ (List.getLast_mem hne)]
  rw [trim, hstart, hend]

theorem trim_eq_nil_iff : trim text = [] ↔ ∀ c ∈ text, isBlank c = true := by
  have hend : trim text = [] ↔ ∀ c ∈ trimStart text, isBlank c = true :=
    List.rdropWhile_eq_nil_iff
  rw [hend]
  constructor
  · intro hrest c hc
    rw [← List.takeWhile_append_dropWhile (p := isBlank) (l := text), List.mem_append] at hc
    rcases hc with hc | hc
    · exact List.mem_takeWhile_imp hc
    · exact hrest c hc
  · exact fun hall c hc => hall c ((List.dropWhile_sublist _).subset hc)

theorem isBlank_of_isDigit (h : c.isDigit = true) : isBlank c = false := by
  simp only [Char.isDigit, Bool.and_eq_true, decide_eq_true_eq, ge_iff_le,
    UInt32.le_iff_toNat_le] at h
  change 48 ≤ c.toNat ∧ c.toNat ≤ 57 at h
  refine Bool.eq_false_iff.2 fun hblank => ?_
  simp only [isBlank, Bool.or_eq_true, Bool.and_eq_true, decide_eq_true_eq, beq_iff_eq] at hblank
  omega

/-! ## Cutting a text at a mark -/

theorem splitAtFirst_append (h : mark ∉ before) (behind : List Char) :
    splitAtFirst mark (before ++ mark :: behind) = some (before, behind) := by
  induction before with
  | nil => exact if_pos (beq_self_eq_true mark)
  | cons d before ih =>
      rw [List.mem_cons, not_or] at h
      rw [List.cons_append, splitAtFirst, if_neg (by simpa using Ne.symm h.1), ih h.2]
      rfl

theorem splitAtFirst_eq_some_iff :
    splitAtFirst mark text = some (before, behind) ↔
      text = before ++ mark :: behind ∧ mark ∉ before := by
  refine ⟨fun h => ?_, fun ⟨htext, hmark⟩ => htext ▸ splitAtFirst_append hmark behind⟩
  fun_induction splitAtFirst mark text generalizing before with
  | case1 => nomatch h
  | case2 d rest hd =>
      cases h
      exact ⟨congrArg (· :: _) (beq_iff_eq.1 hd), List.not_mem_nil⟩
  | case3 d rest hd ih =>
      obtain ⟨⟨front, back⟩, hcut, heq⟩ := Option.map_eq_some_iff.1 h
      cases heq
      obtain ⟨hrest, hmark⟩ := ih hcut
      refine ⟨congrArg (d :: ·) hrest, ?_⟩
      rw [List.mem_cons, not_or]
      exact ⟨fun heq => hd (beq_iff_eq.2 heq.symm), hmark⟩

theorem splitAtFirst_eq_none_iff : splitAtFirst mark text = none ↔ mark ∉ text := by
  constructor
  · intro hnone hmem
    obtain ⟨before, behind, rfl, hmark⟩ := List.eq_append_cons_of_mem hmem
    rw [splitAtFirst_append hmark] at hnone
    nomatch hnone
  · intro hmark
    refine Option.eq_none_iff_forall_ne_some.2 fun ⟨before, behind⟩ hcut => hmark ?_
    rw [(splitAtFirst_eq_some_iff.1 hcut).1]
    exact List.mem_append_right _ List.mem_cons_self

theorem splitAtLast_eq_some_iff :
    splitAtLast mark text = some (before, behind) ↔
      text = before ++ mark :: behind ∧ mark ∉ behind := by
  have hreverse : text.reverse = behind.reverse ++ mark :: before.reverse ↔
      text = before ++ mark :: behind := by
    rw [List.reverse_eq_iff]
    simp
  rw [splitAtLast, Option.map_eq_some_iff, ← hreverse, ← @List.mem_reverse _ _ behind,
    ← splitAtFirst_eq_some_iff]
  constructor
  · rintro ⟨⟨back, front⟩, hcut, heq⟩
    cases heq
    rwa [List.reverse_reverse, List.reverse_reverse]
  · intro hcut
    refine ⟨_, hcut, ?_⟩
    simp

end Text

/-! ## Reading numbers -/

namespace Decimal

variable {text : List Char} {n : Nat}

theorem readNumeral_eq_some_iff :
    readNumeral text = some n ↔
      text ≠ [] ∧ (∀ c ∈ text, c.isDigit = true) ∧ ofDigits text = n ∧ n < wordLimit := by
  rw [readNumeral, Option.ite_none_right_eq_some, Bool.and_eq_true, decide_eq_true_eq, isNumeral,
    Bool.and_eq_true, List.all_eq_true, Bool.not_eq_true', List.isEmpty_eq_false_iff,
    Option.some.injEq]
  constructor
  · rintro ⟨⟨⟨hne, hdigits⟩, hlt⟩, rfl⟩
    exact ⟨hne, hdigits, rfl, hlt⟩
  · rintro ⟨hne, hdigits, rfl, hlt⟩
    exact ⟨⟨⟨hne, hdigits⟩, hlt⟩, rfl⟩

theorem readUnsigned_eq_some_iff :
    readUnsigned text = some n ↔
      ∃ ds, (text = ds ∨ text = '+' :: ds) ∧ readNumeral ds = some n := by
  rw [readUnsigned.eq_def]
  split
  · next ds =>
      constructor
      · exact fun h => ⟨ds, .inr rfl, h⟩
      · rintro ⟨ds', rfl | heq, h⟩
        · -- A plus sign is no digit.
          exact absurd ((readNumeral_eq_some_iff.1 h).2.1 '+' List.mem_cons_self) (by decide)
        · rwa [(List.cons.inj heq).2]
  · next hplus =>
      constructor
      · exact fun h => ⟨_, .inl rfl, h⟩
      · rintro ⟨ds, rfl | rfl, h⟩
        · exact h
        · exact absurd rfl (hplus ds)

end Decimal

/-! ## What is read as a node -/

namespace Node

open Text

/-- A text stands for an offset: apart from blanks at its ends it is made of decimal
digits, with or without a plus sign in front of them, and the number is below the
word limit. -/
def IsOffset (text : List Char) (offset : Nat) : Prop :=
  ∃ ds, (trim text = ds ∨ trim text = '+' :: ds) ∧ ds ≠ [] ∧ (∀ c ∈ ds, c.isDigit = true) ∧
    Decimal.ofDigits ds = offset ∧ offset < Decimal.wordLimit

/-- `front` is what lies before the first colon of a head, all of it if there is no
colon. The text is what lies behind the colon, apart from blanks at its ends; without
a colon there is none. -/
def CutsHead (head front : List Char) : Option String → Prop
  | none => head = front ∧ ':' ∉ front
  | some text => ∃ behind, head = front ++ ':' :: behind ∧ ':' ∉ front ∧
      text = String.ofList (trim behind)

/-- A text is a written form of a node. -/
def IsWritten (entry : List Char) (n : Node) : Prop :=
  ∃ head start stop, trimEnd entry = head ++ '[' :: start ++ ',' :: stop ++ [']'] ∧
    '[' ∉ start ∧ '[' ∉ stop ∧ ',' ∉ start ∧
    IsOffset start n.span.start ∧ IsOffset stop n.span.stop ∧ n.span.start ≤ n.span.stop ∧
    ∃ front, CutsHead head front n.text ∧ (∃ c ∈ front, isBlank c = false) ∧
      n.kind = NodeKind.ofName (String.ofList (trim front))

variable {entry kind kind' : String} {text text' : Option String} {span span' : Span} {n : Node}
  {head inside : List Char}

theorem readOffset_eq_ok_iff {raw : List Char} {offset : Nat} :
    readOffset entry raw = .ok offset ↔ IsOffset raw offset := by
  have hread : readOffset entry raw = .ok offset ↔
      Decimal.readUnsigned (trim raw) = some offset := by
    rw [readOffset]
    split
    · next m hm => rw [hm, Except.ok.injEq, Option.some.injEq]
    · next hnone => simp [hnone]
  rw [hread, Decimal.readUnsigned_eq_some_iff]
  exact exists_congr fun digits => and_congr_right fun _ => Decimal.readNumeral_eq_some_iff

theorem readSpan_eq_ok_iff :
    readSpan entry inside = .ok span ↔
      ∃ start stop, inside = start ++ ',' :: stop ∧ ',' ∉ start ∧
        IsOffset start span.start ∧ IsOffset stop span.stop ∧ span.start ≤ span.stop := by
  constructor
  · intro h
    rw [readSpan] at h
    split at h
    · nomatch h
    · next start stop hcut =>
        obtain ⟨hinside, hcomma⟩ := splitAtFirst_eq_some_iff.1 hcut
        cases hstart : readOffset entry start with
        | error e =>
            rw [hstart] at h
            nomatch h
        | ok first =>
            cases hstop : readOffset entry stop with
            | error e =>
                rw [hstart, hstop] at h
                nomatch h
            | ok last =>
                rw [hstart, hstop] at h
                change (if last < first then _ else _) = _ at h
                split at h
                · nomatch h
                · next hle =>
                    cases h
                    exact ⟨start, stop, hinside, hcomma, readOffset_eq_ok_iff.1 hstart,
                      readOffset_eq_ok_iff.1 hstop, Nat.le_of_not_lt hle⟩
  · rintro ⟨start, stop, rfl, hcomma, hstart, hstop, hle⟩
    rw [readSpan, splitAtFirst_append hcomma]
    dsimp only
    rw [readOffset_eq_ok_iff.2 hstart, readOffset_eq_ok_iff.2 hstop]
    exact if_neg (Nat.not_lt.2 hle)

theorem exists_cutsHead (head : List Char) : ∃ front text, CutsHead head front text := by
  by_cases hcolon : ':' ∈ head
  · obtain ⟨front, behind, hhead, hfront⟩ := List.eq_append_cons_of_mem hcolon
    exact ⟨front, some _, behind, hhead, hfront, rfl⟩
  · exact ⟨head, none, rfl, hcolon⟩

/-- The blanks that are taken away before the colon is looked for are at no end of a
kind or a text that is not trimmed anyway. -/
theorem readHead_of_cutsHead {front : List Char} (h : CutsHead head front text) :
    readHead entry head =
      if (trim front).isEmpty then .error (.wireFormat "missing node kind" entry)
      else .ok (NodeKind.ofName (String.ofList (trim front)), text) := by
  rw [readHead]
  cases text with
  | none =>
      obtain ⟨rfl, hcolon⟩ := h
      have hnone : splitAtFirst ':' (trimEnd head) = none :=
        splitAtFirst_eq_none_iff.2 fun hmem => hcolon ((List.rdropWhile_prefix _ _).subset hmem)
      rw [hnone]
  | some text =>
      obtain ⟨behind, rfl, hcolon, rfl⟩ := h
      rw [trimEnd_append_cons (by decide), splitAtFirst_append hcolon]
      dsimp only
      rw [trim_trimEnd]

theorem readHead_eq_ok_iff {k : NodeKind} :
    readHead entry head = .ok (k, text) ↔
      ∃ front, CutsHead head front text ∧ (∃ c ∈ front, isBlank c = false) ∧
        k = NodeKind.ofName (String.ofList (trim front)) := by
  have hblank : ∀ front : List Char,
      (trim front).isEmpty = false ↔ ∃ c ∈ front, isBlank c = false := fun front => by
    rw [List.isEmpty_eq_false_iff, Ne, trim_eq_nil_iff]
    simp
  constructor
  · intro h
    obtain ⟨front, text', hcut⟩ := exists_cutsHead head
    rw [readHead_of_cutsHead hcut] at h
    split at h
    · nomatch h
    · next hempty =>
        cases h
        exact ⟨front, hcut, (hblank front).1 (Bool.eq_false_iff.2 hempty), rfl⟩
  · rintro ⟨front, hcut, hfront, rfl⟩
    rw [readHead_of_cutsHead hcut, (hblank front).2 hfront]
    rfl

theorem parse_of_brackets (h : trimEnd entry.toList = head ++ '[' :: inside ++ [']'])
    (hopen : '[' ∉ inside) :
    parse entry = readSpan entry inside >>= fun span =>
      readHead entry head >>= fun named => .ok ⟨named.1, named.2, span⟩ := by
  have hreverse : (trimEnd entry.toList).reverse = ']' :: (head ++ '[' :: inside).reverse := by
    rw [h, List.reverse_concat]
  rw [parse]
  split
  · next body hbody =>
      obtain ⟨-, rfl⟩ := List.cons.inj (hreverse.symm.trans hbody)
      rw [List.reverse_reverse, splitAtLast_eq_some_iff.2 ⟨rfl, hopen⟩]
  · next hother => exact absurd hreverse (hother _)

theorem exists_brackets_of_parse (h : parse entry = .ok n) :
    ∃ head inside, trimEnd entry.toList = head ++ '[' :: inside ++ [']'] ∧ '[' ∉ inside := by
  rw [parse] at h
  split at h
  · next body hbody =>
      split at h
      · nomatch h
      · next head inside hcut =>
          obtain ⟨hbrackets, hopen⟩ := splitAtLast_eq_some_iff.1 hcut
          refine ⟨head, inside, ?_, hopen⟩
          rw [← hbrackets, ← List.reverse_cons, ← hbody, List.reverse_reverse]
  · nomatch h

/-- Exactly the written forms of nodes are read, each as the node that it is a form
of. -/
theorem parse_eq_ok_iff : parse entry = .ok n ↔ IsWritten entry.toList n := by
  constructor
  · intro h
    obtain ⟨head, inside, hentry, hopen⟩ := exists_brackets_of_parse h
    rw [parse_of_brackets hentry hopen] at h
    cases hspan : readSpan entry inside with
    | error e =>
        rw [hspan] at h
        nomatch h
    | ok span =>
        cases hhead : readHead entry head with
        | error e =>
            rw [hspan, hhead] at h
            nomatch h
        | ok named =>
            rw [hspan, hhead] at h
            cases h
            obtain ⟨start, stop, rfl, hcomma, hstart, hstop, hle⟩ := readSpan_eq_ok_iff.1 hspan
            rw [List.mem_append, List.mem_cons, not_or, not_or] at hopen
            refine ⟨head, start, stop, ?_, hopen.1, hopen.2.2, hcomma, hstart, hstop, hle,
              readHead_eq_ok_iff.1 hhead⟩
            rw [hentry]
            simp
  · rintro ⟨head, start, stop, hentry, hstartOpen, hstopOpen, hcomma, hstart, hstop, hle, hhead⟩
    have hopen : '[' ∉ start ++ ',' :: stop := by
      rw [List.mem_append, List.mem_cons, not_or, not_or]
      exact ⟨hstartOpen, by decide, hstopOpen⟩
    have hbrackets : trimEnd entry.toList = head ++ '[' :: (start ++ ',' :: stop) ++ [']'] := by
      rw [hentry]
      simp
    rw [parse_of_brackets hbrackets hopen,
      readSpan_eq_ok_iff.2 ⟨start, stop, rfl, hcomma, hstart, hstop, hle⟩,
      readHead_eq_ok_iff.2 hhead]
    rfl

/-! ## What is written for a node -/

@[simp] theorem name_ofName (name : String) : (NodeKind.ofName name).name = name := by
  rw [NodeKind.ofName.eq_def]
  split <;> rfl

/-- A kind, a text and a span that have a written form of their own: there are no
blanks at the ends of the kind and of the text, the kind is not empty and has no
colon, and the offsets are in order and below the word limit. -/
structure IsWritable (kind : String) (text : Option String) (span : Span) : Prop where
  kind_ne_empty : kind ≠ ""
  trim_kind : trim kind.toList = kind.toList
  colon_notMem : ':' ∉ kind.toList
  trim_text : ∀ t ∈ text, trim t.toList = t.toList
  start_le_stop : span.start ≤ span.stop
  stop_lt : span.stop < Decimal.wordLimit

theorem isOffset_digits {m : Nat} (h : m < Decimal.wordLimit) : IsOffset (Decimal.digits m) m := by
  obtain ⟨hne, hdigits, hvalue, hlt⟩ :=
    Decimal.readNumeral_eq_some_iff.1 (Decimal.readNumeral_digits h)
  refine ⟨_, .inl (trim_of_forall_not_blank fun c hc => ?_), hne, hdigits, hvalue, hlt⟩
  exact isBlank_of_isDigit (hdigits c hc)

/-- What stands in front of the brackets of a written node. -/
def renderedHead (kind : String) : Option String → List Char
  | none => kind.toList ++ [' ']
  | some text => kind.toList ++ ':' :: (' ' :: (text.toList ++ [' ']))

theorem toList_render (n : Node) :
    n.render.toList = renderedHead n.kind.name n.text ++ '[' :: Decimal.digits n.span.start ++
      ',' :: Decimal.digits n.span.stop ++ [']'] := by
  rw [render]
  cases n.text <;> simp [renderedHead, Decimal.digits, Nat.repr_eq_ofList_toDigits]

theorem exists_cutsHead_renderedHead (h : IsWritable kind text span) :
    ∃ front, CutsHead (renderedHead kind text) front text ∧ trim front = kind.toList := by
  have hspace : ∀ cs : List Char, trim (cs ++ [' ']) = trim cs :=
    trim_append_blanks (List.forall_mem_singleton.2 (by decide))
  cases htext : text with
  | none =>
      refine ⟨kind.toList ++ [' '], ⟨rfl, ?_⟩, (hspace _).trans h.trim_kind⟩
      simpa using h.colon_notMem
  | some t =>
      refine ⟨kind.toList, ⟨_, rfl, h.colon_notMem, ?_⟩, h.trim_kind⟩
      rw [trim_cons_blank (by decide), hspace, h.trim_text t htext, String.ofList_toList]

theorem isWritten_render (h : IsWritable kind text span) :
    IsWritten (render ⟨.ofName kind, text, span⟩).toList ⟨.ofName kind, text, span⟩ := by
  obtain ⟨front, hcut, hfront⟩ := exists_cutsHead_renderedHead h
  have hstart := isOffset_digits (Nat.lt_of_le_of_lt h.start_le_stop h.stop_lt)
  have hstop := isOffset_digits h.stop_lt
  have hmark : ∀ c : Char, c.isDigit = false → ∀ m, c ∉ Decimal.digits m := by
    intro c hc m hmem
    rw [Nat.isDigit_of_mem_toDigits (by decide) (by decide) hmem] at hc
    nomatch hc
  refine ⟨renderedHead kind text, Decimal.digits span.start, Decimal.digits span.stop, ?_,
    hmark '[' (by decide) _, hmark '[' (by decide) _, hmark ',' (by decide) _, hstart, hstop,
    h.start_le_stop, front, hcut, ?_, ?_⟩
  · rw [toList_render, name_ofName]
    exact trimEnd_append_cons (by decide) _ []
  · by_contra hall
    have hnil : trim front = [] := trim_eq_nil_iff.2 fun c hc => by
      by_contra hblank
      exact hall ⟨c, hc, Bool.eq_false_iff.2 hblank⟩
    rw [hfront] at hnil
    exact h.kind_ne_empty (String.toList_eq_nil_iff.1 hnil)
  · rw [hfront, String.ofList_toList]

theorem parse_render (h : IsWritable kind text span) :
    parse (render ⟨.ofName kind, text, span⟩) = .ok ⟨.ofName kind, text, span⟩ :=
  parse_eq_ok_iff.2 (isWritten_render h)

theorem ofName_injective : Function.Injective NodeKind.ofName := fun name name' h => by
  rw [← name_ofName name, h, name_ofName]

/-- Reading accepts exactly the written forms of nodes: a head, and behind its last
opening bracket two offsets in order, parted by a comma; the head is cut at its first
colon into the kind, which must not be blank, and the text. A kind, a text and a span
that can be written are read back from what is written for them, and no two of them
are written alike. -/
theorem parse_exact :
    (∀ entry n, parse entry = .ok n ↔ IsWritten entry.toList n) ∧
      (∀ kind text span, IsWritable kind text span →
        parse (render ⟨.ofName kind, text, span⟩) = .ok ⟨.ofName kind, text, span⟩) ∧
      ∀ kind text span kind' text' span', IsWritable kind text span →
        IsWritable kind' text' span' →
        render ⟨.ofName kind, text, span⟩ = render ⟨.ofName kind', text', span'⟩ →
        kind = kind' ∧ text = text' ∧ span = span' := by
  refine ⟨fun _ _ => parse_eq_ok_iff, fun _ _ _ => parse_render, ?_⟩
  intro kind text span kind' text' span' h h' heq
  have hread := (parse_render h).symm.trans ((congrArg parse heq).trans (parse_render h'))
  obtain ⟨hkind, htext, hspan⟩ := Node.mk.inj (Except.ok.inj hread)
  exact ⟨ofName_injective hkind, htext, hspan⟩

theorem parse_exact_of_marks_in_text :
    let span : Span := ⟨3, 18446744073709551615⟩
    IsWritable "a[1]" (some "d[k]: x,y] [1") span ∧ IsWritable "a[1]" none span ∧
      parse "a[1]: d[k]: x,y] [1 [3,18446744073709551615]" =
        .ok ⟨.other "a[1]", some "d[k]: x,y] [1", span⟩ ∧
      parse "a[1] [3,18446744073709551615]" = .ok ⟨.other "a[1]", none, span⟩ ∧
      render ⟨.ofName "a[1]", some "d[k]: x,y] [1", span⟩ ≠
        render ⟨.ofName "a[1]", none, span⟩ := by
  intro span
  have htext : IsWritable "a[1]" (some "d[k]: x,y] [1") span :=
    ⟨by decide, by decide, by decide, by simpa using (by decide), by decide, by decide⟩
  have hnone : IsWritable "a[1]" none span :=
    ⟨by decide, by decide, by decide, by simp, by decide, by decide⟩
  have hrendered : render ⟨.ofName "a[1]", some "d[k]: x,y] [1", span⟩ =
      "a[1]: d[k]: x,y] [1 [3,18446744073709551615]" := by decide +kernel
  have hrenderedNone : render ⟨.ofName "a[1]", none, span⟩ =
      "a[1] [3,18446744073709551615]" := by decide +kernel
  obtain ⟨-, hread, hinjective⟩ := parse_exact
  refine ⟨htext, hnone, ?_, ?_, fun heq => ?_⟩
  · rw [← hrendered]
    exact hread "a[1]" _ span htext
  · rw [← hrenderedNone]
    exact hread "a[1]" _ span hnone
  · nomatch (hinjective _ _ _ _ _ _ htext hnone heq).2.1

end Node

end EditMining
