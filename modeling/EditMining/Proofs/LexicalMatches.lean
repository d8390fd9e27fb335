import EditMining.Proofs.Lexemes

/-!
# What a lexical oracle matches

In orderly code the leaves that the oracle finds are the lexemes other than
marks, each where its characters are (`leavesOf_text`). Leaf by leaf the first
free partner is taken, so not every leaf of the one side is matched that could
be. But of equal leaves on either side the first one always finds a partner:
only equal leaves could have taken it (`exists_mem_matched`).

So the stable values of an answer are read off the lexemes: they are the values
of those that are on both sides (`mem_stableValues_lexicalDiff`).
-/

namespace EditMining

open Text

namespace Leaf

/-! ## Scanning -/

theorem scan_none_fst (position : Nat) (t : List Char) : (scan none position t).1 = [] := by
  cases t with
  | nil => rfl
  | cons c t =>
      rw [scan, Option.bind_none]
      dsimp only
      split <;> rfl

/-- A leaf ends where a character does not belong to it. -/
theorem scan_of_not_continued {kind : LeafKind} {t : List Char}
    (h : ∀ c ∈ t.head?, kind.continuedBy? c = none) (position : Nat) :
    scan (some kind) position t = scan none position t := by
  cases t with
  | nil => rfl
  | cons c t =>
      rw [scan, scan, Option.bind_some, h c rfl]
      rfl

theorem scan_continued {kind : LeafKind} {u : List Char}
    (hu : ∀ c ∈ u, kind.continuedBy? c = some (some kind)) (position : Nat) (t : List Char) :
    scan (some kind) position (u ++ t) =
      (u ++ (scan (some kind) (position + u.length) t).1,
        (scan (some kind) (position + u.length) t).2) := by
  induction u generalizing position with
  | nil => rfl
  | cons c u ih =>
      rw [List.cons_append, scan, Option.bind_some, hu c List.mem_cons_self]
      dsimp only
      rw [ih (fun d hd => hu d (List.mem_cons_of_mem c hd)), List.length_cons, Nat.add_right_comm,
        ← Nat.add_assoc]
      rfl

end Leaf

namespace Lexeme

/-- The leaf that a lexeme is, if it begins at some position. -/
def leaf? (position : Nat) : Lexeme → Option Leaf
  | .name w => some ⟨.name, w, position⟩
  | .number w => some ⟨.number, w, position⟩
  | .quoted content => some ⟨.quoted, (quoted content).chars, position⟩
  | .mark _ => none

/-- The leaves of some lexemes, the first lexeme beginning at some position. -/
def leavesAt : Nat → List Lexeme → List Leaf
  | _, [] => []
  | position, x :: xs => (x.leaf? position).toList ++ leavesAt (position + x.chars.length) xs

theorem scan_opened {kind : LeafKind} {c : Char} {u t : List Char}
    (hc : LeafKind.begunBy? c = some kind)
    (hu : ∀ d ∈ u, kind.continuedBy? d = some (some kind))
    (ht : ∀ d ∈ t.head?, kind.continuedBy? d = none) (position : Nat) :
    (Leaf.scan none position (c :: u ++ t)).2 =
      ⟨kind, c :: u, position⟩ :: (Leaf.scan none (position + (c :: u).length) t).2 := by
  rw [List.cons_append, Leaf.scan, Option.bind_none, hc]
  dsimp only
  rw [Leaf.scan_continued hu, Leaf.scan_of_not_continued ht, Leaf.scan_none_fst, List.append_nil,
    List.length_cons, Nat.add_right_comm, ← Nat.add_assoc]

variable {x : Lexeme} {xs : List Lexeme}

theorem isNameChar_of_head?_text {w : List Char} (h : Orderly (x :: xs))
    (hcode : x.code? = some w) :
    ∀ c ∈ (text xs).head?, LeafKind.isNameChar c = false := by
  intro c hc
  have hstarts : StartsOutside isWordChar (text xs) := startsOutside_text h
    (fun c heq => by rw [heq] at hcode; nomatch hcode) (marksOutside_isWordChar x)
  refine Bool.eq_false_iff.2 fun hname => ?_
  have hword := isWordChar_of_isNameChar hname
  rw [hstarts c hc] at hword
  nomatch hword

theorem continuedBy?_quoted {content : List Char} (h : '\'' ∉ content) :
    ∀ c ∈ content, LeafKind.continuedBy? .quoted c = some (some .quoted) := by
  intro c hc
  have hne : (c == '\'') = false := beq_eq_false_iff_ne.2 fun heq => h (heq ▸ hc)
  rw [LeafKind.continuedBy?, hne]
  rfl

theorem begunBy?_quote : LeafKind.begunBy? '\'' = some .quoted := by decide

theorem continuedBy?_quote : LeafKind.continuedBy? .quoted '\'' = some none := by decide

theorem begunBy?_mark {c : Char} (hc : isWordChar c = false) (hquote : c ≠ '\'') :
    LeafKind.begunBy? c = none := by
  have hname : LeafKind.isNameChar c = false := Bool.eq_false_iff.2 fun h => by
    rw [isWordChar_of_isNameChar h] at hc
    nomatch hc
  have hdigit : c.isDigit = false := Bool.eq_false_iff.2 fun h => by
    rw [isNameChar_of_isDigit h] at hname
    nomatch hname
  have hstart : LeafKind.isNameStart c = false := by
    rw [LeafKind.isNameChar, Char.isAlphanum, Bool.or_eq_false_iff, Bool.or_eq_false_iff] at hname
    rw [LeafKind.isNameStart, hname.1.1, hname.2]
    rfl
  rw [LeafKind.begunBy?, hstart, hdigit, beq_eq_false_iff_ne.2 hquote]
  rfl

/-- The scan reads lexeme by lexeme. -/
theorem scan_text_cons (h : Orderly (x :: xs)) (position : Nat) :
    (Leaf.scan none position (text (x :: xs))).2 =
      (x.leaf? position).toList ++
        (Leaf.scan none (position + x.chars.length) (text xs)).2 := by
  have hvalid := h.valid x List.mem_cons_self
  rw [text_cons]
  cases x with
  | name w =>
      have hnext := isNameChar_of_head?_text h rfl
      rw [isValid.eq_def, Bool.and_eq_true, List.all_eq_true] at hvalid
      cases w with
      | nil => cases hvalid.1
      | cons c w =>
          have hbegun : LeafKind.begunBy? c = some .name := if_pos hvalid.1
          refine scan_opened hbegun (fun d hd => ?_) (fun d hd => ?_) position
          · exact if_pos (hvalid.2 d (List.mem_cons_of_mem c hd))
          · exact if_neg (by rw [hnext d hd]; exact Bool.false_ne_true)
  | number w =>
      have hnext := isNameChar_of_head?_text h rfl
      rw [isValid.eq_def, Bool.and_eq_true, List.all_eq_true] at hvalid
      cases w with
      | nil => cases hvalid.1
      | cons c w =>
          have hdigit := hvalid.2 c List.mem_cons_self
          have hbegun : LeafKind.begunBy? c = some .number := by
            rw [LeafKind.begunBy?, isNameStart_of_isDigit hdigit, hdigit]
            rfl
          refine scan_opened hbegun (fun d hd => ?_) (fun d hd => ?_) position
          · exact if_pos (hvalid.2 d (List.mem_cons_of_mem c hd))
          · refine if_neg fun hdigit => ?_
            have hname := isNameChar_of_isDigit hdigit
            rw [hnext d hd] at hname
            cases hname
  | quoted content =>
      have hinside := continuedBy?_quoted (quoted_isValid_iff.1 hvalid).1
      rw [quoted_chars_append, Leaf.scan, Option.bind_none, begunBy?_quote]
      dsimp only
      rw [Leaf.scan_continued hinside, Leaf.scan, Option.bind_some, continuedBy?_quote]
      dsimp only
      rw [Leaf.scan_none_fst, chars, List.length_cons, List.length_append, List.length_singleton,
        leaf?, chars, Option.toList_some, List.singleton_append]
      refine congrArg (_ :: ·) (congrArg (fun i => (Leaf.scan none i (text xs)).2) ?_)
      omega
  | mark c =>
      rw [isValid, Bool.and_eq_true, Bool.not_eq_true', bne_iff_ne] at hvalid
      rw [chars, List.singleton_append, Leaf.scan, Option.bind_none,
        begunBy?_mark hvalid.1 hvalid.2]
      rfl

/-- The leaves of orderly code are its lexemes other than marks. -/
theorem leavesOf_text (h : Orderly xs) : Leaf.leavesOf (text xs) = leavesAt 0 xs := by
  have hscan : ∀ position, (Leaf.scan none position (text xs)).2 = leavesAt position xs := by
    induction xs with
    | nil => exact fun _ => rfl
    | cons x xs ih =>
        intro position
        rw [scan_text_cons h, ih h.of_cons, leavesAt]
  exact hscan 0

/-! ## Where leaves stand -/

variable {ys : List Lexeme} {y : Lexeme} {a b : Leaf} {i j : Nat}

theorem leaf?_eq_some (h : x.leaf? i = some a) : a.chars = x.chars ∧ a.start = i := by
  cases x <;> cases h <;> exact ⟨rfl, rfl⟩

theorem mark_of_leaf?_eq_none (h : x.leaf? i = none) : ∃ c, x = mark c := by
  cases x with
  | mark c => exact ⟨c, rfl⟩
  | name w | number w | quoted w => nomatch h

/-- The lexeme that a leaf is. -/
def ofLeaf (a : Leaf) : Lexeme :=
  match a.kind with
  | .name => .name a.chars
  | .number => .number a.chars
  | .quoted => .quoted a.chars.tail.dropLast

theorem ofLeaf_eq (h : x.leaf? i = some a) : ofLeaf a = x := by
  cases x with
  | name w | number w =>
      cases h
      rfl
  | quoted content =>
      cases h
      exact congrArg quoted List.dropLast_concat
  | mark c => nomatch h

theorem eq_of_sameAs (ha : x.leaf? i = some a) (hb : y.leaf? j = some b)
    (hab : a.sameAs b = true) : x = y := by
  rw [Leaf.sameAs, Bool.and_eq_true, decide_eq_true_eq, decide_eq_true_eq] at hab
  rw [← ofLeaf_eq ha, ← ofLeaf_eq hb, ofLeaf, ofLeaf, hab.1, hab.2]

theorem sameAs_of_leaf? (ha : x.leaf? i = some a) (hb : x.leaf? j = some b) :
    a.sameAs b = true := by
  cases x <;> cases ha <;> cases hb <;> simp [Leaf.sameAs]

theorem exists_of_mem_leavesAt {position : Nat} (h : a ∈ leavesAt position xs) :
    ∃ front x back, xs = front ++ x :: back ∧
      x.leaf? (position + (text front).length) = some a := by
  induction xs generalizing position with
  | nil => nomatch h
  | cons x xs ih =>
      rcases List.mem_append.1 h with h | h
      · exact ⟨[], x, xs, rfl, Option.mem_toList.1 h⟩
      · obtain ⟨front, y, back, rfl, hleaf⟩ := ih h
        refine ⟨x :: front, y, back, rfl, ?_⟩
        rw [text_cons, List.length_append, ← Nat.add_assoc]
        exact hleaf

theorem exists_mem_leavesAt (hx : x ∈ xs) (hmark : ∀ c, x ≠ mark c) (position : Nat) :
    ∃ a ∈ leavesAt position xs, ∃ i, x.leaf? i = some a := by
  obtain ⟨front, back, rfl⟩ := List.append_of_mem hx
  induction front generalizing position with
  | nil =>
      cases hleaf : x.leaf? position with
      | none =>
          obtain ⟨c, hc⟩ := mark_of_leaf?_eq_none hleaf
          exact absurd hc (hmark c)
      | some a =>
          refine ⟨a, List.mem_append_left _ ?_, position, hleaf⟩
          rw [hleaf]
          exact List.mem_singleton_self a
  | cons z front ih =>
      obtain ⟨a, ha, hleaf⟩ := ih (position + z.chars.length) (by simp)
      exact ⟨a, List.mem_append_right _ ha, hleaf⟩

theorem length_leavesAt_le (h : Orderly xs) (position : Nat) :
    (leavesAt position xs).length ≤ (text xs).length := by
  induction xs generalizing position with
  | nil => exact Nat.le_refl 0
  | cons x xs ih =>
      have hrest := ih h.of_cons (position + x.chars.length)
      have hpos := List.length_pos_of_ne_nil (chars_ne_nil (h.valid x List.mem_cons_self))
      have hleaf : (x.leaf? position).toList.length ≤ 1 := Option.length_toList_le
      rw [leavesAt, text_cons, List.length_append, List.length_append]
      omega

/-- The span of a leaf covers its characters. -/
theorem slice?_span (ha : a ∈ leavesAt 0 xs) :
    Abstraction.slice? (text xs) a.toNode.span = some a.chars := by
  obtain ⟨front, x, back, rfl, hleaf⟩ := exists_of_mem_leavesAt ha
  obtain ⟨hchars, hstart⟩ := leaf?_eq_some hleaf
  rw [Nat.zero_add] at hstart
  have htext : text (front ++ x :: back) = text front ++ (a.chars ++ text back) := by
    rw [text_append, text_cons, hchars]
  have hbound : a.start + a.chars.length ≤ (text (front ++ x :: back)).length := by
    rw [htext, hstart, List.length_append, List.length_append]
    omega
  have hcover : a.toNode.span.start ≤ a.toNode.span.stop ∧
      a.toNode.span.stop ≤ (text (front ++ x :: back)).length :=
    ⟨Nat.le_add_right _ _, hbound⟩
  rw [Abstraction.slice?, if_pos hcover]
  show some (((text (front ++ x :: back)).drop a.start).take
    (a.start + a.chars.length - a.start)) = _
  rw [htext, hstart, List.drop_left, Nat.add_sub_cancel_left, List.take_left]

end Lexeme

/-! ## Matching -/

namespace Leaf

theorem sameAs_iff {a b : Leaf} : a.sameAs b = true ↔ a.kind = b.kind ∧ a.chars = b.chars := by
  rw [sameAs, Bool.and_eq_true, decide_eq_true_eq, decide_eq_true_eq]

theorem of_mem_matched {source left : List Leaf} {a b : Leaf} (h : (a, b) ∈ matched source left) :
    a ∈ source ∧ b ∈ left ∧ a.sameAs b = true := by
  induction source generalizing left with
  | nil => nomatch h
  | cons c rest ih =>
      rw [matched] at h
      split at h
      · next d hfind =>
          rcases List.mem_cons.1 h with heq | h
          · cases heq
            exact ⟨List.mem_cons_self, List.mem_of_find?_eq_some hfind, List.find?_some hfind⟩
          · obtain ⟨ha, hb, hsame⟩ := ih h
            exact ⟨List.mem_cons_of_mem _ ha, List.mem_of_mem_eraseP hb, hsame⟩
      · obtain ⟨ha, hb, hsame⟩ := ih h
        exact ⟨List.mem_cons_of_mem _ ha, hb, hsame⟩

theorem length_matched_le (source left : List Leaf) :
    (matched source left).length ≤ source.length := by
  induction source generalizing left with
  | nil => exact Nat.le_refl 0
  | cons a rest ih =>
      rw [matched]
      split
      · exact Nat.succ_le_succ (ih _)
      · exact Nat.le_succ_of_le (ih left)

/-- If a leaf has an equal one on the other side, some leaf equal to it is
matched: a partner is only taken away by a leaf that is equal to it. -/
theorem exists_mem_matched {source left : List Leaf} {a b : Leaf} (ha : a ∈ source)
    (hb : b ∈ left) (hab : a.sameAs b = true) :
    ∃ match_ ∈ matched source left, match_.1.sameAs a = true := by
  induction source generalizing left with
  | nil => nomatch ha
  | cons c rest ih =>
      rw [matched]
      by_cases hca : c.sameAs a = true
      · have hcb : c.sameAs b = true := by
          rw [sameAs_iff] at hca hab ⊢
          exact ⟨hca.1.trans hab.1, hca.2.trans hab.2⟩
        cases hfind : left.find? c.sameAs with
        | none => exact absurd hcb (List.find?_eq_none.1 hfind b hb)
        | some d => exact ⟨(c, d), List.mem_cons_self, hca⟩
      · have ha' : a ∈ rest := by
          rcases List.mem_cons.1 ha with rfl | ha
          · exact absurd (sameAs_iff.2 ⟨rfl, rfl⟩) hca
          · exact ha
        have hcb : ¬c.sameAs b = true := by
          rw [sameAs_iff] at hca hab ⊢
          exact fun h => hca ⟨h.1.trans hab.1.symm, h.2.trans hab.2.symm⟩
        split
        · obtain ⟨m, hm, hsame⟩ := ih ha' ((List.mem_eraseP_of_neg hcb).2 hb)
          exact ⟨m, List.mem_cons_of_mem _ hm, hsame⟩
        · exact ih ha' hb

end Leaf

/-! ## Stable values -/

namespace Lexeme

variable {x y : Lexeme} {xs ys : List Lexeme} {a b : Leaf} {i : Nat}

/-- The value of a lexeme, if it is one that may be replaced. -/
def value? (reserved : ReservedNames) : Lexeme → Option StableValue
  | .name w =>
      if Abstraction.isAbstractable reserved (String.ofList w) then
        some ⟨.identifier, String.ofList w⟩
      else none
  | .number w => some ⟨.number, String.ofList w⟩
  | .quoted content => some ⟨.string, String.ofList (quoted content).chars⟩
  | .mark _ => none

theorem ofList_ne_empty {w : List Char} (h : w ≠ []) : String.ofList w ≠ "" :=
  fun heq => h (String.ofList_injective (heq.trans String.ofList_nil.symm))

theorem commonText?_toNode (hkind : a.kind ≠ .quoted) (hne : a.chars ≠ [])
    (hab : a.sameAs b = true) :
    Abstraction.commonText? ⟨a.toNode, b.toNode⟩ = some (String.ofList a.chars) := by
  obtain ⟨hkinds, hchars⟩ := Leaf.sameAs_iff.1 hab
  rw [Abstraction.commonText?, Leaf.toNode, Leaf.toNode, if_neg hkind, if_neg (hkinds ▸ hkind)]
  exact if_pos ⟨congrArg String.ofList hchars, ofList_ne_empty hne⟩

theorem stableValue?_of_slices {reserved : ReservedNames} {before behind s d : List Char}
    {m : NodeMatch} (hkind : m.source.kind = .string)
    (hs : Abstraction.slice? before m.source.span = some s)
    (hd : Abstraction.slice? behind m.destination.span = some d) :
    Abstraction.stableValue? reserved before behind m =
      if s = d ∧ s ≠ [] then some ⟨.string, String.ofList s⟩ else none := by
  rw [Abstraction.stableValue?, hkind]
  dsimp only
  rw [hs, hd]

/-- What an answer says of two equal leaves is the value of their lexeme. -/
theorem stableValue?_toNode (reserved : ReservedNames) (ha : a ∈ leavesAt 0 xs)
    (hb : b ∈ leavesAt 0 ys) (hab : a.sameAs b = true) (hx : x.leaf? i = some a)
    (hvalid : x.isValid = true) :
    Abstraction.stableValue? reserved (text xs) (text ys) ⟨a.toNode, b.toNode⟩ =
      x.value? reserved := by
  have hne : a.chars ≠ [] := (leaf?_eq_some hx).1 ▸ chars_ne_nil hvalid
  cases x with
  | name w =>
      cases hx
      have hkind : LeafKind.name ≠ .quoted := by decide
      rw [Abstraction.stableValue?]
      show ((Abstraction.commonText? _).filter _).map _ = _
      rw [commonText?_toNode hkind hne hab, value?, Option.filter_some]
      split <;> rfl
  | number w =>
      cases hx
      have hkind : LeafKind.number ≠ .quoted := by decide
      rw [Abstraction.stableValue?]
      show (Abstraction.commonText? _).map _ = _
      rw [commonText?_toNode hkind hne hab]
      rfl
  | quoted content =>
      have hchars := (Leaf.sameAs_iff.1 hab).2
      have hsource := slice?_span ha
      have hdestination := slice?_span hb
      cases hx
      rw [stableValue?_of_slices rfl hsource hdestination]
      exact if_pos ⟨hchars, hne⟩
  | mark c => cases hx

theorem mem_stableValues_lexicalDiff {reserved : ReservedNames} {h : Hunk}
    (hxs : Orderly xs) (hys : Orderly ys) (hcondition : h.joinedCondition.toList = text xs)
    (hconsequent : h.joinedConsequent.toList = text ys) {v : StableValue} :
    v ∈ Abstraction.stableValues reserved h (lexicalDiff h) ↔
      ∃ x ∈ xs, x ∈ ys ∧ x.value? reserved = some v := by
  rw [Abstraction.stableValues, lexicalDiff, hcondition, hconsequent, leavesOf_text hxs,
    leavesOf_text hys, List.filterMap_map, List.mem_filterMap]
  constructor
  · rintro ⟨⟨a, b⟩, hmatch, hv⟩
    obtain ⟨ha, hb, hab⟩ := Leaf.of_mem_matched hmatch
    obtain ⟨front, x, back, rfl, hx⟩ := exists_of_mem_leavesAt ha
    obtain ⟨front', y, back', rfl, hy⟩ := exists_of_mem_leavesAt hb
    have hvalid := hxs.valid x (by simp)
    obtain rfl := eq_of_sameAs hx hy hab
    exact ⟨x, by simp, by simp, (stableValue?_toNode reserved ha hb hab hx hvalid).symm.trans hv⟩
  · rintro ⟨x, hxs', hys', hv⟩
    have hmark : ∀ c, x ≠ mark c := by
      rintro c rfl
      nomatch hv
    obtain ⟨a, ha, i, hi⟩ := exists_mem_leavesAt hxs' hmark 0
    obtain ⟨b, hb, j, hj⟩ := exists_mem_leavesAt hys' hmark 0
    obtain ⟨⟨c, d⟩, hmatch, hca⟩ := Leaf.exists_mem_matched ha hb (sameAs_of_leaf? hi hj)
    obtain ⟨hc, hd, hcd⟩ := Leaf.of_mem_matched hmatch
    obtain ⟨front, y, back, rfl, hy⟩ := exists_of_mem_leavesAt hc
    obtain rfl := eq_of_sameAs hy hi hca
    exact ⟨(c, d), hmatch,
      (stableValue?_toNode reserved hc hd hcd hy (hxs.valid y (by simp))).trans hv⟩

/-- There are no more stable values than characters in the condition. -/
theorem length_stableValues_lexicalDiff_le {reserved : ReservedNames} {h : Hunk}
    (hxs : Orderly xs) (hcondition : h.joinedCondition.toList = text xs) :
    (Abstraction.stableValues reserved h (lexicalDiff h)).length ≤ h.joinedCondition.length := by
  rw [Abstraction.stableValues, lexicalDiff, ← String.length_toList, hcondition,
    leavesOf_text hxs]
  refine (List.length_filterMap_le _ _).trans ?_
  rw [List.length_map]
  exact (Leaf.length_matched_le _ _).trans (length_leavesAt_le hxs 0)

end Lexeme

end EditMining
