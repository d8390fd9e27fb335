import EditMining.Pattern.Validity
import Mathlib.Data.List.Count

/-!
# Brackets in a text that is made of tokens

Brackets are counted in a text without regard to what it is made of. Here the text
is taken as a list of tokens, and the question is when counting gives what the
bracket tokens alone would give.

A token that is no bracket has to be *passed*: it leaves every depth as it was and
no quote open (`Passes`). Whether it is passed can be seen from the token alone,
from no open bracket at all, because a scan that goes well from some depths goes
just as well from larger ones (`bracketScan_add`). If all other tokens are passed,
the scan of the text is a walk over the bracket tokens, and the three kinds come
apart: each kind has to be balanced among the tokens by itself
(`bracketsBalanced_iff_of_passes`).
-/

namespace EditMining

variable {s s' s'' : QuoteState} {d d' e : BracketDepths} {a b text : List Char}

/-! ## Depths -/

namespace BracketDepths

variable {k j : BracketKind}

theorem ext_get (h : ∀ k, d.get k = d'.get k) : d = d' := by
  cases d
  cases d'
  exact (mk.injEq ..).mpr ⟨h .round, h .square, h .curly⟩

theorem get_set (d : BracketDepths) (n : Nat) (k j : BracketKind) :
    (d.set n k).get j = if j = k then n else d.get j := by
  cases k <;> cases j <;> rfl

theorem get_opened (d : BracketDepths) (k j : BracketKind) :
    (d.opened k).get j = if j = k then d.get k + 1 else d.get j :=
  get_set d _ k j

theorem closed?_eq_some_iff :
    d.closed? k = some d' ↔ d.get k = d'.get k + 1 ∧ ∀ j, j ≠ k → d'.get j = d.get j := by
  rw [closed?]
  split
  · next hzero => simp [hzero]
  · next n hsucc =>
      rw [Option.some.injEq, hsucc]
      constructor
      · rintro rfl
        exact ⟨by rw [get_set, if_pos rfl], fun j hj => by rw [get_set, if_neg hj]⟩
      · rintro ⟨hk, hothers⟩
        refine ext_get fun j => ?_
        rw [get_set]
        split
        · next hj => rw [hj, Nat.succ.inj hk]
        · next hj => exact (hothers j hj).symm

/-- Both at once. -/
def add (d e : BracketDepths) : BracketDepths :=
  ⟨d.round + e.round, d.square + e.square, d.curly + e.curly⟩

@[simp] theorem get_add (d e : BracketDepths) (k : BracketKind) :
    (d.add e).get k = d.get k + e.get k := by
  cases k <;> rfl

theorem zero_add (d : BracketDepths) : zero.add d = d := by
  refine ext_get fun k => ?_
  rw [get_add]
  cases k <;> exact Nat.zero_add _

theorem opened_add (d e : BracketDepths) (k : BracketKind) :
    (d.add e).opened k = (d.opened k).add e := by
  refine ext_get fun j => ?_
  rw [get_opened, get_add, get_add, get_add, get_opened]
  split
  · next hj =>
      rw [hj]
      omega
  · rfl

theorem closed?_add (h : d.closed? k = some d') : (d.add e).closed? k = some (d'.add e) := by
  rw [closed?_eq_some_iff] at h ⊢
  obtain ⟨hk, hothers⟩ := h
  constructor
  · rw [get_add, get_add, hk]
    omega
  · intro j hj
    rw [get_add, get_add, hothers j hj]

end BracketDepths

/-! ## Scans -/

theorem bracketScan_append (s : QuoteState) (d : BracketDepths) (a b : List Char) :
    bracketScan s d (a ++ b) =
      (bracketScan s d a).bind fun d => bracketScan (a.foldl QuoteState.step s) d b := by
  induction a generalizing s d with
  | nil => rfl
  | cons c a ih =>
      rw [List.cons_append, bracketScan, bracketScan, Option.bind_assoc]
      exact Option.bind_congr fun d _ => ih (s.step c) d

theorem bracketStep_add {c : Char} (h : bracketStep s d c = some d') :
    bracketStep s (d.add e) c = some (d'.add e) := by
  cases s with
  | inside quote escaped =>
      cases h
      rfl
  | outside =>
      rw [bracketStep] at h ⊢
      split at h
      · cases h
        rw [BracketDepths.opened_add]
      · split at h
        · exact BracketDepths.closed?_add h
        · cases h
          rfl

/-- A scan goes well from larger depths too. -/
theorem bracketScan_add (h : bracketScan s d text = some d') :
    bracketScan s (d.add e) text = some (d'.add e) := by
  induction text generalizing s d with
  | nil =>
      cases h
      rfl
  | cons c text ih =>
      rw [bracketScan] at h ⊢
      obtain ⟨d'', hstep, hscan⟩ := Option.bind_eq_some_iff.1 h
      rw [bracketStep_add hstep]
      exact ih hscan

/-! ## Texts that are passed -/

/-- A text leads from one quote state to another and leaves all depths as they
are. -/
structure Passes (s : QuoteState) (text : List Char) (s' : QuoteState) : Prop where
  state_eq : text.foldl QuoteState.step s = s'
  scan_eq : ∀ d, bracketScan s d text = some d

theorem Passes.append (h : Passes s a s') (h' : Passes s' b s'') : Passes s (a ++ b) s'' := by
  refine ⟨?_, fun d => ?_⟩
  · rw [List.foldl_append, h.state_eq, h'.state_eq]
  · rw [bracketScan_append, h.scan_eq, h.state_eq]
    exact h'.scan_eq d

theorem Passes.cons {c : Char} (hstep : ∀ d, bracketStep s d c = some d)
    (h : Passes (s.step c) text s') : Passes s (c :: text) s' := by
  refine ⟨h.state_eq, fun d => ?_⟩
  rw [bracketScan, hstep]
  exact h.scan_eq d

/-! Inside of quotes no bracket counts. -/

theorem Passes.cons_escaped {quote c : Char} (h : Passes (.inside quote false) text s') :
    Passes (.inside quote false) ('\\' :: c :: text) s' :=
  Passes.cons (fun _ => rfl) (Passes.cons (fun _ => rfl) h)

theorem Passes.cons_quoted {quote c : Char} (hescape : c ≠ '\\') (hquote : c ≠ quote)
    (h : Passes (.inside quote false) text s') : Passes (.inside quote false) (c :: text) s' := by
  refine Passes.cons (fun _ => rfl) ?_
  rwa [QuoteState.step, if_neg (by simpa using hescape), if_neg (by simpa using hquote)]

theorem Passes.closing {quote : Char} (hquote : quote ≠ '\\') :
    Passes (.inside quote false) [quote] .outside := by
  refine Passes.cons (fun _ => rfl) ⟨?_, fun _ => rfl⟩
  rw [List.foldl_nil, QuoteState.step, if_neg (by simpa using hquote), if_pos (beq_self_eq_true _)]

/-- A quote mark counts for nothing itself. -/
theorem Passes.cons_quote {quote : Char} (hquote : isQuoteMark quote = true)
    (h : Passes (.inside quote false) text s') : Passes .outside (quote :: text) s' := by
  refine Passes.cons (fun d => ?_) ?_
  · have hmarks : quote = '\'' ∨ quote = '"' ∨ quote = '\x60' := by
      simpa [isQuoteMark, or_assoc] using hquote
    rcases hmarks with rfl | rfl | rfl <;> rfl
  · rwa [QuoteState.step, if_pos hquote]

/-- A text whose brackets, taken by themselves, are balanced, and in which all
quotes are closed. -/
def isSelfContained (text : List Char) : Bool :=
  bracketsBalanced text && text.foldl QuoteState.step .outside == .outside

/-- What a text does to no open brackets it does to any. -/
theorem passes_of_isSelfContained (h : isSelfContained text = true) :
    Passes .outside text .outside := by
  rw [isSelfContained, Bool.and_eq_true, beq_iff_eq, bracketsBalanced, beq_iff_eq] at h
  refine ⟨h.2, fun d => ?_⟩
  have hscan := bracketScan_add (e := d) h.1
  rwa [BracketDepths.zero_add] at hscan

/-! ## Brackets among tokens -/

namespace BracketKind

/-- The token that opens a kind. -/
def opener : BracketKind → String
  | .round => "("
  | .square => "["
  | .curly => "\x7b"

/-- The token that closes a kind. -/
def closer : BracketKind → String
  | .round => ")"
  | .square => "]"
  | .curly => "\x7d"

variable {k j : BracketKind} {n : Nat} {t : String} {ts : List String}

theorem opener_inj (h : k.opener = j.opener) : k = j := by
  cases k <;> cases j <;> first | rfl | exact absurd h (by decide)

theorem closer_inj (h : k.closer = j.closer) : k = j := by
  cases k <;> cases j <;> first | rfl | exact absurd h (by decide)

theorem opener_ne_closer (k j : BracketKind) : k.opener ≠ j.closer := by
  cases k <;> cases j <;> decide

theorem bracketScan_opener (k : BracketKind) (d : BracketDepths) :
    bracketScan .outside d k.opener.toList = some (d.opened k) := by
  cases k <;> rfl

theorem bracketScan_closer (k : BracketKind) (d : BracketDepths) :
    bracketScan .outside d k.closer.toList = d.closed? k := by
  cases k
  all_goals
    show (d.closed? _).bind some = _
    exact Option.bind_fun_some _

theorem foldl_step_opener (k : BracketKind) :
    k.opener.toList.foldl QuoteState.step .outside = .outside := by
  cases k <;> rfl

theorem foldl_step_closer (k : BracketKind) :
    k.closer.toList.foldl QuoteState.step .outside = .outside := by
  cases k <;> rfl

/-- No more of the kind are closed than were open before or have been opened since,
anywhere among some tokens, and in the end all are closed. -/
def Closes (k : BracketKind) (n : Nat) (ts : List String) : Prop :=
  (∀ front, front <+: ts → front.count k.closer ≤ n + front.count k.opener) ∧
    ts.count k.closer = n + ts.count k.opener

/-- Anywhere among some tokens no more of the kind are closed than have been opened,
and in the end as many. -/
def IsBalanced (k : BracketKind) (ts : List String) : Prop :=
  (∀ front, front <+: ts → front.count k.closer ≤ front.count k.opener) ∧
    ts.count k.closer = ts.count k.opener

theorem closes_zero : k.Closes 0 ts ↔ k.IsBalanced ts := by
  simp only [Closes, IsBalanced, Nat.zero_add]

theorem isBalanced_of_notMem (hopener : k.opener ∉ ts) (hcloser : k.closer ∉ ts) :
    k.IsBalanced ts := by
  constructor
  · intro front hfront
    rw [List.count_eq_zero.2 fun hmem => hcloser (hfront.subset hmem)]
    exact Nat.zero_le _
  · rw [List.count_eq_zero.2 hcloser, List.count_eq_zero.2 hopener]

theorem closes_nil : k.Closes n [] ↔ n = 0 := by
  simp [Closes, eq_comm]

theorem forall_prefix_cons {p : List String → Prop} :
    (∀ front, front <+: t :: ts → p front) ↔ p [] ∧ ∀ front, front <+: ts → p (t :: front) := by
  constructor
  · exact fun h => ⟨h [] List.nil_prefix, fun front hfront =>
      h _ (List.cons_prefix_cons.2 ⟨rfl, hfront⟩)⟩
  · rintro ⟨hnil, hcons⟩ front hfront
    rcases List.prefix_cons_iff.1 hfront with rfl | ⟨front', rfl, hfront'⟩
    · exact hnil
    · exact hcons front' hfront'

theorem closes_opener_cons : k.Closes n (k.opener :: ts) ↔ k.Closes (n + 1) ts := by
  have hne : (k.opener == k.closer) = false := beq_eq_false_iff_ne.2 (opener_ne_closer k k)
  have hcount : ∀ us : List String,
      (k.opener :: us).count k.closer = us.count k.closer ∧
        (k.opener :: us).count k.opener = us.count k.opener + 1 := fun us => by
    simp [List.count_cons, hne]
  simp only [Closes, forall_prefix_cons, hcount, List.count_nil]
  constructor
  · rintro ⟨⟨-, hfronts⟩, hall⟩
    exact ⟨fun front hfront => by have := hfronts front hfront; omega, by omega⟩
  · rintro ⟨hfronts, hall⟩
    exact ⟨⟨Nat.zero_le _, fun front hfront => by have := hfronts front hfront; omega⟩, by omega⟩

theorem closes_closer_cons :
    k.Closes n (k.closer :: ts) ↔ ∃ m, n = m + 1 ∧ k.Closes m ts := by
  have hne : (k.closer == k.opener) = false :=
    beq_eq_false_iff_ne.2 (opener_ne_closer k k).symm
  have hcount : ∀ us : List String,
      (k.closer :: us).count k.closer = us.count k.closer + 1 ∧
        (k.closer :: us).count k.opener = us.count k.opener := fun us => by
    simp [List.count_cons, hne]
  simp only [Closes, forall_prefix_cons, hcount, List.count_nil]
  constructor
  · rintro ⟨⟨-, hfronts⟩, hall⟩
    have hopen := hfronts [] List.nil_prefix
    simp only [List.count_nil] at hopen
    refine ⟨n - 1, by omega, fun front hfront => ?_, by omega⟩
    have := hfronts front hfront
    omega
  · rintro ⟨m, rfl, hfronts, hall⟩
    exact ⟨⟨Nat.zero_le _, fun front hfront => by have := hfronts front hfront; omega⟩, by omega⟩

theorem closes_other_cons (hopener : t ≠ k.opener) (hcloser : t ≠ k.closer) :
    k.Closes n (t :: ts) ↔ k.Closes n ts := by
  have hcount : ∀ us : List String, (t :: us).count k.closer = us.count k.closer ∧
      (t :: us).count k.opener = us.count k.opener := fun us =>
    ⟨List.count_cons_of_ne hcloser, List.count_cons_of_ne hopener⟩
  simp only [Closes, forall_prefix_cons, hcount, List.count_nil]
  exact and_congr_left fun _ => and_iff_right (Nat.zero_le _)

/-! The same for all kinds at once. -/

theorem forall_closes_opener_cons {d : BracketDepths} :
    (∀ j : BracketKind, j.Closes (d.get j) (k.opener :: ts)) ↔
      ∀ j : BracketKind, j.Closes ((d.opened k).get j) ts := by
  refine forall_congr' fun j => ?_
  rw [BracketDepths.get_opened]
  split
  · next hj => rw [hj, closes_opener_cons]
  · next hj => exact closes_other_cons (fun heq => hj (opener_inj heq.symm)) (opener_ne_closer k j)

theorem forall_closes_closer_cons {d : BracketDepths} :
    (∀ j : BracketKind, j.Closes (d.get j) (k.closer :: ts)) ↔
      ∃ d', d.closed? k = some d' ∧ ∀ j : BracketKind, j.Closes (d'.get j) ts := by
  have hothers : ∀ (j : BracketKind) (n : Nat), j ≠ k →
      (j.Closes n (k.closer :: ts) ↔ j.Closes n ts) := fun j n hj =>
    closes_other_cons (opener_ne_closer j k).symm fun heq => hj (closer_inj heq.symm)
  constructor
  · intro hall
    obtain ⟨m, hm, hk⟩ := closes_closer_cons.1 (hall k)
    refine ⟨d.set m k, ?_, fun j => ?_⟩
    · rw [BracketDepths.closed?_eq_some_iff, BracketDepths.get_set, if_pos rfl]
      exact ⟨hm, fun j hj => by rw [BracketDepths.get_set, if_neg hj]⟩
    · rw [BracketDepths.get_set]
      split
      · next hj =>
          rw [hj]
          exact hk
      · next hj => exact (hothers j _ hj).1 (hall j)
  · rintro ⟨d', hclosed, hall⟩ j
    obtain ⟨hk, hrest⟩ := BracketDepths.closed?_eq_some_iff.1 hclosed
    by_cases hj : j = k
    · rw [hj, closes_closer_cons]
      exact ⟨_, hk, hall k⟩
    · rw [hothers j _ hj, ← hrest j hj]
      exact hall j

theorem forall_closes_other_cons {d : BracketDepths}
    (h : ∀ k : BracketKind, t ≠ k.opener ∧ t ≠ k.closer) :
    (∀ j : BracketKind, j.Closes (d.get j) (t :: ts)) ↔
      ∀ j : BracketKind, j.Closes (d.get j) ts :=
  forall_congr' fun j => closes_other_cons (h j).1 (h j).2

end BracketKind

/-- A token that is exactly one bracket. -/
def IsBracketToken (t : String) : Prop :=
  ∃ k : BracketKind, t = k.opener ∨ t = k.closer

theorem Passes.ne_bracket {t : String} (h : Passes .outside t.toList .outside)
    (k : BracketKind) : t ≠ k.opener ∧ t ≠ k.closer := by
  constructor
  · rintro rfl
    have hscan := h.scan_eq .zero
    rw [BracketKind.bracketScan_opener] at hscan
    cases k <;> exact absurd hscan (by decide)
  · rintro rfl
    have hscan := h.scan_eq .zero
    rw [BracketKind.bracketScan_closer] at hscan
    cases k <;> exact absurd hscan (by decide)

/-- Where all other tokens are passed, the scan of a text closes all brackets just
if each kind is closed among its tokens. -/
theorem bracketScan_eq_zero_iff {ts : List String} (d : BracketDepths)
    (h : ∀ t ∈ ts, IsBracketToken t ∨ Passes .outside t.toList .outside) :
    bracketScan .outside d (ts.flatMap String.toList) = some .zero ↔
      ∀ k : BracketKind, k.Closes (d.get k) ts := by
  induction ts generalizing d with
  | nil =>
      simp only [BracketKind.closes_nil]
      rw [List.flatMap_nil, bracketScan, Option.some.injEq]
      constructor
      · rintro rfl k
        cases k <;> rfl
      · exact fun hall => BracketDepths.ext_get fun k => (hall k).trans (by cases k <;> rfl)
  | cons t ts ih =>
      obtain ⟨ht, hts⟩ := List.forall_mem_cons.1 h
      rw [List.flatMap_cons, bracketScan_append]
      rcases ht with ⟨k, rfl | rfl⟩ | hpasses
      · rw [BracketKind.bracketScan_opener, BracketKind.foldl_step_opener, Option.bind_some,
          ih _ hts, BracketKind.forall_closes_opener_cons]
      · rw [BracketKind.bracketScan_closer, BracketKind.foldl_step_closer,
          BracketKind.forall_closes_closer_cons, Option.bind_eq_some_iff]
        exact exists_congr fun d' => and_congr_right fun _ => ih d' hts
      · rw [hpasses.scan_eq, hpasses.state_eq, Option.bind_some, ih _ hts,
          BracketKind.forall_closes_other_cons hpasses.ne_bracket]

/-- Where all other tokens are passed, a text has balanced brackets just if each
kind is balanced among its tokens. -/
theorem bracketsBalanced_iff_of_passes {ts : List String}
    (h : ∀ t ∈ ts, IsBracketToken t ∨ Passes .outside t.toList .outside) :
    bracketsBalanced (ts.flatMap String.toList) = true ↔
      ∀ k : BracketKind, k.IsBalanced ts := by
  rw [bracketsBalanced, beq_iff_eq, bracketScan_eq_zero_iff _ h]
  refine forall_congr' fun k => ?_
  rw [← BracketKind.closes_zero]
  cases k <;> rfl

end EditMining
