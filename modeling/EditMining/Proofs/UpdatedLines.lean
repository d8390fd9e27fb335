import EditMining.Sequencing
import Mathlib.Data.List.Forall2

/-!
# Updates fall on the line they are in

An update is given by a position in the joined text of a condition. The lines are gone
through from the front, and each begins one line break behind the one before it; that is
where it stands in the joined text (`standsAt_iff`). With the place right behind its last
character a line takes up all positions before the next one, so a position up to the end
of the text belongs to one line and no more (`InLine.unique`). The search finds it
(`exists_pairFrom?_eq`), and nothing for a position further behind (`pairFrom?_eq_none`).
The pairs of a hunk are what it finds for the updates, one after the other
(`updatedPairs_exact`).

The same line is found from the places where all lines begin: it is the last one that
begins no later than the update, if the update is not behind its end (`updatedPairs_eq_byStarts`).
-/

namespace EditMining

namespace Text

variable {line line' : String} {lines : List String} {start begins begins' i j k offset : Nat}

/-- A position is in a line that begins at `start`, or right behind it. -/
def InLine (start : Nat) (line : String) (offset : Nat) : Prop :=
  start ≤ offset ∧ offset ≤ start + line.length

theorem joinLines_cons (line : String) (hne : lines ≠ []) :
    joinLines (line :: lines) = line ++ "\n" ++ joinLines lines := by
  cases lines with
  | nil => exact absurd rfl hne
  | cons next rest => rfl

theorem length_joinLines_cons (line : String) (hne : lines ≠ []) :
    (joinLines (line :: lines)).length = line.length + 1 + (joinLines lines).length := by
  rw [joinLines_cons line hne, String.length_append, String.length_append]
  rfl

/-! ## Where lines begin -/

theorem getElem?_lineStartsFrom_succ (start : Nat) (line : String) (lines : List String) (i : Nat) :
    (lineStartsFrom start (line :: lines))[i + 1]? =
      (lineStartsFrom (start + line.length + 1) lines)[i]? :=
  rfl

theorem le_of_lineStartsFrom (h : (lineStartsFrom start lines)[i]? = some begins) :
    start ≤ begins := by
  induction lines generalizing start i with
  | nil => nomatch h
  | cons line rest ih =>
      cases i with
      | zero =>
          cases h
          exact Nat.le_refl _
      | succ i =>
          rw [getElem?_lineStartsFrom_succ] at h
          have := ih h
          omega

/-- The lines in front of a line, each with its line break. -/
def linesBefore (lines : List String) (i : Nat) : List Char :=
  (lines.take i).flatMap fun line => line.toList ++ ['\n']

theorem linesBefore_succ (first : String) (lines : List String) (i : Nat) :
    linesBefore (first :: lines) (i + 1) = first.toList ++ '\n' :: linesBefore lines i := by
  simp [linesBefore]

theorem getElem?_lineStartsFrom (hline : lines[i]? = some line) :
    (lineStartsFrom start lines)[i]? = some (start + (linesBefore lines i).length) := by
  induction lines generalizing start i with
  | nil => simp at hline
  | cons first rest ih =>
      cases i with
      | zero => rfl
      | succ i =>
          rw [getElem?_lineStartsFrom_succ, ih hline, linesBefore_succ, List.length_append,
            List.length_cons, String.length_toList]
          congr 1
          omega

/-- The joined text begins with the lines in front of a line, and goes on with the line. -/
theorem linesBefore_append_prefix (hline : lines[i]? = some line) :
    linesBefore lines i ++ line.toList <+: (joinLines lines).toList := by
  induction lines generalizing i with
  | nil => simp at hline
  | cons first rest ih =>
      cases i with
      | zero =>
          cases hline
          cases rest with
          | nil => exact List.prefix_rfl
          | cons next rest =>
              rw [joinLines_cons _ (List.cons_ne_nil next rest), String.toList_append,
                String.toList_append, List.append_assoc]
              exact List.prefix_append _ _
      | succ i =>
          have hne : rest ≠ [] := by
            intro hnil
            simp [hnil] at hline
          rw [joinLines_cons _ hne, String.toList_append, String.toList_append, linesBefore_succ,
            List.append_assoc, List.append_assoc]
          exact (List.prefix_append_right_inj _).2 ((List.prefix_cons_inj '\n').2 (ih hline))

/-- A position is in one line only. -/
theorem InLine.unique (hin : InLine begins line offset) (hin' : InLine begins' line' offset)
    (hline : lines[i]? = some line) (hline' : lines[j]? = some line')
    (hbegins : (lineStartsFrom start lines)[i]? = some begins)
    (hbegins' : (lineStartsFrom start lines)[j]? = some begins') : i = j := by
  unfold InLine at hin hin'
  induction lines generalizing start i j with
  | nil => nomatch hline
  | cons first rest ih =>
      -- All other lines begin behind the line break of the first one.
      cases i with
      | zero =>
          cases j with
          | zero => rfl
          | succ j =>
              cases hline
              cases hbegins
              rw [getElem?_lineStartsFrom_succ] at hbegins'
              have := le_of_lineStartsFrom hbegins'
              omega
      | succ i =>
          rw [getElem?_lineStartsFrom_succ] at hbegins
          cases j with
          | zero =>
              cases hline'
              cases hbegins'
              have := le_of_lineStartsFrom hbegins
              omega
          | succ j => rw [ih hline hline' hbegins hbegins']

/-- `line` has the number `i`, and stands at `start` in the joined text. -/
structure StandsAt (lines : List String) (i : Nat) (line : String) (start : Nat) : Prop where
  line_eq : lines[i]? = some line
  start_eq : start = (linesBefore lines i).length
  joined : linesBefore lines i ++ line.toList <+: (joinLines lines).toList

theorem standsAt_iff : StandsAt lines i line start ↔
    lines[i]? = some line ∧ (lineStarts lines)[i]? = some start := by
  constructor
  · rintro ⟨hline, rfl, -⟩
    have hstart := @getElem?_lineStartsFrom line lines 0 i hline
    rw [Nat.zero_add] at hstart
    exact ⟨hline, hstart⟩
  · rintro ⟨hline, hstart⟩
    have hbegins := @getElem?_lineStartsFrom line lines 0 i hline
    rw [Nat.zero_add, ← lineStarts, hstart] at hbegins
    exact ⟨hline, Option.some.inj hbegins, linesBefore_append_prefix hline⟩

end Text

namespace Sequencing

open Text

variable {start offset : Nat} {line : String} {before behind : List String} {h : Hunk}

/-! ## The search for a position -/

theorem pairAt?_of_inLine (hin : InLine start line offset) (across : String) :
    pairAt? start line across offset = some ⟨[line], [across]⟩ :=
  if_pos hin

theorem pairAt?_of_behind (hbehind : start + line.length < offset) (across : String) :
    pairAt? start line across offset = none :=
  if_neg (by omega)

theorem exists_pairFrom?_eq (hne : before ≠ []) (hlength : before.length = behind.length)
    (hstart : start ≤ offset) (hoffset : offset ≤ start + (joinLines before).length) :
    ∃ (i : Nat) (line across : String) (begins : Nat),
      before[i]? = some line ∧ behind[i]? = some across ∧
      (lineStartsFrom start before)[i]? = some begins ∧ InLine begins line offset ∧
      pairFrom? start before behind offset = some ⟨[line], [across]⟩ := by
  induction before generalizing start behind with
  | nil => exact absurd rfl hne
  | cons line before ih =>
      obtain ⟨across, behind, rfl⟩ := List.exists_cons_of_length_eq_add_one hlength.symm
      rw [pairFrom?]
      by_cases hin : offset ≤ start + line.length
      · refine ⟨0, line, across, start, rfl, rfl, rfl, ⟨hstart, hin⟩, ?_⟩
        rw [pairAt?_of_inLine ⟨hstart, hin⟩]
        rfl
      · have hrest : before ≠ [] := by
          rintro rfl
          exact hin hoffset
        rw [length_joinLines_cons line hrest] at hoffset
        rw [pairAt?_of_behind (by omega), Option.none_or]
        have hstart' : start + line.length + 1 ≤ offset := by omega
        obtain ⟨i, line', across', begins, hfound⟩ :=
          ih hrest (Nat.succ.inj hlength) hstart' (by omega)
        exact ⟨i + 1, line', across', begins, hfound⟩

theorem pairFrom?_eq_none (hne : before ≠ [])
    (hoffset : start + (joinLines before).length < offset) :
    pairFrom? start before behind offset = none := by
  induction before generalizing start behind with
  | nil => exact absurd rfl hne
  | cons line before ih =>
      cases behind with
      | nil => rfl
      | cons across behind =>
          rw [pairFrom?]
          by_cases hrest : before = []
          · subst hrest
            have hbehind : start + line.length < offset := hoffset
            rw [pairAt?_of_behind hbehind]
            rfl
          · rw [length_joinLines_cons line hrest] at hoffset
            rw [pairAt?_of_behind (by omega), ih hrest (by omega)]
            rfl

/-! ## The search by the starts of the lines -/

/-- The number of the last entry that passes. -/
def lastIndex? {α : Type} (p : α → Bool) : List α → Option Nat
  | [] => none
  | x :: xs => ((lastIndex? p xs).map (· + 1)).or (if p x then some 0 else none)

theorem lastIndex?_eq_none {α : Type} {p : α → Bool} {xs : List α}
    (hnone : ∀ x ∈ xs, p x = false) : lastIndex? p xs = none := by
  induction xs with
  | nil => rfl
  | cons x xs ih =>
      obtain ⟨hx, hxs⟩ := List.forall_mem_cons.1 hnone
      simp [lastIndex?, ih hxs, hx]

/-- The pair of the last line that begins no later than the offset, if the offset is not
behind the end of that line. The first line begins at `start`. -/
def pairByStartsFrom? (start : Nat) (before behind : List String) (offset : Nat) : Option Hunk := do
  let starts := lineStartsFrom start before
  let i ← lastIndex? (· ≤ offset) starts
  let begins ← starts[i]?
  let line ← before[i]?
  if begins + line.length < offset then none
  else
    let across ← behind[i]?
    some ⟨[line], [across]⟩

/-- The pair of an update, found from the places where the lines begin. -/
def pairByStarts? (h : Hunk) (offset : Nat) : Option Hunk :=
  pairByStartsFrom? 0 h.condition h.consequent offset

theorem lastIndex?_lineStartsFrom (hoffset : offset < start) :
    lastIndex? (· ≤ offset) (lineStartsFrom start before) = none := by
  refine lastIndex?_eq_none fun begins hbegins => ?_
  obtain ⟨i, hi⟩ := List.mem_iff_getElem?.1 hbegins
  have hle : start ≤ begins := le_of_lineStartsFrom hi
  exact decide_eq_false (by omega)

theorem pairByStartsFrom?_eq (start : Nat) (before behind : List String) (offset : Nat) :
    pairByStartsFrom? start before behind offset = pairFrom? start before behind offset := by
  induction before generalizing start behind with
  | nil => rfl
  | cons line before ih =>
      cases behind with
      | nil => simp [pairByStartsFrom?, pairFrom?]
      | cons across behind =>
          rw [pairFrom?, ← ih]
          by_cases hend : offset ≤ start + line.length
          · -- All other lines begin behind the offset.
            have hnone : lastIndex? (· ≤ offset) (lineStartsFrom (start + line.length + 1) before) =
                none := lastIndex?_lineStartsFrom (by omega)
            by_cases hstart : start ≤ offset
            · simp [pairByStartsFrom?, pairAt?, lineStartsFrom, lastIndex?, hnone, hstart, hend]
            · simp [pairByStartsFrom?, pairAt?, lineStartsFrom, lastIndex?, hnone, hstart]
          · rw [pairAt?_of_behind (by omega), Option.none_or]
            simp only [pairByStartsFrom?, lineStartsFrom, lastIndex?]
            cases lastIndex? (· ≤ offset) (lineStartsFrom (start + line.length + 1) before) with
            | some i => rfl
            | none =>
                have hbehind : start + line.length < offset := by omega
                by_cases hstart : start ≤ offset
                · simp [hstart, hbehind]
                · simp [hstart]

/-- The search by the starts of the lines finds what the search from the front does. -/
theorem pairByStarts?_eq (h : Hunk) (offset : Nat) :
    pairByStarts? h offset = pairFrom? 0 h.condition h.consequent offset :=
  pairByStartsFrom?_eq 0 h.condition h.consequent offset

theorem updatedPairs_eq_byStarts (h : Hunk) (d : StructuralDiff) :
    updatedPairs h d = d.updateOffsets.filterMap (pairByStarts? h) := by
  rw [updatedPairs, funext (pairByStarts?_eq h)]

/-! ## All updates -/

theorem forall₂_filter_filterMap {α β : Type} {r : α → β → Prop} {p : α → Bool}
    {f : α → Option β} (xs : List α) (hsome : ∀ x, p x = true → ∃ y, f x = some y ∧ r x y)
    (hnone : ∀ x, p x = false → f x = none) :
    List.Forall₂ r (xs.filter p) (xs.filterMap f) := by
  induction xs with
  | nil => exact .nil
  | cons x xs ih =>
      cases hp : p x with
      | true =>
          obtain ⟨y, hy, hr⟩ := hsome x hp
          rw [List.filter_cons_of_pos hp, List.filterMap_cons_some hy]
          exact .cons hr ih
      | false =>
          rw [List.filter_cons_of_neg (by simp [hp]), List.filterMap_cons_none (hnone x hp)]
          exact ih

theorem updatedPairs_eq_filterMap (h : Hunk) (d : StructuralDiff) :
    updatedPairs h d = d.actions.filterMap fun a =>
      if a.kind = .updateNode then pairFrom? 0 h.condition h.consequent a.tree.span.start
      else none := by
  rw [updatedPairs, StructuralDiff.updateOffsets, List.filterMap_map, List.filterMap_filter]
  simp only [decide_eq_true_eq, Function.comp_apply]

/-- The pair of the one line that a position of the condition is in or right behind. -/
def IsPairAt (h : Hunk) (offset : Nat) (pair : Hunk) : Prop :=
  ∃ i line across start, StandsAt h.condition i line start ∧ h.consequent[i]? = some across ∧
    pair = ⟨[line], [across]⟩ ∧ InLine start line offset ∧
    ∀ j line' start', StandsAt h.condition j line' start' → InLine start' line' offset → j = i

/-- Every update at a position up to the end of the condition gives the pair of that
position, in the order of the actions; all other actions give nothing. -/
theorem updatedPairs_exact (hne : h.condition ≠ [])
    (hlength : h.condition.length = h.consequent.length) (d : StructuralDiff) :
    List.Forall₂ (fun a pair => IsPairAt h a.tree.span.start pair)
      (d.actions.filter fun a =>
        a.kind = .updateNode ∧ a.tree.span.start ≤ h.joinedCondition.length)
      (updatedPairs h d) := by
  rw [updatedPairs_eq_filterMap]
  refine forall₂_filter_filterMap d.actions (fun a ha => ?_) fun a ha => ?_
  · obtain ⟨hupdate, hoffset⟩ := of_decide_eq_true ha
    rw [← Nat.zero_add h.joinedCondition.length] at hoffset
    obtain ⟨i, line, across, start, hline, hacross, hstart, hin, hpair⟩ :=
      exists_pairFrom?_eq hne hlength (Nat.zero_le a.tree.span.start) hoffset
    refine ⟨⟨[line], [across]⟩, by rw [if_pos hupdate, hpair], i, line, across, start,
      standsAt_iff.2 ⟨hline, hstart⟩, hacross, rfl, hin, fun j line' start' hstands hin' => ?_⟩
    obtain ⟨hline', hstart'⟩ := standsAt_iff.1 hstands
    exact hin'.unique hin hline' hline hstart' hstart
  · have hnot := of_decide_eq_false ha
    split
    · next hupdate =>
        have hbehind : h.joinedCondition.length < a.tree.span.start :=
          Nat.lt_of_not_le fun hle => hnot ⟨hupdate, hle⟩
        rw [← Nat.zero_add h.joinedCondition.length] at hbehind
        exact pairFrom?_eq_none hne hbehind
    · rfl

/-- An empty line, a line with a character beyond ASCII, and updates on the line breaks
and behind the text. -/
theorem updatedPairs_exact_of_empty_line :
    let h : Hunk := ⟨["é = 1", "", "b"], ["é = 2", "", "c"]⟩
    let action (kind : ActionKind) (start : Nat) : EditAction :=
      ⟨kind, ⟨.integer, none, ⟨start, start + 1⟩⟩, none⟩
    let d : StructuralDiff :=
      ⟨[], [action .updateNode 8, action .updateNode 6, action .insertNode 0,
        action .updateNode 5, action .updateNode 9]⟩
    h.condition ≠ [] ∧ h.condition.length = h.consequent.length ∧
      updatedPairs h d = [⟨["b"], ["c"]⟩, ⟨[""], [""]⟩, ⟨["é = 1"], ["é = 2"]⟩] ∧
      List.Forall₂ (fun a pair => IsPairAt h a.tree.span.start pair)
        [action .updateNode 8, action .updateNode 6, action .updateNode 5] (updatedPairs h d) := by
  intro h action d
  have hne : h.condition ≠ [] := by decide
  have hupdates : (d.actions.filter fun a =>
      a.kind = .updateNode ∧ a.tree.span.start ≤ h.joinedCondition.length) =
      [action .updateNode 8, action .updateNode 6, action .updateNode 5] := by decide
  refine ⟨hne, rfl, by decide, ?_⟩
  rw [← hupdates]
  exact updatedPairs_exact hne rfl d

end Sequencing

end EditMining
