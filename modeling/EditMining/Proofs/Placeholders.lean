import EditMining.Abstraction.Assignments
import Mathlib.Data.List.Basic

/-!
# Placeholders are words that read back

The stems of two kinds begin with different letters, and the number behind the
stem is written in decimal. So a written placeholder is made of letters, digits
and one underscore, and reading it gives its kind and its number again, as long
as the number is one that can be read at all (`parse?_renderChars`).

The numbers that are given out count the values that have a placeholder, so all
placeholders can be read back while there are fewer values than that
(`Assignments.Readable.assign`).
-/

namespace EditMining

theorem isPrefixOf?_append (front rest : List Char) :
    List.isPrefixOf? front (front ++ rest) = some rest := by
  induction front with
  | nil =>
      rw [List.nil_append]
      cases rest <;> rfl
  | cons c front ih =>
      rw [List.cons_append, List.isPrefixOf?, beq_self_eq_true]
      exact ih

namespace Decimal

theorem isNumeral_digits (n : Nat) : isNumeral (digits n) = true := by
  rw [isNumeral, Bool.and_eq_true, List.all_eq_true]
  refine ⟨?_, fun c hc => Nat.isDigit_of_mem_toDigits (by decide) (by decide) hc⟩
  rw [Bool.not_eq_true', List.isEmpty_eq_false_iff]
  exact Nat.toDigits_ne_nil

theorem readNumeral_digits {n : Nat} (h : n < wordLimit) : readNumeral (digits n) = some n := by
  rw [readNumeral, isNumeral_digits, ofDigits_digits, decide_eq_true h]
  rfl

end Decimal

/-- The letter that a stem begins with. -/
def PlaceholderKind.initial : PlaceholderKind → Char
  | .identifier => 'V'
  | .string => 'S'
  | .number => 'N'
  | .function => 'F'

theorem PlaceholderKind.exists_stem_eq (kind : PlaceholderKind) :
    ∃ more, kind.stem.toList = kind.initial :: more := by
  have hhead : kind.stem.toList.head? = some kind.initial := by
    cases kind <;> decide
  exact List.head?_eq_some_iff.1 hhead

namespace Placeholder

theorem eq_of_fields {p q : Placeholder} (hkind : p.kind = q.kind) (hindex : p.index = q.index) :
    p = q := by
  cases p
  cases q
  cases hkind
  cases hindex
  rfl

theorem exists_renderChars_eq (p : Placeholder) :
    ∃ more, p.renderChars = p.kind.initial :: more := by
  obtain ⟨more, hstem⟩ := p.kind.exists_stem_eq
  exact ⟨more ++ '_' :: Decimal.digits p.index, by rw [renderChars, hstem, List.cons_append]⟩

theorem parseAs?_renderChars {p : Placeholder} (h : p.index < Decimal.wordLimit) :
    parseAs? p.kind p.renderChars = some p := by
  rw [parseAs?, renderChars, isPrefixOf?_append]
  show (Decimal.readNumeral (Decimal.digits p.index)).map _ = _
  rw [Decimal.readNumeral_digits h]
  rfl

theorem parseAs?_of_ne {kind : PlaceholderKind} {p : Placeholder} (h : kind ≠ p.kind) :
    parseAs? kind p.renderChars = none := by
  obtain ⟨more, hstem⟩ := kind.exists_stem_eq
  obtain ⟨behind, hchars⟩ := p.exists_renderChars_eq
  have hinitial : (kind.initial == p.kind.initial) = false := by
    revert h
    cases kind <;> cases p.kind <;> decide
  rw [parseAs?, hstem, hchars, List.isPrefixOf?, hinitial]
  rfl

theorem parse?_renderChars {p : Placeholder} (h : p.index < Decimal.wordLimit) :
    parse? p.renderChars = some p := by
  have hown := parseAs?_renderChars h
  have hother := fun kind => @parseAs?_of_ne kind p
  rw [parse?, PlaceholderKind.all]
  cases hkind : p.kind <;> rw [hkind] at hown hother <;>
    simp [hown, hother]

/-- A word tells the kind of a placeholder by its first letter, and the number by what
stands behind the stem. -/
theorem renderChars_inj {p q : Placeholder} (h : p.renderChars = q.renderChars) : p = q := by
  have hkind : p.kind = q.kind := by
    obtain ⟨more, hmore⟩ := p.exists_renderChars_eq
    obtain ⟨more', hmore'⟩ := q.exists_renderChars_eq
    rw [hmore, hmore'] at h
    have hinitial : p.kind.initial = q.kind.initial := (List.cons.inj h).1
    revert hinitial
    cases p.kind <;> cases q.kind <;> decide
  rw [renderChars, renderChars, hkind, List.append_cancel_left_eq, List.cons_inj_right] at h
  exact eq_of_fields hkind (Decimal.digits_inj.1 h)

theorem render_inj {p q : Placeholder} (h : p.render = q.render) : p = q :=
  renderChars_inj (String.ofList_inj.1 h)

theorem isPlaceholder_renderChars {p : Placeholder} (h : p.index < Decimal.wordLimit) :
    isPlaceholder p.renderChars = true := by
  rw [isPlaceholder, parse?_renderChars h]
  rfl

theorem mem_renderChars {p : Placeholder} {c : Char} (h : c ∈ p.renderChars) :
    c.isAlphanum = true ∨ c = '_' := by
  have hstem : ∀ kind : PlaceholderKind, kind.stem.toList.all Char.isAlphanum = true := by
    intro kind
    cases kind <;> decide
  rw [renderChars, List.mem_append, List.mem_cons] at h
  rcases h with h | h | h
  · exact .inl (List.all_eq_true.1 (hstem p.kind) c h)
  · exact .inr h
  · have hdigit := Nat.isDigit_of_mem_toDigits (by decide) (by decide) h
    exact .inl (by rw [Char.isAlphanum, hdigit, Bool.or_true])

end Placeholder

namespace Assignments

variable {m : Assignments} {kind kind' : PlaceholderKind} {value value' : String}

/-- A value gets a placeholder that is there already, or the next one of its
kind. -/
theorem assign_cases (m : Assignments) (kind : PlaceholderKind) (value : String) :
    ((m.assign kind value).1 = m ∧ ∃ a ∈ m.entries, a.placeholder = (m.assign kind value).2) ∨
      m.assign kind value =
        (⟨m.entries ++ [⟨value, ⟨kind, m.count kind + 1⟩⟩]⟩, ⟨kind, m.count kind + 1⟩) := by
  rw [assign]
  cases hfind : m.find? kind value with
  | none => exact .inr rfl
  | some p =>
      rw [find?, Option.map_eq_some_iff] at hfind
      obtain ⟨a, ha, hp⟩ := hfind
      exact .inl ⟨rfl, a, List.mem_of_find?_eq_some ha, hp⟩

theorem assign_snd (m : Assignments) (kind : PlaceholderKind) (value : String) :
    (m.assign kind value).2 = (m.find? kind value).getD ⟨kind, m.count kind + 1⟩ := by
  rw [assign]
  cases m.find? kind value <;> rfl

theorem count_assign (m : Assignments) (kind : PlaceholderKind) (value : String) :
    (m.assign kind value).1.count kind =
      if (m.find? kind value).isSome then m.count kind else m.count kind + 1 := by
  rw [assign]
  cases m.find? kind value with
  | some p => rfl
  | none => simp [count]

theorem find?_assign (m : Assignments) :
    (m.assign kind value).1.find? kind' value' =
      if kind = kind' ∧ value = value' then some (m.assign kind value).2
      else m.find? kind' value' := by
  rw [assign]
  cases hfind : m.find? kind value with
  | some p =>
      dsimp only
      split
      · next heq => rw [← heq.1, ← heq.2, hfind]
      · rfl
  | none =>
      rw [find?, Option.map_eq_none_iff] at hfind
      dsimp only
      rw [find?, List.find?_append, Option.map_or, ← find?, List.find?_singleton]
      by_cases heq : kind = kind' ∧ value = value'
      · obtain ⟨rfl, rfl⟩ := heq
        rw [find?, hfind, if_pos (decide_eq_true ⟨rfl, rfl⟩), if_pos ⟨rfl, rfl⟩]
        rfl
      · rw [if_neg (by rwa [decide_eq_true_iff]), if_neg heq]
        exact Option.or_none

/-- Every placeholder that has been given out can be read back. -/
def Readable (m : Assignments) : Prop :=
  ∀ a ∈ m.entries, a.placeholder.index < Decimal.wordLimit

theorem readable_empty : empty.Readable :=
  fun _ h => nomatch h

theorem Readable.assign (hm : m.Readable) (hsize : m.size + 1 < Decimal.wordLimit)
    (kind : PlaceholderKind) (value : String) :
    (m.assign kind value).1.Readable ∧ (m.assign kind value).2.index < Decimal.wordLimit ∧
      (m.assign kind value).1.size ≤ m.size + 1 := by
  rcases assign_cases m kind value with ⟨hsame, a, ha, hp⟩ | hnew
  · rw [hsame, ← hp]
    exact ⟨hm, hm a ha, Nat.le_succ _⟩
  · have hcount : m.count kind ≤ m.size := List.countP_le_length
    have hindex : m.count kind + 1 < Decimal.wordLimit := by omega
    rw [hnew]
    refine ⟨fun a ha => ?_, hindex, Nat.le_of_eq (List.length_append)⟩
    rcases List.mem_append.1 ha with ha | ha
    · exact hm a ha
    · rw [List.mem_singleton.1 ha]
      exact hindex

end Assignments

end EditMining
