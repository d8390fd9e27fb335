import EditMining.Language.Lexer
import EditMining.Proofs.PlainValues

/-!
# Abstraction keeps lines apart

A change that abstraction hid, two lines becoming one, would not be mined, and
one that it invented would be mined in vain. Neither happens if the values that
are replaced are words: two lines of a hunk are equal after abstraction just if
they were equal before (`abstractHunk_keeps_lines_apart`).

Equal lines stay equal, as both are rewritten alike. For the converse every
replacement must be one that can be undone. A value that is met again stands
nowhere any more, and replacing it changes nothing. A new value gets a
placeholder that stands nowhere yet, and exchanging the two once more gives the
line back. Both rest on what holds of a line at any time, with the assignments
made so far (`Settles`): each placeholder in it has been given out, and none of
the replaced values is left.

Numbers are replaced in a larger class of characters than names. A value that is
a word comes up in neither by a replacement in the other
(`mem_runsOf_substituteRuns_scope`).
-/

namespace EditMining

open Text

/-- Putting in a word brings up no other word, in whichever class it is put in. -/
theorem mem_runsOf_substituteRuns_scope (kind kind' : PlaceholderKind)
    {old new u text : List Char} (hnew : CanRun isWordChar new) (hu : ∀ c ∈ u, isWordChar c = true)
    (h : u ∈ runsOf kind'.scope (substituteRuns kind.scope old new text)) :
    u = new ∨ u ∈ runsOf kind'.scope text := by
  by_cases hsame : kind'.scope = kind.scope
  · rw [hsame] at h ⊢
    exact (mem_runsOf_substituteRuns (hnew.of_imp kind.scope_of_isWordChar) h).imp id And.left
  · by_cases hkind : kind = .number
    · have hkind' : kind'.scope = isWordChar := by
        subst hkind
        cases kind' with
        | number => exact absurd rfl hsame
        | identifier | string | function => rfl
      rw [hkind'] at h ⊢
      exact mem_runsOf_substituteRuns_smaller kind.scope_of_isWordChar hnew h
    · have hscope : kind.scope = isWordChar := by
        cases kind with
        | number => exact absurd rfl hkind
        | identifier | string | function => rfl
      rw [hscope] at h
      exact mem_runsOf_substituteRuns_of_imp kind'.scope_of_isWordChar hu hnew h

/-- The value of an assignment, as it was asked for. -/
def Assignment.stableValue (a : Assignment) : StableValue :=
  ⟨a.placeholder.kind, a.value⟩

namespace Assignments

variable {m : Assignments} {v : StableValue}

/-- Assignments of plain values, numbered without gaps. -/
structure IsPlain (m : Assignments) : Prop where
  readable : m.Readable
  values : ∀ a ∈ m.entries, a.stableValue.IsPlain
  numbered : ∀ a ∈ m.entries, a.placeholder.index ≤ m.count a.placeholder.kind

theorem isPlain_empty : empty.IsPlain :=
  ⟨readable_empty, fun _ ha => (nomatch ha), fun _ ha => (nomatch ha)⟩

/-- A value that is assigned keeps its placeholder, and a new one gets a
placeholder that no other value has. -/
theorem IsPlain.assign_cases (hm : m.IsPlain) (v : StableValue) :
    ((m.assign v.kind v.value).1 = m ∧ ∃ a ∈ m.entries, a.stableValue = v) ∨
      ∃ p : Placeholder, p.kind = v.kind ∧ (∀ a ∈ m.entries, a.placeholder ≠ p) ∧
        p.index = m.count p.kind + 1 ∧
        m.assign v.kind v.value = (⟨m.entries ++ [⟨v.value, p⟩]⟩, p) := by
  cases hfind : m.find? v.kind v.value with
  | some p =>
      rw [find?, Option.map_eq_some_iff] at hfind
      obtain ⟨a, ha, -⟩ := hfind
      have hsame : a.placeholder.kind = v.kind ∧ a.value = v.value := by
        simpa only [decide_eq_true_eq] using List.find?_some ha
      refine .inl ⟨?_, a, List.mem_of_find?_eq_some ha, ?_⟩
      · rw [Assignments.assign, find?, ha]
        rfl
      · rw [Assignment.stableValue, hsame.1, hsame.2]
  | none =>
      refine .inr ⟨⟨v.kind, m.count v.kind + 1⟩, rfl, fun a ha heq => ?_, rfl, ?_⟩
      · have hindex := hm.numbered a ha
        rw [heq] at hindex
        exact absurd hindex (Nat.not_succ_le_self _)
      · rw [Assignments.assign, hfind]

theorem IsPlain.assign (hm : m.IsPlain) (hsize : m.size + 1 < Decimal.wordLimit)
    (hv : v.IsPlain) : (m.assign v.kind v.value).1.IsPlain := by
  obtain ⟨hreadable, -, -⟩ := hm.readable.assign hsize v.kind v.value
  rcases hm.assign_cases v with ⟨hsame, -⟩ | ⟨p, hkind, -, hindex, hassign⟩
  · rwa [hsame]
  · rw [hassign] at hreadable ⊢
    have hcount : ∀ kind, m.count kind ≤ (⟨m.entries ++ [⟨v.value, p⟩]⟩ : Assignments).count kind :=
      fun kind => List.Sublist.countP_le (List.sublist_append_left _ _)
    refine ⟨hreadable, fun a ha => ?_, fun a ha => ?_⟩
    · rcases List.mem_append.1 ha with ha | ha
      · exact hm.values a ha
      · rw [List.mem_singleton.1 ha, Assignment.stableValue, hkind]
        exact hv
    · rcases List.mem_append.1 ha with ha | ha
      · exact Nat.le_trans (hm.numbered a ha) (hcount _)
      · rw [List.mem_singleton.1 ha, hindex, count, count, List.countP_append]
        simp

/-! ## Lines under assignments -/

/-- In a line under assignments each placeholder is one that was given out, and no
assigned value is left. -/
structure Settles (m : Assignments) (line : List Char) : Prop where
  known : ∀ p : Placeholder, p.index < Decimal.wordLimit → p.renderChars ∈ words line →
    ∃ a ∈ m.entries, a.placeholder = p
  gone : ∀ a ∈ m.entries, a.value.toList ∉ runsOf a.placeholder.kind.scope line

theorem settles_empty {line : List Char}
    (h : ∀ w ∈ words line, Placeholder.isPlaceholder w = false) : empty.Settles line := by
  refine ⟨fun p hp hmem => ?_, fun _ ha => (nomatch ha)⟩
  have hfalse := h _ hmem
  rw [Placeholder.isPlaceholder_renderChars hp] at hfalse
  nomatch hfalse

variable {line : List Char}

/-- A placeholder that was not given out is no run of a line, in any class. -/
theorem Settles.fresh (hline : m.Settles line) {p : Placeholder}
    (hp : p.index < Decimal.wordLimit) (hnew : ∀ a ∈ m.entries, a.placeholder ≠ p)
    (kind : PlaceholderKind) : p.renderChars ∉ runsOf kind.scope line := by
  intro hmem
  obtain ⟨a, ha, heq⟩ := hline.known p hp
    (mem_runsOf_of_imp kind.scope_of_isWordChar p.canRun_renderChars.inside hmem)
  exact hnew a ha heq

theorem Settles.rewriteChars (hm : m.IsPlain) (hsize : m.size + 1 < Decimal.wordLimit)
    (hv : v.IsPlain) (hline : m.Settles line) :
    (m.assign v.kind v.value).1.Settles
      (Abstraction.rewriteChars v (m.assign v.kind v.value).2 line) := by
  obtain ⟨-, hreadable, -⟩ := hm.readable.assign hsize v.kind v.value
  rw [hv.rewriteChars_eq_substituteRuns]
  rcases hm.assign_cases v with ⟨hsame, a, ha, rfl⟩ | ⟨p, hkind, hfresh, -, hassign⟩
  · -- The value was assigned before, so the line no longer has it.
    rwa [hsame, substituteRuns_of_notMem]
    exact hline.gone a ha
  · rw [hassign] at hreadable ⊢
    have hrun := p.canRun_renderChars
    -- Of all runs, in either class, only the new placeholder was not there before.
    refine ⟨fun q hq hmem => ?_, fun a ha hmem => ?_⟩
    · rcases mem_runsOf_substituteRuns_scope v.kind .identifier hrun
        q.canRun_renderChars.inside hmem with heq | hmem
      · exact ⟨_, List.mem_append_right _ List.mem_cons_self,
          (Placeholder.renderChars_inj heq).symm⟩
      · obtain ⟨a, ha, rfl⟩ := hline.known q hq hmem
        exact ⟨a, List.mem_append_left _ ha, rfl⟩
    · rcases List.mem_append.1 ha with ha | ha
      · have hplain := hm.values a ha
        rcases mem_runsOf_substituteRuns_scope v.kind _ hrun hplain.canRun.inside hmem with
          heq | hmem
        · exact hplain.ne_renderChars hreadable heq
        · exact hline.gone a ha hmem
      · rw [List.mem_singleton.1 ha, hkind] at hmem
        rcases mem_runsOf_substituteRuns (hrun.of_imp v.kind.scope_of_isWordChar) hmem with
          heq | ⟨-, hne⟩
        · exact hv.ne_renderChars hreadable heq
        · exact hne rfl

/-- A replacement can be undone in every line that the assignments settle. -/
theorem rewriteChars_inj (hm : m.IsPlain) (hsize : m.size + 1 < Decimal.wordLimit)
    (hv : v.IsPlain) {line' : List Char} (hline : m.Settles line) (hline' : m.Settles line')
    (h : Abstraction.rewriteChars v (m.assign v.kind v.value).2 line =
      Abstraction.rewriteChars v (m.assign v.kind v.value).2 line') : line = line' := by
  obtain ⟨-, hreadable, -⟩ := hm.readable.assign hsize v.kind v.value
  rw [hv.rewriteChars_eq_substituteRuns, hv.rewriteChars_eq_substituteRuns] at h
  rcases hm.assign_cases v with ⟨-, a, ha, rfl⟩ | ⟨p, -, hfresh, -, hassign⟩
  · have hsame : ∀ line, m.Settles line →
        substituteRuns a.stableValue.kind.scope a.stableValue.value.toList
          (m.assign a.stableValue.kind a.stableValue.value).2.renderChars line = line :=
      fun line hline => substituteRuns_of_notMem (hline.gone a ha) _
    rwa [hsame line hline, hsame line' hline'] at h
  · rw [hassign] at hreadable h
    have hrun := p.canRun_renderChars.of_imp v.kind.scope_of_isWordChar
    have hundo : ∀ line, m.Settles line →
        substituteRuns v.kind.scope p.renderChars v.value.toList
          (substituteRuns v.kind.scope v.value.toList p.renderChars line) = line :=
      fun line hline => substituteRuns_substituteRuns (fun _ h => h) hrun
        (hline.fresh hreadable hfresh v.kind)
    rw [← hundo line hline, h, hundo line' hline']

end Assignments

namespace Abstraction

/-! ## All replacements -/

/-- Plain values are replaced by a function on lines that tells lines apart. -/
theorem foldl_replaceValue_inj {m : Assignments} {vs : List StableValue} (hm : m.IsPlain)
    (hvs : ∀ v ∈ vs, v.IsPlain) (hsize : m.size + vs.length < Decimal.wordLimit) :
    ∃ f : String → String, (∀ h, (vs.foldl replaceValue ⟨h, m⟩).hunk = h.mapLines f) ∧
      ∀ x y : String, m.Settles x.toList → m.Settles y.toList → f x = f y → x = y := by
  induction vs generalizing m with
  | nil => exact ⟨fun line => line, fun h => h.mapLines_id.symm, fun _ _ _ _ heq => heq⟩
  | cons v rest ih =>
      rw [List.length_cons] at hsize
      have hv := hvs v List.mem_cons_self
      have hone : m.size + 1 < Decimal.wordLimit := by omega
      obtain ⟨-, -, hgrows⟩ := hm.readable.assign hone v.kind v.value
      obtain ⟨f, hmap, hinj⟩ := ih (hm.assign hone hv)
        (fun w hw => hvs w (List.mem_cons_of_mem v hw)) (by omega)
      refine ⟨fun line => f (rewriteLine v (m.assign v.kind v.value).2 line), fun h => ?_,
        fun x y hx hy heq => ?_⟩
      · rw [List.foldl_cons, replaceValue, hmap, Hunk.mapLines_mapLines]
      · -- The rest is undone first; the lines that it met were settled by this step.
        have hstep := hinj (rewriteLine v (m.assign v.kind v.value).2 x)
          (rewriteLine v (m.assign v.kind v.value).2 y)
        rw [rewriteLine, rewriteLine, String.toList_ofList, String.toList_ofList] at hstep
        have hchars := String.ofList_injective
          (hstep (hx.rewriteChars hm hone hv) (hy.rewriteChars hm hone hv) heq)
        exact String.toList_injective (Assignments.rewriteChars_inj hm hone hv hx hy hchars)

/-- A name made of word characters, or a number made of word characters that does
not begin with a letter. -/
structure IsWordOrNumber (v : StableValue) : Prop where
  notString : v.kind ≠ .string
  inside : ∀ c ∈ v.value.toList, isWordChar c = true
  numeral : v.kind = .number → ∀ c ∈ v.value.toList.head?, isAlphabetic c = false

theorem commonText?_ne_empty {m : NodeMatch} {text : String} (h : commonText? m = some text) :
    text ≠ "" := by
  rw [commonText?] at h
  split at h
  · split at h
    · next hcommon =>
        cases h
        exact hcommon.2
    · nomatch h
  · nomatch h

theorem isPlain_of_stableValue? {reserved : ReservedNames} {before behind : List Char}
    {m : NodeMatch} {v : StableValue} (h : stableValue? reserved before behind m = some v)
    (hv : IsWordOrNumber v) : v.IsPlain := by
  have hchars : ∀ text : String, text ≠ "" → text.toList ≠ [] :=
    fun text hne hnil => hne (String.toList_injective hnil)
  rw [stableValue?] at h
  split at h
  · -- A name.
    obtain ⟨text, hfilter, rfl⟩ := Option.map_eq_some_iff.1 h
    obtain ⟨htext, hable⟩ := Option.filter_eq_some_iff.1 hfilter
    rw [isAbstractable, Bool.and_eq_true, Bool.not_eq_true'] at hable
    exact ⟨hv.notString, ⟨hchars text (commonText?_ne_empty htext), hv.inside⟩, hable.2⟩
  · -- A number. No placeholder begins like one.
    obtain ⟨text, htext, rfl⟩ := Option.map_eq_some_iff.1 h
    refine ⟨hv.notString, ⟨hchars text (commonText?_ne_empty htext), hv.inside⟩, ?_⟩
    refine Bool.eq_false_iff.2 fun hplaceholder => ?_
    obtain ⟨kind, more, heq⟩ := Placeholder.exists_initial_of_isPlaceholder hplaceholder
    have hletter := hv.numeral rfl kind.initial (by rw [heq]; rfl)
    have hinitial : isAlphabetic kind.initial = true := by cases kind <;> decide
    rw [hinitial] at hletter
    nomatch hletter
  · split at h
    · split at h
      · cases h
        exact absurd rfl hv.notString
      · nomatch h
    · nomatch h
  · nomatch h

variable {σ : Type} {o : Oracle σ} {h : Hunk} {d : StructuralDiff} {s s' : σ}

/-- If no word of a hunk is a placeholder, and the oracle matches names and whole
numbers only, two lines are equal after abstraction just if they were before, whatever
tokenizer tells which functions the hunk defines. -/
theorem abstractHunk_keeps_lines_apart (reserved : ReservedNames) (normalizes : Bool)
    (tk : Tokenizer)
    (hwords : ∀ line ∈ h.lines, ∀ w ∈ words line.toList, Placeholder.isPlaceholder w = false)
    (hanswer : o.answer tk.language (prepare normalizes tk h).hunk s = (.ok d, s'))
    (hvalues : ∀ v ∈ stableValues reserved (prepare normalizes tk h).hunk d, IsWordOrNumber v)
    (hsize : h.lines.length + d.matchings.length < Decimal.wordLimit) :
    ∃ a : AbstractedHunk, ((abstractHunk o reserved normalizes tk h).run.run s).1 = .ok a ∧
      a.hunk.condition.length = h.condition.length ∧
      a.hunk.consequent.length = h.consequent.length ∧
      ∀ i j : Nat, a.hunk.lines[i]? = a.hunk.lines[j]? ↔ h.lines[i]? = h.lines[j]? := by
  refine ⟨_, abstractHunk_of_answer reserved normalizes hanswer, ?_⟩
  generalize hvs : stableValues reserved (prepare normalizes tk h).hunk d = vs at hvalues ⊢
  have hplain : ∀ v ∈ preparedNames normalizes tk h ++ vs, v.IsPlain := by
    intro v hv
    rcases List.mem_append.1 hv with hv | hv
    · exact isPlain_of_mem_preparedNames hv
    · have hword := hvalues v hv
      rw [← hvs] at hv
      obtain ⟨m, -, hm⟩ := List.mem_filterMap.1 hv
      exact isPlain_of_stableValue? hm hword
  have hlength : Assignments.empty.size + (preparedNames normalizes tk h ++ vs).length <
      Decimal.wordLimit := by
    have hprepared := length_preparedNames_le normalizes tk h
    have hstable : vs.length ≤ d.matchings.length := by
      rw [← hvs]
      exact List.length_filterMap_le _ _
    simp only [Assignments.size, Assignments.empty, List.length_nil, List.length_append]
    omega
  obtain ⟨f, hmap, hinj⟩ := foldl_replaceValue_inj Assignments.isPlain_empty hplain hlength
  have hhunk := hmap h
  rw [List.foldl_append, ← prepare_eq_foldl] at hhunk
  rw [hhunk]
  refine ⟨List.length_map f, List.length_map f, fun i j => ?_⟩
  rw [Hunk.lines_mapLines, List.getElem?_map, List.getElem?_map]
  constructor
  · intro heq
    cases hi : h.lines[i]? with
    | none =>
        rw [hi] at heq
        exact (Option.map_eq_none_iff.1 heq.symm).symm
    | some x =>
        rw [hi] at heq
        obtain ⟨y, hj, hxy⟩ := Option.map_eq_some_iff.1 heq.symm
        rw [hj, hinj x y (Assignments.settles_empty (hwords x (List.mem_of_getElem? hi)))
          (Assignments.settles_empty (hwords y (List.mem_of_getElem? hj))) hxy.symm]
  · intro heq
    rw [heq]

theorem abstractHunk_keeps_lines_apart_of_area :
    let h : Hunk := ⟨["def area(w):", "return 2 * w", "area(2.5)"],
      ["def area(w):", "return 12 * w", "area(2.5)"]⟩
    let node (kind : NodeKind) (text : String) : Node := ⟨kind, some text, ⟨0, 1⟩⟩
    let same (kind : NodeKind) (text : String) : NodeMatch := ⟨node kind text, node kind text⟩
    let d : StructuralDiff :=
      ⟨[same .identifier "w", same .integer "12", same .integer "2", same .identifier "w"], []⟩
    let o := Oracle.ofFunction fun _ _ => .ok d
    let reserved : ReservedNames := ⟨["return"]⟩
    let tk := Tokenizer.ofParser .python Language.python.parse
    stableValues reserved (prepare true tk h).hunk d =
        [⟨.identifier, "w"⟩, ⟨.number, "12"⟩, ⟨.number, "2"⟩, ⟨.identifier, "w"⟩] ∧
      ∃ a : AbstractedHunk, ((abstractHunk o reserved true tk h).run.run 0).1 = .ok a ∧
        a.hunk =
          ⟨["def FUNCTION_1(VARIABLE_1):", "return NUMBER_2 * VARIABLE_1", "FUNCTION_1(2.5)"],
            ["def FUNCTION_1(VARIABLE_1):", "return NUMBER_1 * VARIABLE_1", "FUNCTION_1(2.5)"]⟩ ∧
        ∀ i j : Nat, a.hunk.lines[i]? = a.hunk.lines[j]? ↔ h.lines[i]? = h.lines[j]? := by
  intro h node same d o reserved tk
  have hstable : stableValues reserved (prepare true tk h).hunk d =
      [⟨.identifier, "w"⟩, ⟨.number, "12"⟩, ⟨.number, "2"⟩, ⟨.identifier, "w"⟩] := by
    decide +kernel
  have hvalues : ∀ v ∈ stableValues reserved (prepare true tk h).hunk d,
      IsWordOrNumber v := by
    have hall : ∀ v ∈ [StableValue.mk .identifier "w", ⟨.number, "12"⟩, ⟨.number, "2"⟩,
        ⟨.identifier, "w"⟩], v.kind ≠ .string ∧ v.value.toList.all isWordChar = true ∧
          (v.kind = .number → v.value.toList.head?.all (!isAlphabetic ·) = true) := by
      decide
    rw [hstable]
    intro v hv
    obtain ⟨hkind, hword, hnumeral⟩ := hall v hv
    refine ⟨hkind, List.all_eq_true.1 hword, fun hnumber c hc => ?_⟩
    have hfirst := hnumeral hnumber
    rw [Option.mem_def.1 hc, Option.all_some, Bool.not_eq_true'] at hfirst
    exact hfirst
  obtain ⟨a, ha, -, -, hlines⟩ :=
    abstractHunk_keeps_lines_apart (o := o) (h := h) (d := d) (s := 0) reserved true tk
      (by decide) rfl hvalues (by decide)
  have hhunk : ((abstractHunk o reserved true tk h).run.run 0).1.map AbstractedHunk.hunk =
      .ok ⟨["def FUNCTION_1(VARIABLE_1):", "return NUMBER_2 * VARIABLE_1", "FUNCTION_1(2.5)"],
        ["def FUNCTION_1(VARIABLE_1):", "return NUMBER_1 * VARIABLE_1", "FUNCTION_1(2.5)"]⟩ := by
    decide +kernel
  rw [ha] at hhunk
  exact ⟨hstable, a, ha, Except.ok.inj hhunk, hlines⟩

end Abstraction

end EditMining
