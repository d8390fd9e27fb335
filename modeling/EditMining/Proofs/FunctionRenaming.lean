import EditMining.Language.Lexer
import EditMining.Proofs.NameRenaming
import Mathlib.Data.Set.Function

/-!
# Renaming functions

The functions that a hunk defines are renamed one after the other, each wherever its
name is a word. Together that changes every word for itself (`foldl_renameIn`), and
lines stay different if no two of their words become one (`mapRuns_injOn`).

Names get `FUNCTION_1`, `FUNCTION_2` and so on, whatever the hunk has in it. No name is
renamed twice, since a name is no placeholder. So whether the renaming keeps words apart
is a question of what the hunk holds already: just if a name is a word of the hunk, and
the placeholder that it gets is one too, two words become one
(`normalizeFunctionNames_exact`). That a tokenizer names functions is all that is used of
it here.
-/

namespace EditMining

open Text

/-! ## Words and lines -/

theorem Text.mapRuns_injOn {inClass : Char → Bool} {f : List Char → List Char}
    {ws : Set (List Char)} (hrun : ∀ w ∈ ws, CanRun inClass (f w)) (hinj : Set.InjOn f ws) :
    Set.InjOn (mapRuns inClass f) {text | ∀ w ∈ runsOf inClass text, w ∈ ws} := by
  have hback : Set.LeftInvOn (mapRuns inClass (Function.invFunOn f ws)) (mapRuns inClass f)
      {text | ∀ w ∈ runsOf inClass text, w ∈ ws} := by
    intro text htext
    rw [mapRuns_mapRuns fun w hw => hrun w (htext w hw)]
    exact mapRuns_eq_self fun w hw => hinj.leftInvOn_invFunOn (htext w hw)
  exact hback.injOn

/-- The words of a hunk's lines. -/
def Hunk.words (h : Hunk) : List (List Char) :=
  h.lines.flatMap fun line => Text.words line.toList

/-- What becomes of a word when a name is replaced. -/
def renameWord (w : List Char) (r : Renaming) : List Char :=
  if w = r.1.toList then r.2.renderChars else w

section Renamings

variable {rs : List Renaming} {r : Renaming} {w : List Char}

theorem canRun_renameWord (hw : CanRun isWordChar w) : CanRun isWordChar (renameWord w r) := by
  rw [renameWord]
  split
  · exact r.2.canRun_renderChars
  · exact hw

theorem canRun_foldl_renameWord (hw : CanRun isWordChar w) :
    CanRun isWordChar (rs.foldl renameWord w) := by
  induction rs generalizing w with
  | nil => exact hw
  | cons r rs ih => exact ih (canRun_renameWord hw)

theorem foldl_renameIn (hplain : ∀ r ∈ rs, CanRun isWordChar r.1.toList) (line : String) :
    rs.foldl renameIn line =
      String.ofList (mapRuns isWordChar (fun w => rs.foldl renameWord w) line.toList) := by
  induction rs generalizing line with
  | nil =>
      have hsame : mapRuns isWordChar (fun w => [].foldl renameWord w) line.toList = line.toList :=
        mapRuns_eq_self fun _ _ => rfl
      rw [hsame, List.foldl_nil, String.ofList_toList]
  | cons r rs ih =>
      obtain ⟨hr, hplain⟩ := List.forall_mem_cons.1 hplain
      rw [List.foldl_cons, ih hplain, renameIn, replaceWord,
        replaceBounded_eq_substituteRuns hr.ne_nil hr.inside, substituteRuns_eq_mapRuns,
        String.toList_ofList]
      exact congrArg String.ofList
        (mapRuns_mapRuns fun w hw => canRun_renameWord (canRun_of_mem_runsOf hw))

theorem foldl_renameWord_of_notMem (hw : ∀ r ∈ rs, r.1.toList ≠ w) :
    rs.foldl renameWord w = w := by
  induction rs with
  | nil => rfl
  | cons r rs ih =>
      obtain ⟨hr, hw⟩ := List.forall_mem_cons.1 hw
      rw [List.foldl_cons, renameWord, if_neg hr.symm, ih hw]

theorem foldl_renameWord_of_mem (hnodup : (rs.map Prod.fst).Nodup) (hr : r ∈ rs)
    (hstays : ∀ s ∈ rs, s.1.toList ≠ r.2.renderChars) :
    rs.foldl renameWord r.1.toList = r.2.renderChars := by
  induction rs with
  | nil => nomatch hr
  | cons first rs ih =>
      rw [List.map_cons, List.nodup_cons] at hnodup
      have hstays' := (List.forall_mem_cons.1 hstays).2
      rw [List.foldl_cons, renameWord]
      rcases List.mem_cons.1 hr with rfl | hr
      · -- What takes its place is no name, so nothing happens to it later.
        rw [if_pos rfl, foldl_renameWord_of_notMem hstays']
      · rw [if_neg, ih hnodup.2 hr hstays']
        intro heq
        exact hnodup.1 (String.toList_inj.1 heq ▸ List.mem_map_of_mem hr)

end Renamings

/-! ## The names of a hunk -/

theorem nodup_eraseDups {α : Type} [BEq α] [LawfulBEq α] (xs : List α) : xs.eraseDups.Nodup := by
  match xs with
  | [] => exact List.nodup_nil
  | x :: rest =>
      have hfilter := List.length_filter_le (fun y => !y == x) rest
      have hrest := nodup_eraseDups (rest.filter fun y => !y == x)
      rw [List.eraseDups_cons, List.nodup_cons]
      exact ⟨by simp [List.mem_eraseDups], hrest⟩
termination_by xs.length
decreasing_by
  exact Nat.lt_succ_of_le hfilter

theorem nodup_definedNames (tk : Tokenizer) (h : Hunk) : (definedNames tk h).Nodup := by
  rw [definedNames]
  split
  · exact List.nodup_nil
  · exact nodup_eraseDups _

theorem assignFunctions_eq_mapIdx {m : Assignments} {names : List String} (hnodup : names.Nodup)
    (hnew : ∀ name ∈ names, m.find? .function name = none) :
    (assignFunctions m names).2 =
      names.mapIdx fun k name => (name, ⟨.function, m.count .function + (k + 1)⟩) := by
  induction names generalizing m with
  | nil => rfl
  | cons name rest ih =>
      obtain ⟨hname, hnodup⟩ := List.nodup_cons.1 hnodup
      obtain ⟨hfirst, hnew⟩ := List.forall_mem_cons.1 hnew
      have hrest : ∀ other ∈ rest, (m.assign .function name).1.find? .function other = none := by
        intro other hother
        rw [Assignments.find?_assign, if_neg, hnew other hother]
        rintro ⟨-, rfl⟩
        exact hname hother
      have hcount : (m.assign .function name).1.count .function = m.count .function + 1 := by
        rw [Assignments.count_assign, hfirst]
        rfl
      have hplaceholder : (m.assign .function name).2 = ⟨.function, m.count .function + 1⟩ := by
        rw [Assignments.assign_snd, hfirst]
        rfl
      rw [assignFunctions, List.mapIdx_cons]
      simp only [ih hnodup hrest, hcount, hplaceholder]
      simp only [Nat.zero_add, Nat.add_assoc, Nat.add_comm 1]

/-- The names of the functions that a hunk defines, and what they are replaced by. -/
def functionRenamings (tk : Tokenizer) (h : Hunk) : List Renaming :=
  (assignFunctions .empty (definedNames tk h)).2

variable {tk : Tokenizer} {h : Hunk}

theorem functionRenamings_eq (tk : Tokenizer) (h : Hunk) :
    functionRenamings tk h =
      (definedNames tk h).mapIdx fun k name => (name, ⟨.function, k + 1⟩) := by
  rw [functionRenamings, assignFunctions_eq_mapIdx (nodup_definedNames tk h) fun _ _ => rfl]
  simp [Assignments.count, Assignments.empty]

theorem map_fst_functionRenamings (tk : Tokenizer) (h : Hunk) :
    (functionRenamings tk h).map Prod.fst = definedNames tk h := by
  rw [functionRenamings_eq]
  refine List.ext_getElem? fun k => ?_
  simp only [List.getElem?_map, List.getElem?_mapIdx, Option.map_map]
  exact Option.map_id'

/-- What becomes of a word when the functions of a hunk are renamed. -/
def normalizedWord (tk : Tokenizer) (h : Hunk) (w : List Char) : List Char :=
  (functionRenamings tk h).foldl renameWord w

/-- The word that takes the place of a function's name, by the place of the name. -/
def functionWord (k : Nat) : List Char :=
  (Placeholder.mk .function (k + 1)).renderChars

theorem normalizedWord_of_name {k : Nat} {name : String}
    (hk : (definedNames tk h)[k]? = some name)
    (hstays : ∀ other ∈ definedNames tk h, other.toList ≠ functionWord k) :
    normalizedWord tk h name.toList = functionWord k := by
  have hmem : (name, Placeholder.mk .function (k + 1)) ∈ functionRenamings tk h := by
    rw [functionRenamings_eq]
    refine List.mem_of_getElem? (i := k) ?_
    rw [List.getElem?_mapIdx, hk]
    rfl
  have hnodup := nodup_definedNames tk h
  rw [← map_fst_functionRenamings] at hnodup
  refine foldl_renameWord_of_mem hnodup hmem fun r hr => hstays r.1 ?_
  rw [← map_fst_functionRenamings]
  exact List.mem_map_of_mem hr

theorem normalizedWord_of_notMem {w : List Char}
    (hw : ∀ name ∈ definedNames tk h, name.toList ≠ w) : normalizedWord tk h w = w := by
  refine foldl_renameWord_of_notMem fun r hr => hw r.1 ?_
  rw [← map_fst_functionRenamings]
  exact List.mem_map_of_mem hr

theorem canRun_of_mem_words {w : List Char} (hw : w ∈ h.words) : CanRun isWordChar w := by
  obtain ⟨line, -, hw⟩ := List.mem_flatMap.1 hw
  exact canRun_of_mem_runsOf hw

/-! ## Hunks -/

theorem normalizeFunctionNames_eq (tk : Tokenizer) (h : Hunk) :
    (normalizeFunctionNames tk h .empty).1 =
      h.mapLines fun line =>
        String.ofList (mapRuns isWordChar (normalizedWord tk h) line.toList) := by
  have hplain : ∀ r ∈ functionRenamings tk h, CanRun isWordChar r.1.toList := by
    intro r hr
    have hname := List.mem_map_of_mem (f := Prod.fst) hr
    rw [map_fst_functionRenamings] at hname
    exact (isPlain_of_isFunctionName (mem_definedNames hname)).canRun
  exact Hunk.mapLines_congr fun line _ => foldl_renameIn hplain line

/-- A name is no placeholder, so it is never what another name is renamed to. -/
theorem ne_functionWord (hsize : (definedNames tk h).length < Decimal.wordLimit) {k : Nat}
    (hk : k < (definedNames tk h).length) {name : String} (hname : name ∈ definedNames tk h) :
    name.toList ≠ functionWord k :=
  (isPlain_of_isFunctionName (mem_definedNames hname)).ne_renderChars (p := ⟨.function, k + 1⟩)
    (Nat.lt_of_le_of_lt hk hsize)

/-- A name of a function, or any other word. -/
theorem normalizedWord_cases (hsize : (definedNames tk h).length < Decimal.wordLimit)
    (w : List Char) :
    (∃ (k : Nat) (name : String), (definedNames tk h)[k]? = some name ∧ name.toList = w ∧
      normalizedWord tk h w = functionWord k) ∨ normalizedWord tk h w = w := by
  by_cases hw : ∀ name ∈ definedNames tk h, name.toList ≠ w
  · exact .inr (normalizedWord_of_notMem hw)
  · simp only [not_forall, not_not] at hw
    obtain ⟨name, hname, rfl⟩ := hw
    obtain ⟨k, hk⟩ := List.mem_iff_getElem?.1 hname
    exact .inl ⟨k, name, hk, rfl, normalizedWord_of_name hk fun other hother =>
      ne_functionWord hsize (List.getElem?_eq_some_iff.1 hk).1 hother⟩

/-- The placeholders of those names that are words of a hunk are not among its words. -/
def SparesPlaceholders (tk : Tokenizer) (h : Hunk) : Prop :=
  ∀ (k : Nat) (name : String), (definedNames tk h)[k]? = some name → name.toList ∈ h.words →
    functionWord k ∉ h.words

theorem normalizedWord_injOn (hsize : (definedNames tk h).length < Decimal.wordLimit)
    (hspares : SparesPlaceholders tk h) :
    Set.InjOn (normalizedWord tk h) {w | w ∈ h.words} := by
  intro v hv w hw heq
  rcases normalizedWord_cases hsize v with ⟨i, name, hi, rfl, hname⟩ | hsame <;>
    rcases normalizedWord_cases hsize w with ⟨j, other, hj, rfl, hother⟩ | hsame'
  · rw [hname, hother] at heq
    have hnumber := congrArg Placeholder.index (Placeholder.renderChars_inj heq)
    obtain rfl : i = j := Nat.succ.inj hnumber
    rw [hi] at hj
    cases hj
    rfl
  · rw [hname, hsame'] at heq
    rw [← heq] at hw
    exact absurd hw (hspares i name hi hv)
  · rw [hsame, hother] at heq
    rw [heq] at hv
    exact absurd hv (hspares j other hj hw)
  · rwa [hsame, hsame'] at heq

/-- A hunk whose functions are renamed is the hunk with its words changed one by one.
Different words become different ones just if no name that is a word of the hunk gets a
placeholder that is one already; and then different lines stay different. -/
theorem normalizeFunctionNames_exact (tk : Tokenizer) (h : Hunk)
    (hsize : (definedNames tk h).length < Decimal.wordLimit) :
    let word := normalizedWord tk h
    let line (x : String) : String := String.ofList (mapRuns isWordChar word x.toList)
    (normalizeFunctionNames tk h .empty).1 = h.mapLines line ∧
      ((∀ v ∈ h.words, ∀ w ∈ h.words, v ≠ w → word v ≠ word w) ↔ SparesPlaceholders tk h) ∧
      (SparesPlaceholders tk h → ∀ x ∈ h.lines, ∀ y ∈ h.lines, x ≠ y → line x ≠ line y) := by
  intro word line
  refine ⟨normalizeFunctionNames_eq tk h, ⟨fun hapart => ?_, fun hspares => ?_⟩, fun hspares => ?_⟩
  · intro k name hk hname htaken
    have hlength := (List.getElem?_eq_some_iff.1 hk).1
    have hother : ∀ other ∈ definedNames tk h, other.toList ≠ functionWord k :=
      fun _ => ne_functionWord hsize hlength
    refine hapart name.toList hname (functionWord k) htaken
      (hother name (List.mem_of_getElem? hk)) ?_
    rw [show word _ = _ from normalizedWord_of_name hk hother,
      show word _ = _ from normalizedWord_of_notMem hother]
  · exact fun v hv w hw hne heq => hne (normalizedWord_injOn hsize hspares hv hw heq)
  · have hlines := mapRuns_injOn (fun w hw => canRun_foldl_renameWord (canRun_of_mem_words hw))
      (normalizedWord_injOn hsize hspares)
    have hmem : ∀ x ∈ h.lines, ∀ w ∈ runsOf isWordChar x.toList, w ∈ h.words :=
      fun x hx w hw => List.mem_flatMap.2 ⟨x, hx, hw⟩
    intro x hx y hy hne heq
    exact hne (String.toList_inj.1 (hlines (hmem x hx) (hmem y hy) (String.ofList_injective heq)))

/-- A function whose name is the front of another one's. -/
theorem normalizeFunctionNames_exact_of_prefix :
    let tk := Tokenizer.ofParser .python Language.python.parse
    let h : Hunk := ⟨["def load(path):", "load(FUNCTION_3)"], ["def loads(path):", "load(loads)"]⟩
    definedNames tk h = ["load", "loads"] ∧
      (normalizeFunctionNames tk h .empty).1 =
        ⟨["def FUNCTION_1(path):", "FUNCTION_1(FUNCTION_3)"],
          ["def FUNCTION_2(path):", "FUNCTION_1(FUNCTION_2)"]⟩ ∧
      ∀ v ∈ h.words, ∀ w ∈ h.words, v ≠ w →
        normalizedWord tk h v ≠ normalizedWord tk h w := by
  intro tk h
  have hnames : definedNames tk h = ["load", "loads"] := by decide +kernel
  have hfresh : ∀ k < 2, functionWord k ∉ h.words := by decide +kernel
  refine ⟨hnames, by decide +kernel, ?_⟩
  have hsize : (definedNames tk h).length < Decimal.wordLimit := by
    rw [hnames]
    decide
  refine (normalizeFunctionNames_exact tk h hsize).2.1.2 fun k name hk _ => hfresh k ?_
  rw [hnames] at hk
  exact (List.getElem?_eq_some_iff.1 hk).1

/-- The first name gets the placeholder that a function has already. -/
theorem defined_name_takes_used_placeholder :
    let tk := Tokenizer.ofParser .python Language.python.parse
    let h : Hunk := ⟨["def FUNCTION_1(a):"], ["def load(a):"]⟩
    "def FUNCTION_1(a):" ≠ "def load(a):" ∧ "FUNCTION_1".toList ∈ h.words ∧
      "load".toList ∈ h.words ∧
      (normalizeFunctionNames tk h .empty).1 =
        ⟨["def FUNCTION_1(a):"], ["def FUNCTION_1(a):"]⟩ := by
  decide +kernel

end EditMining
