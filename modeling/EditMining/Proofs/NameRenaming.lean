import EditMining.Language.Lexer
import EditMining.Proofs.PlainValues

/-!
# Abstraction forgets names

Which names an edit leaves alone is forgotten when it is abstracted: only the
order in which the oracle matches them is kept. So two hunks that differ in these
names alone come out as the same hunk (`abstractHunk_forgets_names`), even if the
new names are the old ones exchanged among each other.

Names are replaced one after the other, in a text that earlier replacements have
changed already. What has been put in is a placeholder, and no name is one. So
behind any number of replacements the text is the one from the beginning with
every word exchanged at once for what the assignments say of it
(`foldl_replaceValue_names`), and it is enough to look at one word at a time.

The assignments for the old and for the new names run side by side. They give the
same placeholder to corresponding names, since it depends on nothing but the
names that came before (`Assignments.Alike.assign`).
-/

namespace EditMining

open Text

namespace Assignments

variable {m m' : Assignments} {kind kind' : PlaceholderKind} {value value' : String}

/-! ## Names one after the other -/

/-- Placeholders for some names, one after the other. -/
def assignNames (m : Assignments) (names : List String) : Assignments :=
  names.foldl (fun m name => (m.assign .identifier name).1) m

theorem find?_assignNames_eq_none {names : List String} {name : String} :
    (m.assignNames names).find? .identifier name = none ↔
      m.find? .identifier name = none ∧ name ∉ names := by
  induction names generalizing m with
  | nil => simp [assignNames]
  | cons first rest ih =>
      rw [assignNames, List.foldl_cons, ← assignNames, ih, find?_assign, List.mem_cons]
      by_cases heq : first = name
      · simp [heq]
      · simp [heq, Ne.symm heq]

/-- What takes the place of a word: its placeholder if it has one. -/
def wordFor (m : Assignments) (w : List Char) : List Char :=
  match m.find? .identifier (String.ofList w) with
  | some p => p.renderChars
  | none => w

def rewriteNames (m : Assignments) (line : String) : String :=
  String.ofList (mapRuns isWordChar m.wordFor line.toList)

theorem canRun_wordFor {w : List Char} (hw : CanRun isWordChar w) :
    CanRun isWordChar (m.wordFor w) := by
  rw [wordFor]
  split
  · exact Placeholder.canRun_renderChars _
  · exact hw

theorem rewriteNames_empty (line : String) : empty.rewriteNames line = line := by
  have hsame : mapRuns isWordChar empty.wordFor line.toList = line.toList :=
    mapRuns_eq_self fun _ _ => rfl
  rw [rewriteNames, hsame, String.ofList_toList]

theorem Readable.index_lt_of_find? (hm : m.Readable) {p : Placeholder}
    (h : m.find? kind value = some p) : p.index < Decimal.wordLimit := by
  obtain ⟨a, ha, rfl⟩ := Option.map_eq_some_iff.1 h
  exact hm a (List.mem_of_find?_eq_some ha)

/-- Replacing one more name is looking words up in one more assignment. -/
theorem wordFor_assign (hm : m.Readable) {name : String}
    (hname : (StableValue.mk .identifier name).IsPlain) (w : List Char) :
    (m.assign .identifier name).1.wordFor w =
      if m.wordFor w = name.toList then (m.assign .identifier name).2.renderChars
      else m.wordFor w := by
  have hsame : name = String.ofList w ↔ w = name.toList := by
    constructor
    · rintro rfl
      exact String.toList_ofList.symm
    · rintro rfl
      exact String.ofList_toList.symm
  rw [wordFor, find?_assign, wordFor]
  cases hfind : m.find? .identifier (String.ofList w) with
  | some p =>
      -- The word is a placeholder by now, and so is no name.
      have hne := hname.ne_renderChars (hm.index_lt_of_find? hfind)
      dsimp only
      rw [if_neg (Ne.symm hne)]
      split
      · next p' heq =>
          split at heq
          · next hnamed =>
              rw [assign_snd, hnamed.2, hfind] at heq
              cases heq
              rfl
          · cases heq
            rfl
      · next heq => split at heq <;> nomatch heq
  | none =>
      dsimp only
      by_cases hw : w = name.toList
      · rw [if_pos ⟨rfl, hsame.2 hw⟩, if_pos hw]
      · rw [if_neg fun h => hw (hsame.1 h.2), if_neg hw]

/-! ## Two runs side by side -/

/-- Assignments that agree on corresponding names. -/
structure Alike (names : List String) (ρ : String → String) (m m' : Assignments) : Prop where
  count_eq : m'.count .identifier = m.count .identifier
  find?_eq : ∀ name ∈ names, m'.find? .identifier (ρ name) = m.find? .identifier name

variable {names : List String} {ρ : String → String}

theorem alike_empty (names : List String) (ρ : String → String) : Alike names ρ empty empty :=
  ⟨rfl, fun _ _ => rfl⟩

theorem Alike.assign (h : Alike names ρ m m')
    (hinj : ∀ v ∈ names, ∀ w ∈ names, ρ v = ρ w → v = w) {name : String} (hname : name ∈ names) :
    Alike names ρ (m.assign .identifier name).1 (m'.assign .identifier (ρ name)).1 := by
  have hfind := h.find?_eq name hname
  refine ⟨?_, fun other hother => ?_⟩
  · rw [count_assign, count_assign, hfind, h.count_eq]
  · rw [find?_assign, find?_assign, assign_snd, assign_snd, hfind, h.count_eq,
      h.find?_eq other hother]
    by_cases heq : name = other
    · rw [if_pos ⟨rfl, congrArg ρ heq⟩, if_pos ⟨rfl, heq⟩]
    · rw [if_neg fun hsame => heq (hinj name hname other hother hsame.2),
        if_neg fun hsame => heq hsame.2]

theorem Alike.assignNames (h : Alike names ρ m m')
    (hinj : ∀ v ∈ names, ∀ w ∈ names, ρ v = ρ w → v = w) {more : List String}
    (hmore : ∀ name ∈ more, name ∈ names) :
    Alike names ρ (m.assignNames more) (m'.assignNames (more.map ρ)) := by
  induction more generalizing m m' with
  | nil => exact h
  | cons name rest ih =>
      exact ih (h.assign hinj (hmore name List.mem_cons_self)) fun other hother =>
        hmore other (List.mem_cons_of_mem name hother)

end Assignments

namespace Abstraction

/-! ## All words at once -/

theorem foldl_replaceValue_names {h : Hunk} {m : Assignments} {names : List String}
    (hnames : ∀ name ∈ names, (StableValue.mk .identifier name).IsPlain) (hm : m.Readable)
    (hsize : m.size + names.length < Decimal.wordLimit) :
    (names.map (StableValue.mk .identifier)).foldl replaceValue ⟨h.mapLines m.rewriteNames, m⟩ =
      ⟨h.mapLines (m.assignNames names).rewriteNames, m.assignNames names⟩ := by
  induction names generalizing m with
  | nil => rfl
  | cons name rest ih =>
      rw [List.length_cons] at hsize
      have hname := hnames name List.mem_cons_self
      obtain ⟨hm', -, hsize'⟩ := hm.assign (by omega) .identifier name
      -- One replacement after all the look-ups so far is one look-up with one name more.
      have hline : ∀ line, rewriteLine ⟨.identifier, name⟩ (m.assign .identifier name).2
          (m.rewriteNames line) = (m.assign .identifier name).1.rewriteNames line := by
        intro line
        rw [rewriteLine, hname.rewriteChars_eq_substituteRuns, Assignments.rewriteNames,
          Assignments.rewriteNames, String.toList_ofList, PlaceholderKind.scope,
          substituteRuns_eq_mapRuns,
          mapRuns_mapRuns fun w hw => Assignments.canRun_wordFor (canRun_of_mem_runsOf hw)]
        exact congrArg String.ofList
          (mapRuns_congr fun w _ => (Assignments.wordFor_assign hm hname w).symm)
      have hreplaced : replaceValue ⟨h.mapLines m.rewriteNames, m⟩ ⟨.identifier, name⟩ =
          ⟨h.mapLines (m.assign .identifier name).1.rewriteNames,
            (m.assign .identifier name).1⟩ := by
        have hlines := (h.mapLines_mapLines m.rewriteNames
          (rewriteLine ⟨.identifier, name⟩ (m.assign .identifier name).2))
        rw [funext hline] at hlines
        exact congrArg (AbstractedHunk.mk · (m.assign .identifier name).1) hlines
      rw [List.map_cons, List.foldl_cons, hreplaced,
        ih (fun other hother => hnames other (List.mem_cons_of_mem name hother)) hm' (by omega)]
      rfl

/-! ## Renamed hunks -/

/-- A name that is abstracted where it is matched: a word that is not reserved,
has nothing of the name of a function in it, and is no placeholder. -/
structure IsLabel (reserved : ReservedNames) (name : String) : Prop where
  canRun : CanRun isWordChar name.toList
  notReserved : reserved.contains name = false
  notFunction : isWithin PlaceholderKind.function.stem name = false
  notPlaceholder : Placeholder.isPlaceholder name.toList = false

/-- The match of two identifiers that both have a given name. -/
structure Identifies (m : NodeMatch) (name : String) : Prop where
  kind_eq : m.source.kind = .identifier
  source_eq : m.source.text = some name
  destination_eq : m.destination.text = some name

/-- What becomes of a word when some names are renamed. -/
def renamedWord (names : List String) (ρ : String → String) (w : List Char) : List Char :=
  if String.ofList w ∈ names then (ρ (String.ofList w)).toList else w

/-- The hunk with some names renamed wherever they are words. -/
def renameHunk (names : List String) (ρ : String → String) (h : Hunk) : Hunk :=
  h.mapLines fun line => String.ofList (mapRuns isWordChar (renamedWord names ρ) line.toList)

variable {reserved : ReservedNames} {names : List String} {ρ : String → String} {h : Hunk}

theorem IsLabel.isPlain {name : String} (hname : IsLabel reserved name) :
    (StableValue.mk .identifier name).IsPlain :=
  ⟨fun heq => (nomatch heq), hname.canRun, hname.notPlaceholder⟩

theorem stableValue?_of_identifies {m : NodeMatch} {name : String} (hm : Identifies m name)
    (hname : IsLabel reserved name) (before behind : List Char) :
    stableValue? reserved before behind m = some ⟨.identifier, name⟩ := by
  have hne : name ≠ "" := by
    rintro rfl
    exact hname.canRun.ne_nil rfl
  have hable : isAbstractable reserved name = true := by
    rw [isAbstractable, hname.notReserved, hname.notFunction, hname.notPlaceholder]
    rfl
  have htext : commonText? m = some name := by
    rw [commonText?, hm.source_eq, hm.destination_eq]
    exact if_pos ⟨rfl, hne⟩
  rw [stableValue?, hm.kind_eq]
  simp [htext, hable]

theorem stableValues_of_identifies {d : StructuralDiff}
    (hd : List.Forall₂ Identifies d.matchings names)
    (hnames : ∀ name ∈ names, IsLabel reserved name)
    (h : Hunk) : stableValues reserved h d = names.map (.mk .identifier) := by
  rw [stableValues]
  generalize d.matchings = matchings at hd
  induction hd with
  | nil => rfl
  | @cons m name ms names hm _ ih =>
      rw [List.filterMap_cons, stableValue?_of_identifies hm (hnames name List.mem_cons_self),
        ih fun other hother => hnames other (List.mem_cons_of_mem name hother)]
      rfl

/-- The hunk that comes out, if all that is stable are names. -/
theorem applyDiff_of_identifies {d : StructuralDiff}
    (hd : List.Forall₂ Identifies d.matchings names)
    (hnames : ∀ name ∈ names, IsLabel reserved name)
    (hsize : names.length < Decimal.wordLimit) :
    (applyDiff reserved d ⟨h, .empty⟩).hunk =
      h.mapLines (Assignments.empty.assignNames names).rewriteNames := by
  have hplain := fun name hname => (hnames name hname).isPlain
  have hstart : h.mapLines Assignments.empty.rewriteNames = h := by
    rw [funext Assignments.rewriteNames_empty]
    exact h.mapLines_id
  have hfold := foldl_replaceValue_names (h := h) hplain Assignments.readable_empty
    (by simpa [Assignments.size, Assignments.empty] using hsize)
  rw [hstart] at hfold
  rw [applyDiff, stableValues_of_identifies hd hnames, hfold]

/-- A renamed word has the placeholder of the old one. -/
theorem wordFor_renamedWord (hinj : ∀ v ∈ names, ∀ w ∈ names, ρ v = ρ w → v = w) {w : List Char}
    (hfresh : ∀ v ∈ names, ρ v ∉ names → (ρ v).toList ≠ w) :
    (Assignments.empty.assignNames (names.map ρ)).wordFor (renamedWord names ρ w) =
      (Assignments.empty.assignNames names).wordFor w := by
  have halike := (Assignments.alike_empty names ρ).assignNames hinj fun _ hname => hname
  rw [renamedWord, Assignments.wordFor, Assignments.wordFor]
  by_cases hw : String.ofList w ∈ names
  · rw [if_pos hw, String.ofList_toList, halike.find?_eq _ hw]
    cases hfind : (Assignments.empty.assignNames names).find? .identifier (String.ofList w) with
    | some p => rfl
    | none => exact absurd hw (Assignments.find?_assignNames_eq_none.1 hfind).2
  · have hnew : String.ofList w ∉ names.map ρ := by
      intro hmem
      obtain ⟨v, hv, heq⟩ := List.mem_map.1 hmem
      refine hfresh v hv (heq ▸ hw) ?_
      rw [heq, String.toList_ofList]
    rw [if_neg hw, Assignments.find?_assignNames_eq_none.2 ⟨rfl, hw⟩,
      Assignments.find?_assignNames_eq_none.2 ⟨rfl, hnew⟩]

variable {σ : Type} {o : Oracle σ} {d d' : StructuralDiff} {s s' t t' : σ}

/-- If the names that an oracle matches are renamed in a hunk, and the oracle
matches the new names in the same order, the same hunk comes out. No new name may
be a word of the hunk already, except where that word is renamed as well. -/
theorem abstractHunk_forgets_names (tk : Tokenizer)
    (hnames : ∀ name ∈ names, IsLabel reserved name)
    (hnew : ∀ name ∈ names, IsLabel reserved (ρ name))
    (hinj : ∀ v ∈ names, ∀ w ∈ names, ρ v = ρ w → v = w)
    (hfresh : ∀ name ∈ names, ρ name ∉ names →
      ∀ line ∈ h.lines, (ρ name).toList ∉ words line.toList)
    (hmatches : List.Forall₂ Identifies d.matchings names)
    (hmatches' : List.Forall₂ Identifies d'.matchings (names.map ρ))
    (hanswer : o.answer tk.language h s = (.ok d, s'))
    (hanswer' : o.answer tk.language (renameHunk names ρ h) t = (.ok d', t'))
    (hsize : names.length < Decimal.wordLimit) :
    ∃ a a', ((abstractHunk o reserved false tk h).run.run s).1 = .ok a ∧
      ((abstractHunk o reserved false tk (renameHunk names ρ h)).run.run t).1 = .ok a' ∧
      a'.hunk = a.hunk := by
  have hnew' : ∀ name ∈ names.map ρ, IsLabel reserved name := by
    intro name hname
    obtain ⟨v, hv, rfl⟩ := List.mem_map.1 hname
    exact hnew v hv
  refine ⟨_, _, abstractHunk_of_answer reserved false hanswer,
    abstractHunk_of_answer reserved false hanswer', ?_⟩
  show (applyDiff reserved d' ⟨renameHunk names ρ h, .empty⟩).hunk =
    (applyDiff reserved d ⟨h, .empty⟩).hunk
  rw [applyDiff_of_identifies hmatches hnames hsize,
    applyDiff_of_identifies hmatches' hnew' (by rwa [List.length_map]), renameHunk,
    Hunk.mapLines_mapLines]
  refine Hunk.mapLines_congr fun line hline => ?_
  have hcanRun : ∀ w ∈ words line.toList, CanRun isWordChar (renamedWord names ρ w) := by
    intro w hw
    rw [renamedWord]
    split
    · next hmem => exact (hnew _ hmem).canRun
    · exact canRun_of_mem_runsOf hw
  rw [Assignments.rewriteNames, Assignments.rewriteNames, String.toList_ofList,
    mapRuns_mapRuns hcanRun]
  refine congrArg String.ofList (mapRuns_congr fun w hw => wordFor_renamedWord hinj ?_)
  rintro v hv hv' rfl
  exact hfresh v hv hv' line hline hw

theorem abstractHunk_forgets_names_of_shift :
    let ρ (name : String) : String :=
      if name = "x" then "total" else if name = "y" then "x" else "sum"
    let names : List String := ["y", "total", "y", "x"]
    let node (name : String) : Node := ⟨.identifier, some name, ⟨0, 1⟩⟩
    let diff (names : List String) : StructuralDiff :=
      ⟨names.map fun name => ⟨node name, node name⟩, []⟩
    let h : Hunk := ⟨["y = f(total, x)"], ["y = f(total, 1.5 + x)"]⟩
    let o := Oracle.ofFunction fun _ h' => .ok (diff (if h' = h then names else names.map ρ))
    let reserved : ReservedNames := ⟨["f"]⟩
    let tk := Tokenizer.ofParser .python Language.python.parse
    renameHunk names ρ h = ⟨["x = f(sum, total)"], ["x = f(sum, 1.5 + total)"]⟩ ∧
      (∀ name ∈ names, IsLabel reserved name ∧ IsLabel reserved (ρ name)) ∧
      (∀ name ∈ names, ρ name ∉ names →
        ∀ line ∈ h.lines, (ρ name).toList ∉ words line.toList) ∧
      ∃ a a', ((abstractHunk o reserved false tk h).run.run 0).1 = .ok a ∧
        ((abstractHunk o reserved false tk (renameHunk names ρ h)).run.run 0).1 = .ok a' ∧
        a'.hunk = a.hunk := by
  intro ρ names node diff h o reserved tk
  have hlabel : ∀ name ∈ ["x", "y", "total", "sum"], IsLabel reserved name := by
    have hall : ∀ name ∈ ["x", "y", "total", "sum"],
        name.toList ≠ [] ∧ name.toList.all isWordChar = true ∧
        reserved.contains name = false ∧ isWithin PlaceholderKind.function.stem name = false ∧
        Placeholder.isPlaceholder name.toList = false := by
      decide
    intro name hname
    obtain ⟨hne, hword, hreserved, hfunction, hplaceholder⟩ := hall name hname
    exact ⟨⟨hne, List.all_eq_true.1 hword⟩, hreserved, hfunction, hplaceholder⟩
  have hknown : ∀ name ∈ names, name ∈ ["x", "y", "total", "sum"] ∧
      ρ name ∈ ["x", "y", "total", "sum"] := by
    decide
  have hold := fun name hname => hlabel name (hknown name hname).1
  have hnew := fun name hname => hlabel (ρ name) (hknown name hname).2
  have hfresh : ∀ name ∈ names, ρ name ∉ names →
      ∀ line ∈ h.lines, (ρ name).toList ∉ words line.toList := by
    decide
  have hmatches : ∀ names, List.Forall₂ Identifies (diff names).matchings names := by
    intro names
    induction names with
    | nil => exact .nil
    | cons name rest ih => exact .cons ⟨rfl, rfl, rfl⟩ ih
  have hrenamed : renameHunk names ρ h = ⟨["x = f(sum, total)"], ["x = f(sum, 1.5 + total)"]⟩ := by
    decide
  have hanswer : o.answer .python (renameHunk names ρ h) 0 = (.ok (diff (names.map ρ)), 1) := by
    rw [hrenamed]
    rfl
  exact ⟨hrenamed, fun name hname => ⟨hold name hname, hnew name hname⟩, hfresh,
    abstractHunk_forgets_names tk hold hnew (by decide) hfresh (hmatches names)
      (hmatches (names.map ρ)) rfl hanswer (by decide)⟩

end Abstraction

end EditMining
