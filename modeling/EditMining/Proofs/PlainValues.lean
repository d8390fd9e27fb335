import EditMining.Abstraction
import EditMining.Proofs.Placeholders
import EditMining.Proofs.RunExchange

/-!
# Values that are words

A value is *plain* if it is a word, as names and whole numbers are, and no
placeholder. Such a value is replaced where it is a whole run: numbers in the
class of number characters, in which a point continues a run, all others in that
of word characters (`rewriteChars_eq_substituteRuns`).

The functions that a hunk defines are renamed before the oracle is asked. That
is a replacement of plain values as well, so an abstraction is one chain of
replacements that begins with the hunk as it came in (`prepare_eq_foldl`).
-/

namespace EditMining

open Text

theorem isNumberChar_of_isWordChar (c : Char) (h : isWordChar c = true) :
    isNumberChar c = true := by
  rw [isNumberChar, h, Bool.true_or]

/-- The characters that continue what placeholders of a kind stand for. -/
def PlaceholderKind.scope : PlaceholderKind → Char → Bool
  | .number => isNumberChar
  | .identifier | .string | .function => isWordChar

theorem PlaceholderKind.scope_of_isWordChar (kind : PlaceholderKind) (c : Char)
    (h : isWordChar c = true) : kind.scope c = true := by
  cases kind with
  | number => exact isNumberChar_of_isWordChar c h
  | identifier | string | function => exact h

namespace Placeholder

variable {p : Placeholder}

theorem canRun_renderChars (p : Placeholder) : CanRun isWordChar p.renderChars := by
  refine ⟨fun hnil => ?_, fun c hc => ?_⟩
  · obtain ⟨more, hmore⟩ := p.exists_renderChars_eq
    rw [hmore] at hnil
    nomatch hnil
  · rw [isWordChar, Bool.or_eq_true, beq_iff_eq]
    exact (mem_renderChars hc).imp isAlphanumeric_of_isAlphanum id

/-- A placeholder begins with a letter. -/
theorem exists_initial_of_isPlaceholder {w : List Char} (h : isPlaceholder w = true) :
    ∃ (kind : PlaceholderKind) (more : List Char), w = kind.initial :: more := by
  obtain ⟨p, hp⟩ := Option.isSome_iff_exists.1 h
  obtain ⟨kind, -, hkind⟩ := List.exists_of_findSome?_eq_some hp
  obtain ⟨more, hstem⟩ := kind.exists_stem_eq
  cases w with
  | nil =>
      rw [parseAs?, hstem] at hkind
      cases hkind
  | cons c w =>
      refine ⟨kind, w, ?_⟩
      rw [parseAs?, hstem, List.isPrefixOf?] at hkind
      cases hc : kind.initial == c with
      | true => rw [beq_iff_eq.1 hc]
      | false =>
          rw [hc] at hkind
          cases hkind

end Placeholder

/-- A word that is no placeholder, and no string. -/
structure StableValue.IsPlain (v : StableValue) : Prop where
  notString : v.kind ≠ .string
  canRun : CanRun isWordChar v.value.toList
  notPlaceholder : Placeholder.isPlaceholder v.value.toList = false

namespace StableValue.IsPlain

variable {v : StableValue} {p : Placeholder}

theorem ne_renderChars (hv : v.IsPlain) (hp : p.index < Decimal.wordLimit) :
    v.value.toList ≠ p.renderChars := by
  intro heq
  have hplaceholder := Placeholder.isPlaceholder_renderChars hp
  rw [← heq, hv.notPlaceholder] at hplaceholder
  nomatch hplaceholder

theorem rewriteChars_eq_substituteRuns (hv : v.IsPlain) (p : Placeholder) (line : List Char) :
    Abstraction.rewriteChars v p line =
      substituteRuns v.kind.scope v.value.toList p.renderChars line := by
  obtain ⟨kind, value⟩ := v
  have hne := hv.canRun.ne_nil
  have hword := hv.canRun.inside
  cases kind with
  | string => exact absurd rfl hv.notString
  | number =>
      exact replaceBounded_eq_substituteRuns hne
        (fun c hc => isNumberChar_of_isWordChar c (hword c hc)) _ _
  | identifier | function => exact replaceBounded_eq_substituteRuns hne hword _ _

end StableValue.IsPlain

/-! ## Hunks -/

namespace Hunk

variable (h : Hunk)

theorem mapLines_mapLines (f g : String → String) :
    (h.mapLines f).mapLines g = h.mapLines fun line => g (f line) := by
  simp only [mapLines, List.map_map]
  rfl

theorem mapLines_id : h.mapLines (fun line => line) = h := by
  simp only [mapLines, List.map_id']

theorem lines_mapLines (f : String → String) : (h.mapLines f).lines = h.lines.map f :=
  List.map_append.symm

variable {h}

theorem mapLines_congr {f g : String → String} (heq : ∀ line ∈ h.lines, f line = g line) :
    h.mapLines f = h.mapLines g :=
  congrArg₂ Hunk.mk (List.map_congr_left fun line hline => heq line (List.mem_append_left _ hline))
    (List.map_congr_left fun line hline => heq line (List.mem_append_right _ hline))

end Hunk

/-! ## One chain of replacements -/

theorem assignFunctions_eq_foldl (names : List String) (h : Hunk) (m : Assignments) :
    (names.map (StableValue.mk .function)).foldl Abstraction.replaceValue ⟨h, m⟩ =
      ⟨h.mapLines fun line => (assignFunctions m names).2.foldl renameIn line,
        (assignFunctions m names).1⟩ := by
  induction names generalizing h m with
  | nil =>
      rw [List.map_nil, List.foldl_nil, assignFunctions]
      simp only [List.foldl_nil, h.mapLines_id]
  | cons name rest ih =>
      rw [List.map_cons, List.foldl_cons, Abstraction.replaceValue, ih, Hunk.mapLines_mapLines,
        assignFunctions]
      rfl

theorem exists_of_mem_definedNames {tk : Tokenizer} {h : Hunk} {name : String}
    (hname : name ∈ definedNames tk h) :
    ∃ keyword, ∃ line ∈ h.lines, definedName? tk keyword line = some name := by
  rw [definedNames] at hname
  split at hname
  · nomatch hname
  · next keyword _ =>
      rw [List.mem_eraseDups, List.mem_filterMap] at hname
      exact ⟨keyword, hname⟩

theorem mem_definedNames {tk : Tokenizer} {h : Hunk} {name : String}
    (hname : name ∈ definedNames tk h) :
    isFunctionName name = true := by
  obtain ⟨keyword, line, -, hline⟩ := exists_of_mem_definedNames hname
  rw [definedName?] at hline
  split at hline
  · split at hline
    · exact (Option.filter_eq_some_iff.1 hline).2
    · nomatch hline
  · nomatch hline

theorem isPlain_of_isFunctionName {name : String} (h : isFunctionName name = true) :
    (StableValue.mk .function name).IsPlain := by
  rw [isFunctionName, Bool.and_eq_true, Bool.not_eq_true'] at h
  refine ⟨fun heq => (nomatch heq), ?_, h.2⟩
  cases hchars : name.toList with
  | nil =>
      rw [hchars] at h
      nomatch h.1
  | cons c rest =>
      rw [hchars, Bool.and_eq_true, List.all_eq_true] at h
      exact ⟨List.cons_ne_nil c rest, h.1.2⟩

theorem length_eraseDups_le {α : Type} [BEq α] (xs : List α) :
    xs.eraseDups.length ≤ xs.length := by
  match xs with
  | [] => exact Nat.le_refl 0
  | x :: rest =>
      have hfilter := List.length_filter_le (fun y => !y == x) rest
      have hrest := length_eraseDups_le (rest.filter fun y => !y == x)
      rw [List.eraseDups_cons, List.length_cons, List.length_cons]
      omega
termination_by xs.length
decreasing_by
  exact Nat.lt_succ_of_le hfilter

theorem length_definedNames_le (tk : Tokenizer) (h : Hunk) :
    (definedNames tk h).length ≤ h.lines.length := by
  rw [definedNames]
  split
  · exact Nat.zero_le _
  · exact Nat.le_trans (length_eraseDups_le _) (List.length_filterMap_le _ _)

namespace Abstraction

/-- The functions that are renamed before the oracle is asked. -/
def preparedNames (normalizes : Bool) (tk : Tokenizer) (h : Hunk) : List StableValue :=
  if normalizes then (definedNames tk h).map (.mk .function) else []

theorem prepare_eq_foldl (normalizes : Bool) (tk : Tokenizer) (h : Hunk) :
    prepare normalizes tk h = (preparedNames normalizes tk h).foldl replaceValue ⟨h, .empty⟩ := by
  rw [prepare, preparedNames]
  split
  · exact (assignFunctions_eq_foldl (definedNames tk h) h .empty).symm
  · rfl

theorem isPlain_of_mem_preparedNames {normalizes : Bool} {tk : Tokenizer} {h : Hunk}
    {v : StableValue} (hv : v ∈ preparedNames normalizes tk h) : v.IsPlain := by
  rw [preparedNames] at hv
  split at hv
  · obtain ⟨name, hname, rfl⟩ := List.mem_map.1 hv
    exact isPlain_of_isFunctionName (mem_definedNames hname)
  · nomatch hv

theorem length_preparedNames_le (normalizes : Bool) (tk : Tokenizer) (h : Hunk) :
    (preparedNames normalizes tk h).length ≤ h.lines.length := by
  rw [preparedNames]
  split
  · rw [List.length_map]
    exact length_definedNames_le tk h
  · exact Nat.zero_le _

variable {σ : Type} {o : Oracle σ} {tk : Tokenizer} {h : Hunk} {d : StructuralDiff} {s s' : σ}

theorem abstractHunk_of_answer (reserved : ReservedNames) (normalizes : Bool)
    (hanswer : o.answer tk.language (prepare normalizes tk h).hunk s = (.ok d, s')) :
    ((abstractHunk o reserved normalizes tk h).run.run s).1 =
      .ok ((stableValues reserved (prepare normalizes tk h).hunk d).foldl replaceValue
        (prepare normalizes tk h)) := by
  have hrun : ((abstractHunk o reserved normalizes tk h).run.run s).1 =
      ((o.answer tk.language (prepare normalizes tk h).hunk s).1.map fun d =>
        applyDiff reserved d (prepare normalizes tk h)) := by
    show ((ExceptT.bindCont (fun d => pure (applyDiff reserved d (prepare normalizes tk h)))
      (o.answer tk.language (prepare normalizes tk h).hunk s).1 :
        StateM σ (Result AbstractedHunk)).run _).1 = _
    cases (o.answer tk.language (prepare normalizes tk h).hunk s).1 with
    | ok d => rfl
    | error e => rfl
  rw [hrun, hanswer]
  rfl

end Abstraction

end EditMining
