import EditMining.Proofs.Runs
import Mathlib.Data.List.Basic

/-!
# Exchanging runs for runs

Replacing one run for another is a case of changing every run by a function. If
the function makes runs out of runs, what stands between them stays where it is:
the runs of the new text are the images of the old ones (`runsOf_mapRuns`), and
two changes one after the other are one change by the composed function
(`mapRuns_mapRuns`). So what many replacements do to a text can be said of each
of its runs alone.

Two classes are in use, and the runs of the larger one are cut into runs of the
smaller one. A replacement in one class makes no new runs in the other, except
for what it puts in (`mem_runsOf_substituteRuns_of_imp`,
`mem_runsOf_substituteRuns_smaller`). And it can be undone if what it puts in is
not there before (`substituteRuns_substituteRuns`).
-/

namespace EditMining.Text

variable {inClass : Char → Bool} {f g : List Char → List Char} {w old new text : List Char}

/-- Every run inside the class exchanged for what a function makes of it. -/
def mapRuns (inClass : Char → Bool) (f : List Char → List Char) (text : List Char) : List Char :=
  (pieces inClass text).flatMap fun piece => if piece.inside then f piece.chars else piece.chars

/-- A text that can be a run. -/
structure CanRun (inClass : Char → Bool) (w : List Char) : Prop where
  ne_nil : w ≠ []
  inside : ∀ c ∈ w, inClass c = true

theorem substituteRuns_eq_mapRuns (inClass : Char → Bool) (old new : List Char) :
    substituteRuns inClass old new = mapRuns inClass fun w => if w = old then new else w := by
  funext text
  refine List.flatMap_congr fun piece _ => ?_
  cases piece.inside <;> simp

theorem mapRuns_cons {c : Char} (hc : inClass c = false) (f : List Char → List Char)
    (rest : List Char) : mapRuns inClass f (c :: rest) = c :: mapRuns inClass f rest := by
  rw [mapRuns, flatMap_pieces_cons (fun _ => rfl) hc]
  rfl

theorem mapRuns_run_append {rest : List Char} (hw : CanRun inClass w)
    (hrest : StartsOutside inClass rest) (f : List Char → List Char) :
    mapRuns inClass f (w ++ rest) = f w ++ mapRuns inClass f rest := by
  rw [mapRuns, pieces_run_append hw.ne_nil hw.inside hrest, List.flatMap_cons]
  rfl

theorem startsOutside_mapRuns (h : StartsOutside inClass text) (f : List Char → List Char) :
    StartsOutside inClass (mapRuns inClass f text) := by
  cases text with
  | nil => exact startsOutside_nil
  | cons c rest =>
      have hc := startsOutside_cons.1 h
      rw [mapRuns_cons hc]
      exact startsOutside_cons.2 hc

theorem startsOutside_substituteRuns (h : StartsOutside inClass text) :
    StartsOutside inClass (substituteRuns inClass old new text) := by
  rw [substituteRuns_eq_mapRuns]
  exact startsOutside_mapRuns h _

theorem canRun_of_mem_runsOf (h : w ∈ runsOf inClass text) : CanRun inClass w := by
  induction text using run_induction inClass with
  | nil => nomatch h
  | outside c rest hc ih =>
      rw [runsOf_cons hc] at h
      exact ih h
  | run v rest hne hv hrest ih =>
      rw [runsOf_run_append hne hv hrest, List.mem_cons] at h
      rcases h with rfl | h
      · exact ⟨hne, hv⟩
      · exact ih h

theorem CanRun.runsOf_eq (hw : CanRun inClass w) : runsOf inClass w = [w] := by
  have hrun := runsOf_run_append hw.ne_nil hw.inside startsOutside_nil
  rwa [List.append_nil] at hrun

/-! ## Runs one by one -/

theorem runsOf_mapRuns (hf : ∀ w ∈ runsOf inClass text, CanRun inClass (f w)) :
    runsOf inClass (mapRuns inClass f text) = (runsOf inClass text).map f := by
  induction text using run_induction inClass with
  | nil => rfl
  | outside c rest hc ih =>
      rw [runsOf_cons hc] at hf
      rw [mapRuns_cons hc, runsOf_cons hc, runsOf_cons hc, ih hf]
  | run w rest hne hw hrest ih =>
      rw [runsOf_run_append hne hw hrest] at hf
      have hfw := hf w List.mem_cons_self
      rw [mapRuns_run_append ⟨hne, hw⟩ hrest,
        runsOf_run_append hfw.ne_nil hfw.inside (startsOutside_mapRuns hrest f),
        runsOf_run_append hne hw hrest, ih fun v hv => hf v (List.mem_cons_of_mem w hv)]
      rfl

theorem mapRuns_mapRuns (hf : ∀ w ∈ runsOf inClass text, CanRun inClass (f w)) :
    mapRuns inClass g (mapRuns inClass f text) = mapRuns inClass (fun w => g (f w)) text := by
  induction text using run_induction inClass with
  | nil => rfl
  | outside c rest hc ih =>
      rw [runsOf_cons hc] at hf
      rw [mapRuns_cons hc, mapRuns_cons hc, mapRuns_cons hc, ih hf]
  | run w rest hne hw hrest ih =>
      rw [runsOf_run_append hne hw hrest] at hf
      rw [mapRuns_run_append ⟨hne, hw⟩ hrest,
        mapRuns_run_append (hf w List.mem_cons_self) (startsOutside_mapRuns hrest f),
        mapRuns_run_append ⟨hne, hw⟩ hrest, ih fun v hv => hf v (List.mem_cons_of_mem w hv)]

theorem mapRuns_congr (h : ∀ w ∈ runsOf inClass text, f w = g w) :
    mapRuns inClass f text = mapRuns inClass g text := by
  induction text using run_induction inClass with
  | nil => rfl
  | outside c rest hc ih =>
      rw [runsOf_cons hc] at h
      rw [mapRuns_cons hc, mapRuns_cons hc, ih h]
  | run w rest hne hw hrest ih =>
      rw [runsOf_run_append hne hw hrest] at h
      rw [mapRuns_run_append ⟨hne, hw⟩ hrest, mapRuns_run_append ⟨hne, hw⟩ hrest,
        h w List.mem_cons_self, ih fun v hv => h v (List.mem_cons_of_mem w hv)]

theorem mapRuns_eq_self (h : ∀ w ∈ runsOf inClass text, f w = w) :
    mapRuns inClass f text = text := by
  rw [mapRuns_congr h]
  refine Eq.trans (List.flatMap_congr fun piece _ => ?_) (flatten_pieces inClass text)
  split <;> rfl

/-! ## One run for another -/

section Substitution

variable (hnew : CanRun inClass new)

include hnew

theorem mem_runsOf_substituteRuns {u : List Char}
    (h : u ∈ runsOf inClass (substituteRuns inClass old new text)) :
    u = new ∨ (u ∈ runsOf inClass text ∧ u ≠ old) := by
  rw [substituteRuns_eq_mapRuns, runsOf_mapRuns, List.mem_map] at h
  · obtain ⟨w, hw, rfl⟩ := h
    split
    · exact .inl rfl
    · next hne => exact .inr ⟨hw, hne⟩
  · intro w hw
    split
    · exact hnew
    · exact canRun_of_mem_runsOf hw

end Substitution

theorem substituteRuns_nil (inClass : Char → Bool) (old new : List Char) :
    substituteRuns inClass old new [] = [] :=
  rfl

theorem mem_substituteRuns {c : Char} (h : c ∈ substituteRuns inClass old new text) :
    c ∈ text ∨ c ∈ new := by
  obtain ⟨piece, hpiece, hc⟩ := List.mem_flatMap.1 h
  split at hc
  · exact .inr hc
  · refine .inl ?_
    rw [← flatten_pieces inClass text]
    exact List.mem_flatMap.2 ⟨piece, hpiece, hc⟩

theorem mem_substituteRuns_of_outside {c : Char} (hc : inClass c = false) (h : c ∈ text) :
    c ∈ substituteRuns inClass old new text := by
  induction text using run_induction inClass with
  | nil => nomatch h
  | outside d rest hd ih =>
      rw [substituteRuns_cons hd]
      rcases List.mem_cons.1 h with rfl | h
      · exact List.mem_cons_self
      · exact List.mem_cons_of_mem d (ih h)
  | run w rest hne hw hrest ih =>
      rw [substituteRuns_run_append hne hw hrest]
      rcases List.mem_append.1 h with h | h
      · rw [hw c h] at hc
        nomatch hc
      · exact List.mem_append_right _ (ih h)

/-! ## Two classes -/

section Classes

variable {smaller : Char → Bool} (himp : ∀ c, smaller c = true → inClass c = true)

include himp

theorem outside_of_imp {c : Char} (hc : inClass c = false) : smaller c = false := by
  refine Bool.eq_false_iff.2 fun hsmaller => ?_
  rw [himp c hsmaller] at hc
  nomatch hc

theorem StartsOutside.of_imp (h : StartsOutside inClass text) : StartsOutside smaller text :=
  fun c hc => outside_of_imp himp (h c hc)

theorem CanRun.of_imp (hw : CanRun smaller w) : CanRun inClass w :=
  ⟨hw.ne_nil, fun c hc => himp c (hw.inside c hc)⟩

/-- What is replaced in the larger class brings in no run of the smaller one but
what is put in. -/
theorem mem_runsOf_substituteRuns_smaller {u : List Char} (hnew : CanRun smaller new)
    (h : u ∈ runsOf smaller (substituteRuns inClass old new text)) :
    u = new ∨ u ∈ runsOf smaller text := by
  induction text using run_induction inClass with
  | nil => nomatch h
  | outside c rest hc ih =>
      have hc' := outside_of_imp himp hc
      rw [substituteRuns_cons hc, runsOf_cons hc'] at h
      rw [runsOf_cons hc']
      exact ih h
  | run v rest hne hv hrest ih =>
      have hapart : StartsOutside smaller (substituteRuns inClass old new rest) :=
        (startsOutside_substituteRuns hrest).of_imp himp
      rw [substituteRuns_run_append hne hv hrest, runsOf_append (.inr hapart),
        List.mem_append] at h
      rw [runsOf_append (.inr (hrest.of_imp himp)), List.mem_append]
      rcases h with h | h
      · split at h
        · rw [hnew.runsOf_eq, List.mem_singleton] at h
          exact .inl h
        · exact .inr (.inl h)
      · exact (ih h).imp id .inr

/-- A replacement in the larger class can be undone in the smaller one, if what is put
in is no run there before. -/
theorem substituteRuns_substituteRuns (hnew : CanRun smaller new)
    (hfresh : new ∉ runsOf smaller text) :
    substituteRuns smaller new old (substituteRuns inClass old new text) = text := by
  induction text using run_induction inClass with
  | nil => rfl
  | outside c rest hc ih =>
      have hc' := outside_of_imp himp hc
      rw [runsOf_cons hc'] at hfresh
      rw [substituteRuns_cons hc, substituteRuns_cons hc', ih hfresh]
  | run v rest hne hv hrest ih =>
      have hbehind : StartsOutside smaller (substituteRuns inClass old new rest) :=
        (startsOutside_substituteRuns hrest).of_imp himp
      rw [runsOf_append (.inr (hrest.of_imp himp)), List.mem_append, not_or] at hfresh
      rw [substituteRuns_run_append hne hv hrest, substituteRuns_append (.inr hbehind),
        ih hfresh.2]
      by_cases hold : v = old
      · have hback := substituteRuns_run_append hnew.ne_nil hnew.inside startsOutside_nil new old
        rw [List.append_nil, if_pos rfl, substituteRuns_nil, List.append_nil] at hback
        rw [if_pos hold, hback, hold]
      · rw [if_neg hold, substituteRuns_of_notMem hfresh.1]

/-- A run of the larger class that is made of the smaller one stays what it is
when the smaller one is replaced in, unless it is put in. -/
theorem mem_runsOf_substituteRuns_of_imp {u : List Char} (hu : ∀ c ∈ u, smaller c = true)
    (hnew : CanRun smaller new)
    (h : u ∈ runsOf inClass (substituteRuns smaller old new text)) :
    u = new ∨ u ∈ runsOf inClass text := by
  induction text using run_induction inClass with
  | nil => nomatch h
  | outside c rest hc ih =>
      rw [substituteRuns_cons (outside_of_imp himp hc), runsOf_cons hc] at h
      rw [runsOf_cons hc]
      exact ih h
  | run v rest hne hv hrest ih =>
      have hbehind : StartsOutside inClass (substituteRuns smaller old new rest) := by
        cases rest with
        | nil => exact startsOutside_nil
        | cons c rest =>
            have hc := startsOutside_cons.1 hrest
            rw [substituteRuns_cons (outside_of_imp himp hc)]
            exact startsOutside_cons.2 hc
      rw [substituteRuns_append (.inr (hrest.of_imp himp))] at h
      rw [runsOf_run_append hne hv hrest, List.mem_cons]
      by_cases hsmall : ∀ c ∈ v, smaller c = true
      · -- The run is one of the smaller class too, and replaced as a whole if at all.
        have hone : substituteRuns smaller old new (v ++ []) =
            (if v = old then new else v) ++ substituteRuns smaller old new [] :=
          substituteRuns_run_append hne hsmall startsOutside_nil old new
        rw [List.append_nil, substituteRuns_nil, List.append_nil] at hone
        have hrun : CanRun inClass (if v = old then new else v) := by
          split
          · exact hnew.of_imp himp
          · exact ⟨hne, hv⟩
        rw [hone, runsOf_run_append hrun.ne_nil hrun.inside hbehind, List.mem_cons] at h
        rcases h with rfl | h
        · split
          · exact .inl rfl
          · exact .inr (.inl rfl)
        · exact (ih h).imp id .inr
      · -- What ends the runs of the smaller class inside the run stays in it.
        simp only [not_forall, Bool.not_eq_true] at hsmall
        obtain ⟨c, hc, houtside⟩ := hsmall
        have hstays : c ∈ substituteRuns smaller old new v :=
          mem_substituteRuns_of_outside houtside hc
        have hinside : ∀ d ∈ substituteRuns smaller old new v, inClass d = true := by
          intro d hd
          rcases mem_substituteRuns hd with hd | hd
          · exact hv d hd
          · exact himp d (hnew.inside d hd)
        rw [runsOf_run_append (List.ne_nil_of_mem hstays) hinside hbehind, List.mem_cons] at h
        rcases h with rfl | h
        · rw [hu c hstays] at houtside
          nomatch houtside
        · exact (ih h).imp id .inr

end Classes

end EditMining.Text
