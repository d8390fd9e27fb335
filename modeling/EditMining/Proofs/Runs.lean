import EditMining.Text.Pieces
import EditMining.Text.Search

/-!
# Replacing what stands free is replacing whole runs

A text is followed run by run: it is empty, or it begins with a character
outside the class, or it begins with a run, behind which no character of the
class stands (`run_induction`). Along these three cases the runs of a text and
the exchange of one run for another are computed (`runsOf_run_append`,
`substituteRuns_run_append`), and both split where no run goes on
(`runsOf_append`, `substituteRuns_append`).

The program knows no runs. It looks for the text to be replaced at every
position and asks whether the characters around it continue it. When all the
text is inside the class this finds the same places: at the front of a run the
whole run has to be the text, and nowhere else in a run can it stand free
(`replaceBounded_eq_substituteRuns`).
-/

namespace EditMining.Text

variable {inClass : Char → Bool}

/-! ## A text run by run -/

/-- No character of the class stands in front. -/
def StartsOutside (inClass : Char → Bool) (text : List Char) : Prop :=
  ∀ c ∈ text.head?, inClass c = false

theorem startsOutside_nil : StartsOutside inClass [] :=
  fun _ h => nomatch h

theorem startsOutside_cons {c : Char} {rest : List Char} :
    StartsOutside inClass (c :: rest) ↔ inClass c = false := by
  simp [StartsOutside]

theorem run_induction (inClass : Char → Bool) {motive : List Char → Prop} (nil : motive [])
    (outside : ∀ c rest, inClass c = false → motive rest → motive (c :: rest))
    (run : ∀ w rest, w ≠ [] → (∀ c ∈ w, inClass c = true) → StartsOutside inClass rest →
      motive rest → motive (w ++ rest)) (text : List Char) : motive text := by
  match text with
  | [] => exact nil
  | c :: rest =>
      cases hc : inClass c with
      | false => exact outside c rest hc (run_induction inClass nil outside run rest)
      | true =>
          have hlt : (rest.dropWhile inClass).length < (c :: rest).length :=
            Nat.lt_succ_of_le (List.dropWhile_suffix inClass).length_le
          have hrun := run (c :: rest.takeWhile inClass) (rest.dropWhile inClass) (by simp)
            (by
              intro d hd
              rcases List.mem_cons.1 hd with rfl | hd
              · exact hc
              · exact List.all_eq_true.1 List.all_takeWhile d hd)
            (fun d hd => Bool.eq_false_iff.2 fun h => by
              have hnot := List.head?_dropWhile_not inClass rest
              rw [Option.mem_def.1 hd] at hnot
              simp [h] at hnot)
            (run_induction inClass nil outside run _)
          rwa [List.cons_append, List.takeWhile_append_dropWhile] at hrun
termination_by text.length
decreasing_by
  · exact Nat.lt_succ_self rest.length
  · exact hlt

/-! ## Pieces -/

theorem inside_of_mem_head?_pieces {c : Char} {rest : List Char} :
    ∀ piece ∈ (pieces inClass (c :: rest)).head?, piece.inside = inClass c := by
  intro piece hpiece
  rw [pieces] at hpiece
  split at hpiece
  · cases hpiece
    rfl
  · split at hpiece
    · next heq =>
        cases hpiece
        exact beq_iff_eq.1 heq
    · cases hpiece
      rfl

theorem pieces_append_of_uniform {side : Bool} {w rest : List Char} (hne : w ≠ [])
    (hw : ∀ c ∈ w, inClass c = side) (hrest : ∀ c ∈ rest.head?, inClass c ≠ side) :
    pieces inClass (w ++ rest) = ⟨side, w⟩ :: pieces inClass rest := by
  induction w with
  | nil => exact absurd rfl hne
  | cons c w ih =>
      have hc := hw c List.mem_cons_self
      cases w with
      | nil =>
          rw [List.singleton_append, pieces]
          split
          · next hnil => rw [hnil, hc]
          · next next more hpieces =>
              cases rest with
              | nil => cases hpieces
              | cons d rest =>
                  have hinside :=
                    @inside_of_mem_head?_pieces inClass d rest next (by rw [hpieces]; rfl)
                  have hside : (next.inside == side) = false :=
                    beq_eq_false_iff_ne.2 (hinside ▸ hrest d rfl)
                  rw [hc, hside, hpieces]
                  rfl
      | cons d w =>
          rw [List.cons_append, pieces,
            ih (List.cons_ne_nil d w) fun e he => hw e (List.mem_cons_of_mem c he)]
          simp [hc]

theorem pieces_run_append {w rest : List Char} (hne : w ≠ []) (hw : ∀ c ∈ w, inClass c = true)
    (hrest : StartsOutside inClass rest) :
    pieces inClass (w ++ rest) = ⟨true, w⟩ :: pieces inClass rest := by
  refine pieces_append_of_uniform hne hw fun c hc => ?_
  rw [hrest c hc]
  exact Bool.false_ne_true

/-- What is made of the pieces one by one, if it is made of the characters one by
one outside the class, does not see how these fall into pieces. -/
theorem flatMap_pieces_cons {β : Type} {f : Piece → List β} {c : Char}
    (hf : ∀ chars, f ⟨false, c :: chars⟩ = f ⟨false, [c]⟩ ++ f ⟨false, chars⟩)
    (hc : inClass c = false) (rest : List Char) :
    (pieces inClass (c :: rest)).flatMap f =
      f ⟨false, [c]⟩ ++ (pieces inClass rest).flatMap f := by
  rw [pieces, hc]
  split
  · next hnil => rw [hnil, List.flatMap_singleton, List.flatMap_nil, List.append_nil]
  · next next more hpieces =>
      rw [hpieces]
      split
      · next heq =>
          obtain ⟨inside, chars⟩ := next
          cases inside with
          | true => cases heq
          | false => rw [List.flatMap_cons, hf, List.append_assoc, List.flatMap_cons]
      · rw [List.flatMap_cons]

/-! ## Runs -/

theorem runsOf_eq_flatMap (text : List Char) :
    runsOf inClass text =
      (pieces inClass text).flatMap fun piece => if piece.inside then [piece.chars] else [] := by
  rw [runsOf]
  induction pieces inClass text with
  | nil => rfl
  | cons piece more ih =>
      rw [List.filter_cons, List.flatMap_cons, ← ih]
      split <;> rfl

theorem runsOf_cons {c : Char} (hc : inClass c = false) (rest : List Char) :
    runsOf inClass (c :: rest) = runsOf inClass rest := by
  rw [runsOf_eq_flatMap, flatMap_pieces_cons (fun _ => rfl) hc, runsOf_eq_flatMap]
  rfl

theorem runsOf_outside_append {w : List Char} (hw : ∀ c ∈ w, inClass c = false)
    (rest : List Char) : runsOf inClass (w ++ rest) = runsOf inClass rest := by
  induction w with
  | nil => rfl
  | cons c w ih =>
      rw [List.cons_append, runsOf_cons (hw c List.mem_cons_self),
        ih fun d hd => hw d (List.mem_cons_of_mem c hd)]

theorem runsOf_run_append {w rest : List Char} (hne : w ≠ []) (hw : ∀ c ∈ w, inClass c = true)
    (hrest : StartsOutside inClass rest) :
    runsOf inClass (w ++ rest) = w :: runsOf inClass rest := by
  rw [runsOf, pieces_run_append hne hw hrest]
  rfl

/-- No run goes on from the end of the first text into the second. -/
def Apart (inClass : Char → Bool) (xs ys : List Char) : Prop :=
  (∀ c ∈ xs.getLast?, inClass c = false) ∨ StartsOutside inClass ys

theorem Apart.of_append {xs ys zs : List Char} (h : Apart inClass (xs ++ ys) zs) :
    Apart inClass ys zs := by
  refine h.imp (fun hlast c hc => hlast c ?_) id
  rw [List.getLast?_append, Option.mem_def.1 hc]
  rfl

theorem Apart.of_cons {c : Char} {ys zs : List Char} (h : Apart inClass (c :: ys) zs) :
    Apart inClass ys zs := by
  rw [← List.singleton_append] at h
  exact h.of_append

theorem startsOutside_append {xs ys : List Char} (hxs : StartsOutside inClass xs)
    (hys : xs = [] → StartsOutside inClass ys) : StartsOutside inClass (xs ++ ys) := by
  cases xs with
  | nil => exact hys rfl
  | cons x xs => exact hxs

/-- Behind a run that is the end of a text, only what is apart from the text can
follow. -/
theorem Apart.startsOutside {w ys : List Char} (h : Apart inClass w ys) (hne : w ≠ [])
    (hw : ∀ c ∈ w, inClass c = true) : StartsOutside inClass ys := by
  rcases h with h | h
  · have hlast := h (w.getLast hne) (List.getLast?_eq_some_getLast hne)
    rw [hw _ (List.getLast_mem hne)] at hlast
    nomatch hlast
  · exact h

theorem runsOf_append {xs ys : List Char} (h : Apart inClass xs ys) :
    runsOf inClass (xs ++ ys) = runsOf inClass xs ++ runsOf inClass ys := by
  induction xs using run_induction inClass with
  | nil => rfl
  | outside c rest hc ih =>
      rw [List.cons_append, runsOf_cons hc, runsOf_cons hc, ih h.of_cons]
  | run w rest hne hw hrest ih =>
      have hbehind : StartsOutside inClass (rest ++ ys) := startsOutside_append hrest fun hnil =>
        Apart.startsOutside (by rwa [hnil, List.append_nil] at h) hne hw
      rw [List.append_assoc, runsOf_run_append hne hw hbehind, runsOf_run_append hne hw hrest,
        ih h.of_append, List.cons_append]

/-- A run of a larger class that holds characters of a smaller one only is a run
of the smaller class too. -/
theorem mem_runsOf_of_imp {smaller : Char → Bool} (himp : ∀ c, smaller c = true → inClass c = true)
    {w text : List Char} (hw : ∀ c ∈ w, smaller c = true) (h : w ∈ runsOf inClass text) :
    w ∈ runsOf smaller text := by
  have hout : ∀ c, inClass c = false → smaller c = false := by
    intro c hc
    refine Bool.eq_false_iff.2 fun hsmaller => ?_
    rw [himp c hsmaller] at hc
    nomatch hc
  induction text using run_induction inClass with
  | nil => nomatch h
  | outside c rest hc ih =>
      rw [runsOf_cons hc] at h
      rw [runsOf_cons (hout c hc)]
      exact ih h
  | run v rest hne hv hrest ih =>
      have hstarts : StartsOutside smaller rest := fun c hc => hout c (hrest c hc)
      rw [runsOf_run_append hne hv hrest] at h
      rcases List.mem_cons.1 h with rfl | h
      · rw [runsOf_run_append hne hw hstarts]
        exact List.mem_cons_self
      · rw [runsOf_append (.inr hstarts)]
        exact List.mem_append_right _ (ih h)

/-! ## Exchanging a run -/

theorem substituteRuns_cons {c : Char} (hc : inClass c = false) (old new rest : List Char) :
    substituteRuns inClass old new (c :: rest) = c :: substituteRuns inClass old new rest := by
  rw [substituteRuns, flatMap_pieces_cons (fun _ => rfl) hc]
  rfl

theorem substituteRuns_run_append {w rest : List Char} (hne : w ≠ [])
    (hw : ∀ c ∈ w, inClass c = true) (hrest : StartsOutside inClass rest) (old new : List Char) :
    substituteRuns inClass old new (w ++ rest) =
      (if w = old then new else w) ++ substituteRuns inClass old new rest := by
  rw [substituteRuns, pieces_run_append hne hw hrest, List.flatMap_cons]
  simp [substituteRuns]

theorem substituteRuns_append {xs ys : List Char} (h : Apart inClass xs ys)
    (old new : List Char) :
    substituteRuns inClass old new (xs ++ ys) =
      substituteRuns inClass old new xs ++ substituteRuns inClass old new ys := by
  induction xs using run_induction inClass with
  | nil => rfl
  | outside c rest hc ih =>
      rw [List.cons_append, substituteRuns_cons hc, substituteRuns_cons hc, ih h.of_cons,
        List.cons_append]
  | run w rest hne hw hrest ih =>
      have hbehind : StartsOutside inClass (rest ++ ys) := startsOutside_append hrest fun hnil =>
        Apart.startsOutside (by rwa [hnil, List.append_nil] at h) hne hw
      rw [List.append_assoc, substituteRuns_run_append hne hw hbehind,
        substituteRuns_run_append hne hw hrest, ih h.of_append, List.append_assoc]

theorem substituteRuns_of_notMem {old text : List Char} (h : old ∉ runsOf inClass text)
    (new : List Char) : substituteRuns inClass old new text = text := by
  induction text using run_induction inClass with
  | nil => rfl
  | outside c rest hc ih =>
      rw [runsOf_cons hc] at h
      rw [substituteRuns_cons hc, ih h]
  | run w rest hne hw hrest ih =>
      rw [runsOf_run_append hne hw hrest, List.mem_cons, not_or] at h
      rw [substituteRuns_run_append hne hw hrest, if_neg fun heq => h.1 heq.symm, ih h.2]

/-! ## What stands free is a whole run -/

section Bounded

variable {needle : List Char} (hne : needle ≠ []) (hneedle : ∀ c ∈ needle, inClass c = true)

include hne hneedle

theorem not_isPrefixOf_of_outside {c : Char} (hc : inClass c = false) (rest : List Char) :
    needle.isPrefixOf (c :: rest) = false := by
  cases needle with
  | nil => exact absurd rfl hne
  | cons d needle =>
      have hd := hneedle d List.mem_cons_self
      refine Bool.eq_false_iff.2 fun h => ?_
      have heq : d = c := (List.cons_prefix_cons.1 (List.isPrefixOf_iff_prefix.1 h)).1
      rw [heq, hc] at hd
      nomatch hd

/-- In front of a character outside the class it does not matter what came
before. -/
theorem replaceBoundedFrom_startsOutside {rest : List Char} (hrest : StartsOutside inClass rest)
    (new : List Char) (before : Option Char) (dropped : Bool) :
    replaceBoundedFrom inClass needle new before 0 dropped rest =
      replaceBoundedFrom inClass needle new none 0 false rest := by
  cases rest with
  | nil => rfl
  | cons c rest =>
      have hnot := not_isPrefixOf_of_outside hne hneedle (startsOutside_cons.1 hrest) rest
      rw [replaceBoundedFrom, replaceBoundedFrom, hnot]
      rfl

omit hne in
theorem prefix_of_prefix_append {w rest : List Char} (hrest : StartsOutside inClass rest)
    (h : needle <+: w ++ rest) : needle <+: w := by
  rcases List.prefix_or_prefix_of_prefix h (List.prefix_append w rest) with hle | hle
  · exact hle
  · obtain ⟨more, rfl⟩ := hle
    cases more with
    | nil => exact ⟨[], by rw [List.append_nil, List.append_nil]⟩
    | cons c more =>
        have hprefix : c :: more <+: rest := (List.prefix_append_right_inj w).1 h
        obtain ⟨behind, rfl⟩ := hprefix
        have hc := hneedle c (by simp)
        rw [startsOutside_cons.1 hrest] at hc
        nomatch hc

/-- In the middle of a run nothing stands free. -/
theorem replaceBoundedFrom_inside {w rest : List Char} (hw : ∀ c ∈ w, inClass c = true)
    (hrest : StartsOutside inClass rest) (new : List Char) {before : Char}
    (hbefore : inClass before = true) {passed : Nat} (hpassed : passed ≤ w.length) :
    replaceBoundedFrom inClass needle new (some before) passed false (w ++ rest) =
      w ++ replaceBoundedFrom inClass needle new none 0 false rest := by
  induction w generalizing before passed with
  | nil =>
      obtain rfl := Nat.le_zero.1 hpassed
      exact replaceBoundedFrom_startsOutside hne hneedle hrest new _ _
  | cons c w ih =>
      have hc := hw c List.mem_cons_self
      have ih := @ih (fun d hd => hw d (List.mem_cons_of_mem c hd)) c hc
      rw [List.cons_append]
      cases passed with
      | succ passed =>
          rw [replaceBoundedFrom, ih (Nat.le_of_succ_le_succ hpassed)]
          rfl
      | zero =>
          rw [replaceBoundedFrom]
          split
          · next hprefix =>
              have hlength : needle.length ≤ (c :: w).length :=
                (prefix_of_prefix_append hneedle hrest
                  (List.isPrefixOf_iff_prefix.1 hprefix)).length_le
              have hblocked : (some before).any inClass = true := hbefore
              rw [hblocked, Bool.true_or, if_pos rfl, ih (Nat.sub_le_of_le_add hlength)]
              rfl
          · rw [ih (Nat.zero_le _)]
            rfl

omit hne hneedle in
theorem replaceBoundedFrom_dropped (w rest new : List Char) (before : Option Char) :
    ∃ last, replaceBoundedFrom inClass needle new before w.length true (w ++ rest) =
      replaceBoundedFrom inClass needle new last 0 true rest := by
  induction w generalizing before with
  | nil => exact ⟨before, rfl⟩
  | cons c w ih => exact ih (some c)

/-- At the front of a run only the whole run stands free. -/
theorem replaceBoundedFrom_run {w rest : List Char} (hwne : w ≠ [])
    (hw : ∀ c ∈ w, inClass c = true) (hrest : StartsOutside inClass rest) (new : List Char)
    {before : Option Char} (hbefore : before.any inClass = false) (dropped : Bool) :
    replaceBoundedFrom inClass needle new before 0 dropped (w ++ rest) =
      (if w = needle then new else w) ++
        replaceBoundedFrom inClass needle new none 0 false rest := by
  obtain ⟨c, w, rfl⟩ := List.exists_cons_of_ne_nil hwne
  have hinside := fun {passed} => @replaceBoundedFrom_inside inClass needle hne hneedle w rest
    (fun d hd => hw d (List.mem_cons_of_mem c hd)) hrest new c (hw c List.mem_cons_self) passed
  rw [List.cons_append, replaceBoundedFrom, hbefore, Bool.false_or]
  split
  · next hprefix =>
      rw [List.isPrefixOf_iff_prefix, ← List.cons_append] at hprefix
      obtain ⟨more, hmore⟩ := prefix_of_prefix_append hneedle hrest hprefix
      have hbehind : ((c :: (w ++ rest)).drop needle.length) = more ++ rest := by
        rw [← List.cons_append, ← hmore, List.append_assoc, List.drop_left]
      rw [hbehind]
      cases more with
      | nil =>
          have hfree : ((rest.head?).any inClass) = false := by
            cases rest with
            | nil => rfl
            | cons d rest => exact startsOutside_cons.1 hrest
          rw [List.append_nil] at hmore
          subst hmore
          obtain ⟨last, hlast⟩ := @replaceBoundedFrom_dropped inClass (c :: w) w rest new (some c)
          rw [List.nil_append, hfree, if_neg Bool.false_ne_true, if_pos rfl, List.length_cons,
            Nat.add_sub_cancel, hlast, replaceBoundedFrom_startsOutside hne hneedle hrest new]
      | cons d more =>
          have hblocked : (((d :: more) ++ rest).head?).any inClass = true :=
            hw d (hmore ▸ List.mem_append_right _ List.mem_cons_self)
          have hlonger : c :: w ≠ needle := by
            rintro rfl
            simp at hmore
          have hlength : needle.length ≤ (c :: w).length := by
            rw [← hmore, List.length_append]
            exact Nat.le_add_right _ _
          rw [hblocked, if_pos rfl, if_neg hlonger, hinside (Nat.sub_le_of_le_add hlength),
            List.cons_append]
  · next hprefix =>
      have hother : c :: w ≠ needle := by
        rintro rfl
        exact hprefix (List.isPrefixOf_iff_prefix.2 (List.prefix_append (c :: w) rest))
      rw [if_neg hother, hinside (Nat.zero_le _), List.cons_append]

theorem replaceBounded_eq_substituteRuns (new text : List Char) :
    replaceBounded inClass needle new text = substituteRuns inClass needle new text := by
  have hfrom : ∀ (before : Option Char) (dropped : Bool),
      (before.any inClass = true → StartsOutside inClass text) →
      replaceBoundedFrom inClass needle new before 0 dropped text =
        substituteRuns inClass needle new text := by
    induction text using run_induction inClass with
    | nil => exact fun _ _ _ => rfl
    | outside c rest hc ih =>
        intro before dropped _
        rw [replaceBoundedFrom, not_isPrefixOf_of_outside hne hneedle hc, substituteRuns_cons hc]
        refine congrArg (c :: ·) (ih (some c) false fun h => ?_)
        rw [Option.any_some, hc] at h
        nomatch h
    | run w rest hwne hw hrest ih =>
        intro before dropped hbefore
        have hfree : before.any inClass = false := by
          refine Bool.eq_false_iff.2 fun h => ?_
          obtain ⟨c, w, rfl⟩ := List.exists_cons_of_ne_nil hwne
          have hc := startsOutside_cons.1 (hbefore h)
          rw [hw c List.mem_cons_self] at hc
          nomatch hc
        rw [replaceBoundedFrom_run hne hneedle hwne hw hrest new hfree,
          substituteRuns_run_append hwne hw hrest, ih none false fun h => nomatch h]
  rw [replaceBounded, if_neg (by simpa using hne)]
  exact hfrom none false fun h => nomatch h

end Bounded

end EditMining.Text
