import EditMining.Storage.FileTree

/-!
# What a file tree keeps

A path leads to a place by its names alone (`placeOf`); whether it can be followed
depends on what stands on the way. A tree is changed in two ways only: a text is
put into a file, and directories are made where nothing was. So directories stay
directories, paths that could be followed still can, and all files but the one
that is written keep their text (`KeepsOutside.read`). What is written is read
back (`read_write`).

A name is put behind a directory's path in one way or another, depending on how
the path ends, but the place is always the directory's with the name added
(`placeOf_join`). So files with different names in one directory are different
files, however the directory is spelt.
-/

namespace EditMining

theorem Path.join_injective (directory : String) : Function.Injective (Path.join directory) := by
  intro name name' h
  rw [join, join] at h
  split at h
  · exact (String.append_right_inj directory).1 h
  · exact (String.append_right_inj _).1 h

namespace FileTree

variable {t t' t'' : FileTree} {place other : List String} {path text : String}

/-! ## Entries -/

theorem lookup_filter_ne {entries : List (List String × FileEntry)} (h : other ≠ place) :
    (entries.filter fun old => old.1 != place).lookup other = entries.lookup other := by
  induction entries with
  | nil => rfl
  | cons entry rest ih =>
      obtain ⟨here, e⟩ := entry
      by_cases hhere : here = place
      · have hother : (other == here) = false := by
          rw [hhere]
          exact beq_eq_false_iff_ne.2 h
        rw [List.filter_cons_of_neg (by simp [hhere]), ih, List.lookup_cons, hother]
      · rw [List.filter_cons_of_pos (by simp [hhere]), List.lookup_cons, List.lookup_cons, ih]

theorem ne_root (h : t.entry? place ≠ some .directory) : place ≠ [] := by
  intro hroot
  rw [hroot] at h
  exact h rfl

theorem entry_put (t : FileTree) (hplace : place ≠ []) (e : FileEntry) (other : List String) :
    FileTree.entry? (t.put place e) other = if other = place then some e else t.entry? other := by
  rw [ entry?, entry?, put]
  by_cases hroot : other = []
  · rw [hroot, if_neg (Ne.symm hplace)]
    rfl
  · have hnonempty : other.isEmpty = false := by simpa using hroot
    rw [hnonempty]
    by_cases heq : other = place
    · simp [heq]
    · have hbeq : (other == place) = false := beq_eq_false_iff_ne.2 heq
      simp only [Bool.false_eq_true, if_false, List.lookup_cons, hbeq, lookup_filter_ne heq,
        if_neg heq]

/-- A tree that came out of another one. Directories are still there, and files
too, save for some places. -/
structure KeepsOutside (changed : List String → Prop) (t t' : FileTree) : Prop where
  workingDirectory_eq : t'.workingDirectory = t.workingDirectory
  entry_eq : ∀ place e, t.entry? place = some e → e = .directory ∨ ¬ changed place →
    t'.entry? place = some e

namespace KeepsOutside

variable {changed changed' : List String → Prop}

theorem refl (changed : List String → Prop) (t : FileTree) : KeepsOutside changed t t :=
  ⟨rfl, fun _ _ h _ => h⟩

theorem trans (h : KeepsOutside changed t t') (h' : KeepsOutside changed t' t'') :
    KeepsOutside changed t t'' :=
  ⟨h'.workingDirectory_eq.trans h.workingDirectory_eq,
    fun place e he hkept => h'.entry_eq place e (h.entry_eq place e he hkept) hkept⟩

theorem mono (h : KeepsOutside changed t t') (himp : ∀ place, changed place → changed' place) :
    KeepsOutside changed' t t' :=
  ⟨h.workingDirectory_eq, fun place e he hkept =>
    h.entry_eq place e he (hkept.imp id fun hnot hchanged => hnot (himp place hchanged))⟩

end KeepsOutside

theorem keepsOutside_put (hplace : place ≠ []) {e : FileEntry}
    (hfree : t.entry? place ≠ some .directory) :
    KeepsOutside (· = place) t (t.put place e) := by
  refine ⟨rfl, fun other old hold hkept => ?_⟩
  rw [entry_put t hplace, if_neg]
  · exact hold
  · rintro rfl
    rcases hkept with rfl | hne
    · exact hfree hold
    · exact hne rfl

/-! ## Places -/

/-- The place that a path leads to if it can be followed. -/
def placeOf (t : FileTree) (path : String) : List String :=
  (t.start path).2.foldl enter (t.start path).1

theorem placeOf_congr (h : t'.workingDirectory = t.workingDirectory) (path : String) :
    t'.placeOf path = t.placeOf path := by
  rw [placeOf, placeOf, start, start, h]

theorem follow_eq {names : List String} (h : t.follow place names = .ok other) :
    other = names.foldl enter place := by
  induction names generalizing place with
  | nil =>
      cases h
      rfl
  | cons name rest ih =>
      rw [follow] at h
      split at h
      · exact ih h
      · nomatch h
      · nomatch h

theorem locate_eq (h : t.locate path = .ok place) : place = t.placeOf path := by
  rw [locate] at h
  split at h
  · nomatch h
  · exact follow_eq h

namespace KeepsOutside

variable {changed : List String → Prop}

theorem follow (h : KeepsOutside changed t t') {names : List String}
    (hfollow : t.follow place names = .ok other) : t'.follow place names = .ok other := by
  induction names generalizing place with
  | nil => exact hfollow
  | cons name rest ih =>
      rw [FileTree.follow] at hfollow ⊢
      split at hfollow
      · next hdirectory =>
          rw [h.entry_eq place _ hdirectory (.inl rfl)]
          exact ih hfollow
      · nomatch hfollow
      · nomatch hfollow

theorem locate (h : KeepsOutside changed t t') (hlocate : t.locate path = .ok place) :
    t'.locate path = .ok place := by
  have hstart : t'.start path = t.start path := by rw [start, start, h.workingDirectory_eq]
  rw [FileTree.locate] at hlocate ⊢
  split at hlocate
  · nomatch hlocate
  · next hpath =>
      rw [if_neg hpath, hstart]
      exact h.follow hlocate

end KeepsOutside

theorem read_of_locate (h : t.locate path = .ok place) :
    t.read path = match t.entry? place with
      | some (.file text) => .ok text
      | some .directory => .error .isDirectory
      | none => .error .notFound := by
  rw [read, h]
  rfl

theorem read_eq_ok : t.read path = .ok text ↔
    t.locate path = .ok (t.placeOf path) ∧ t.entry? (t.placeOf path) = some (.file text) := by
  constructor
  · intro h
    cases hlocate : t.locate path with
    | error fault =>
        rw [read, hlocate] at h
        cases h
    | ok place =>
        rw [read_of_locate hlocate] at h
        rw [← locate_eq hlocate]
        split at h
        · next hentry =>
            cases h
            exact ⟨rfl, hentry⟩
        · cases h
        · cases h
  · rintro ⟨hlocate, hentry⟩
    rw [read_of_locate hlocate, hentry]

/-- A file that is not among those that changed reads as before. -/
theorem KeepsOutside.read {changed : List String → Prop} (h : KeepsOutside changed t t')
    (hread : t.read path = .ok text) (hkept : ¬ changed (t.placeOf path)) :
    t'.read path = .ok text := by
  obtain ⟨hlocate, hentry⟩ := read_eq_ok.1 hread
  rw [read_eq_ok, placeOf_congr h.workingDirectory_eq]
  exact ⟨h.locate hlocate, h.entry_eq _ _ hentry (.inr hkept)⟩

/-! ## Changes -/

theorem keepsOutside_createAlong {names : List String} (h : t.createAlong place names = .ok t') :
    KeepsOutside (fun _ => False) t t' := by
  induction names generalizing t place with
  | nil =>
      cases h
      exact .refl _ _
  | cons name rest ih =>
      rw [createAlong] at h
      split at h
      · exact ih h
      · nomatch h
      · next hnone =>
          have hplace : enter place name ≠ [] := ne_root (t := t) (by simp [hnone])
          have hput : KeepsOutside (fun _ => False) t (t.put (enter place name) .directory) := by
            refine ⟨rfl, fun other old hold _ => ?_⟩
            rw [entry_put t hplace, if_neg]
            · exact hold
            · rintro rfl
              rw [hnone] at hold
              nomatch hold
          exact hput.trans (ih h)

theorem keepsOutside_createDirectories (h : t.createDirectories path = .ok t') :
    KeepsOutside (fun _ => False) t t' :=
  keepsOutside_createAlong h

/-- Directories that were made are there. -/
theorem createAlong_again {names : List String} (h : t.createAlong place names = .ok t') :
    t'.createAlong place names = .ok t' := by
  induction names generalizing t place with
  | nil => rfl
  | cons name rest ih =>
      rw [createAlong] at h ⊢
      split at h
      · next hdirectory =>
          rw [(keepsOutside_createAlong h).entry_eq _ _ hdirectory (.inl rfl)]
          exact ih h
      · nomatch h
      · next hnone =>
          have hput : FileTree.entry? (t.put (enter place name) .directory) (enter place name) =
              some .directory := by
            rw [entry_put t (ne_root (t := t) (by simp [hnone])), if_pos rfl]
          rw [(keepsOutside_createAlong h).entry_eq _ _ hput (.inl rfl)]
          exact ih h

theorem write_of_locate (h : t.locate path = .ok place) :
    t.write path text = match t.entry? place with
      | some .directory => .error .isDirectory
      | _ => .ok (t.put place (.file text)) := by
  rw [write, h]
  rfl

theorem write_eq_ok (h : t.write path text = .ok t') :
    t.locate path = .ok (t.placeOf path) ∧ t.entry? (t.placeOf path) ≠ some .directory ∧
      t' = t.put (t.placeOf path) (.file text) := by
  cases hlocate : t.locate path with
  | error fault =>
      rw [write, hlocate] at h
      cases h
  | ok place =>
      rw [write_of_locate hlocate] at h
      rw [← locate_eq hlocate]
      split at h
      · cases h
      · next hfree =>
          cases h
          exact ⟨rfl, hfree, rfl⟩

theorem keepsOutside_write (h : t.write path text = .ok t') :
    KeepsOutside (· = t.placeOf path) t t' := by
  obtain ⟨-, hfree, rfl⟩ := write_eq_ok h
  exact keepsOutside_put (ne_root hfree) hfree

theorem read_write (h : t.write path text = .ok t') : t'.read path = .ok text := by
  have hkeeps := keepsOutside_write h
  obtain ⟨hlocate, hfree, rfl⟩ := write_eq_ok h
  rw [read_eq_ok, placeOf_congr hkeeps.workingDirectory_eq]
  refine ⟨hkeeps.locate hlocate, ?_⟩
  rw [entry_put t (ne_root hfree), if_pos rfl]

/-! ## Names in directories -/

/-- A name that leads into a directory. -/
structure IsName (name : String) : Prop where
  single : '/' ∉ name.toList
  nonempty : name ≠ ""
  notHere : name ≠ "."
  notAbove : name ≠ ".."

theorem enter_of_isName {name : String} (h : IsName name) (place : List String) :
    enter place name = place ++ [name] := by
  rw [enter, if_neg, if_neg h.notAbove]
  simp [h.notHere, h.nonempty]

theorem splitAtChar_of_notMem {mark : Char} {name : List Char} (h : mark ∉ name) :
    Language.splitAtChar mark name = [name] := by
  induction name with
  | nil => rfl
  | cons c rest ih =>
      rw [List.mem_cons, not_or] at h
      have hc : (c == mark) = false := beq_eq_false_iff_ne.2 (Ne.symm h.1)
      rw [Language.splitAtChar, hc, ih h.2]
      rfl

theorem splitAtChar_ne_nil (mark : Char) (text : List Char) :
    Language.splitAtChar mark text ≠ [] := by
  cases text with
  | nil => exact List.cons_ne_nil _ _
  | cons c rest =>
      rw [Language.splitAtChar]
      split
      · exact List.cons_ne_nil _ _
      · split <;> exact List.cons_ne_nil _ _

theorem splitAtChar_append {mark : Char} (front rest : List Char) :
    Language.splitAtChar mark (front ++ mark :: rest) =
      Language.splitAtChar mark front ++ Language.splitAtChar mark rest := by
  induction front with
  | nil => simp [Language.splitAtChar]
  | cons c front ih =>
      rw [List.cons_append, Language.splitAtChar, Language.splitAtChar, ih]
      split
      · rfl
      · cases hfront : Language.splitAtChar mark front with
        | nil => exact absurd hfront (splitAtChar_ne_nil mark front)
        | cons piece more => rfl

/-- The place of a path by its characters. -/
theorem placeOf_eq {front : List Char} {name : String} (hname : IsName name)
    (hpath : path.toList = front ++ '/' :: name.toList) (t : FileTree) :
    t.placeOf path = ((Language.splitAtChar '/' front).map String.ofList).foldl enter
      (if (front ++ ['/']).head? == some '/' then [] else t.workingDirectory) ++ [name] := by
  have hhead : path.toList.head? = (front ++ ['/']).head? := by
    rw [hpath]
    cases front <;> rfl
  rw [placeOf, start, hhead, hpath]
  dsimp only
  rw [splitAtChar_append, splitAtChar_of_notMem hname.single, List.map_append,
    List.foldl_append, List.map_cons, List.map_nil, String.ofList_toList, List.foldl_cons,
    List.foldl_nil, enter_of_isName hname]

theorem placeOf_join (t : FileTree) {name : String} (hname : IsName name) (directory : String) :
    t.placeOf (Path.join directory name) = t.placeOf directory ++ [name] := by
  rw [Path.join]
  -- A separator is added unless there is nothing before it, or it is there already.
  by_cases hempty : directory = ""
  · have hhead : (name.toList.head? == some '/') = false := by
      rw [beq_eq_false_iff_ne]
      intro hhead
      exact hname.single (List.mem_of_head? hhead)
    have hsingle := splitAtChar_of_notMem hname.single
    subst hempty
    rw [if_pos (by simp), String.empty_append, placeOf, start, hhead]
    dsimp only
    rw [hsingle, List.map_cons, List.map_nil, String.ofList_toList, List.foldl_cons,
      List.foldl_nil, enter_of_isName hname]
    rfl
  · by_cases hlast : directory.toList.getLast? = some '/'
    · obtain ⟨front, hfront⟩ := List.getLast?_eq_some_iff.1 hlast
      have hpath : (directory ++ name).toList = front ++ '/' :: name.toList := by
        rw [String.toList_append, hfront, List.append_assoc]
        rfl
      rw [if_pos (by rw [hlast]; simp), placeOf_eq hname hpath, placeOf, start, hfront]
      dsimp only
      rw [splitAtChar_append, List.map_append, List.foldl_append]
      rfl
    · have hpath : (directory ++ "/" ++ name).toList = directory.toList ++ '/' :: name.toList := by
        rw [String.toList_append, String.toList_append, List.append_assoc]
        rfl
      have hhead : (directory.toList ++ ['/']).head? = directory.toList.head? := by
        cases hchars : directory.toList with
        | nil => exact absurd (String.toList_injective hchars) hempty
        | cons c rest => rfl
      rw [if_neg (by simpa [hempty] using hlast), placeOf_eq hname hpath, hhead]
      rfl

/-! ## As storage -/

theorem run_readJson_eq {α : Type} (read : Json → Option α) (path : String) (t : FileTree) :
    (storage.readJson read path).run t =
      (match t.read path with
        | .ok text =>
            match Json.decode read text with
            | some x => pure (.ok x)
            | none => pure (.error (.serialization .json))
        | .error .isDirectory | .error .invalidText => pure (.error (.serialization .json))
        | .error fault => pure (.error (.io ("Failed to open " ++ path) fault)) :
          StateM FileTree (Result α)).run t := rfl

theorem run_readJson {α : Type} {read : Json → Option α} {x : α} (hread : t.read path = .ok text)
    (hdecode : Json.decode read text = some x) :
    (storage.readJson read path).run t = (.ok x, t) := by
  rw [run_readJson_eq, hread]
  simp only [hdecode]
  rfl

/-- The failure to make a file or a directory. -/
def refusal (place : String) (fault : StorageFault) : Error :=
  .io ("Failed to create " ++ place) fault

/-- A document cannot be made at a path, not even with all directories above it. -/
def Refuses (t : FileTree) (path : String) (e : Error) : Prop :=
  match t.createDirectories (Path.parent path) with
  | .error fault => e = refusal (Path.parent path) fault
  | .ok t' => ∃ text fault, t'.write path text = .error fault ∧ e = refusal path fault

theorem run_creating (change : FileTree → Except StorageFault FileTree) (place : String)
    (t : FileTree) :
    (do
      match ← update change with
      | .ok _ => pure (.ok ())
      | .error fault => pure (.error (.io ("Failed to create " ++ place) fault)) :
        StateM FileTree (Result Unit)).run t =
      match change t with
      | .ok t' => (.ok (), t')
      | .error fault => (.error (refusal place fault), t) := by
  have hrun : (do
      match ← update change with
      | .ok _ => pure (.ok ())
      | .error fault => pure (.error (.io ("Failed to create " ++ place) fault)) :
        StateM FileTree (Result Unit)).run t =
      (match ((update change).run t).1 with
        | .ok _ => pure (.ok ())
        | .error fault => pure (.error (refusal place fault)) :
          StateM FileTree (Result Unit)).run ((update change).run t).2 := rfl
  have hupdate : (update change).run t =
      match change t with
      | .ok t' => (.ok (), t')
      | .error fault => (.error fault, t) := by
    show ((match change t with
      | .ok t => do
          set t
          pure (.ok ())
      | .error fault => pure (.error fault) : StateM FileTree (Except StorageFault Unit)).run t) = _
    cases change t <;> rfl
  rw [hrun, hupdate]
  cases change t <;> rfl

theorem run_createParent (t : FileTree) (path : String) :
    (∃ e, t.Refuses path e ∧ (storage.createParent path).run t = (.error e, t)) ∨
      ∃ t', (storage.createParent path).run t = (.ok (), t') ∧
        t'.createDirectories (Path.parent path) = .ok t' ∧ KeepsOutside (fun _ => False) t t' := by
  rw [Storage.createParent]
  split
  · next hhere =>
      rw [hhere]
      exact .inr ⟨t, rfl, rfl, .refl _ t⟩
  · have hrun := run_creating (fun t => t.createDirectories (Path.parent path)) (Path.parent path) t
    cases hmade : t.createDirectories (Path.parent path) with
    | error fault =>
        rw [hmade] at hrun
        refine .inl ⟨_, ?_, hrun⟩
        rw [Refuses, hmade]
    | ok t' =>
        rw [hmade] at hrun
        refine .inr ⟨t', hrun, ?_, keepsOutside_createDirectories hmade⟩
        have hstart : t'.start (Path.parent path) = t.start (Path.parent path) := by
          rw [start, start, (keepsOutside_createDirectories hmade).workingDirectory_eq]
        rw [createDirectories, hstart]
        exact createAlong_again hmade

/-- A document is written, or the tree refuses it. -/
theorem run_writeJson_eq (t : FileTree) (path : String) (v : Json) :
    (storage.writeJson path v).run t =
      (match ((storage.createParent path).run t).1 with
        | .error e => pure (.error e)
        | .ok _ => do
            match ← update (fun t => t.write path v.pretty) with
            | .ok _ => pure (.ok ())
            | .error fault => pure (.error (.io ("Failed to create " ++ path) fault)) :
          StateM FileTree (Result Unit)).run ((storage.createParent path).run t).2 := rfl

theorem run_writeJson (t : FileTree) (path : String) (v : Json) :
    (∃ e t', t'.Refuses path e ∧ (storage.writeJson path v).run t = (.error e, t')) ∨
      ∃ t', (storage.writeJson path v).run t = (.ok (), t') ∧ t'.read path = .ok v.pretty ∧
        KeepsOutside (· = t.placeOf path) t t' := by
  rw [run_writeJson_eq]
  rcases run_createParent t path with ⟨e, hrefused, hparent⟩ | ⟨t', hparent, hmade, hkeeps⟩
  · rw [hparent]
    exact .inl ⟨e, t, hrefused, rfl⟩
  · rw [hparent]
    dsimp only
    rw [run_creating]
    cases hwrite : t'.write path v.pretty with
    | error fault =>
        refine .inl ⟨_, t', ?_, rfl⟩
        rw [Refuses, hmade]
        exact ⟨_, fault, hwrite, rfl⟩
    | ok t'' =>
        have hwritten := keepsOutside_write hwrite
        rw [placeOf_congr hkeeps.workingDirectory_eq] at hwritten
        exact .inr ⟨t'', rfl, read_write hwrite,
          (hkeeps.mono fun _ h => h.elim).trans hwritten⟩

end FileTree

end EditMining
