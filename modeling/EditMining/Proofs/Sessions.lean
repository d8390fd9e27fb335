import EditMining.Oracle

/-!
# What a session returns

A session threads the memory of its oracle through everything it does. What can be
said of a session whatever its oracle remembers is said here, with one law for each
way in which sessions are put together.

Memory need not show: two sessions return the same (`SameValue`, and `SameResult`
where they may fail). An oracle is compared with itself as well; then the statement is
that the result does not depend on what was asked before.

Something may be known of every failure (`FailsWith`), or of every result (`Returns`).
-/

namespace EditMining

variable {σ τ α β : Type}

/-! ## Values -/

/-- Two computations return the same value, whatever either remembers. -/
def SameValue (x : StateM σ α) (y : StateM τ α) : Prop :=
  ∀ s t, (x.run s).1 = (y.run t).1

theorem SameValue.pure (a : α) : SameValue (pure a : StateM σ α) (pure a : StateM τ α) :=
  fun _ _ => rfl

theorem SameValue.bind {x : StateM σ α} {y : StateM τ α} {f : α → StateM σ β}
    {g : α → StateM τ β} (h : SameValue x y) (hfg : ∀ a, SameValue (f a) (g a)) :
    SameValue (x >>= f) (y >>= g) := by
  intro s t
  have hst := h s t
  show ((f (x.run s).1).run (x.run s).2).1 = ((g (y.run t).1).run (y.run t).2).1
  rw [hst]
  exact hfg _ _ _

theorem mapM_run_fst {f : α → StateM σ β} (h : ∀ a, SameValue (f a) (f a)) (xs : List α)
    (s t : σ) : ((xs.mapM f).run s).1 = xs.map fun a => ((f a).run t).1 := by
  induction xs generalizing s with
  | nil => rfl
  | cons x rest ih =>
      rw [List.mapM_cons, List.map_cons, ← ih ((f x).run s).2, ← h x s t]
      rfl

/-- Two sessions return the same or fail in the same way, whatever either
oracle remembers. -/
def SameResult (x : Session σ α) (y : Session τ α) : Prop :=
  SameValue x.run y.run

theorem SameResult.pure (a : α) : SameResult (pure a : Session σ α) (pure a : Session τ α) :=
  fun _ _ => rfl

theorem SameResult.bind {x : Session σ α} {y : Session τ α} {f : α → Session σ β}
    {g : α → Session τ β} (h : SameResult x y) (hfg : ∀ a, SameResult (f a) (g a)) :
    SameResult (x >>= f) (y >>= g) := by
  show SameValue (x.run >>= ExceptT.bindCont f) (y.run >>= ExceptT.bindCont g)
  refine SameValue.bind h fun r => ?_
  cases r with
  | ok a => exact hfg a
  | error e => exact fun _ _ => rfl

/-! ## Runs -/

theorem run_bind_of_ok {x : Session σ α} {s s' : σ} {a : α} (h : x.run.run s = (.ok a, s'))
    (f : α → Session σ β) : (x >>= f).run.run s = (f a).run.run s' := by
  show (ExceptT.bindCont f (x.run.run s).1 : StateM σ (Except Error β)).run (x.run.run s).2 = _
  rw [h]
  rfl

theorem run_bind_of_error {x : Session σ α} {s s' : σ} {e : Error}
    (h : x.run.run s = (.error e, s')) (f : α → Session σ β) :
    (x >>= f).run.run s = (.error e, s') := by
  show (ExceptT.bindCont f (x.run.run s).1 : StateM σ (Except Error β)).run (x.run.run s).2 = _
  rw [h]
  rfl

theorem exists_of_run_bind_eq_ok {x : Session σ α} {f : α → Session σ β} {s s' : σ} {b : β}
    (h : (x >>= f).run.run s = (.ok b, s')) :
    ∃ a s₁, x.run.run s = (.ok a, s₁) ∧ (f a).run.run s₁ = (.ok b, s') := by
  cases hx : x.run.run s with
  | mk result s₁ =>
      cases result with
      | ok a => exact ⟨a, s₁, rfl, (run_bind_of_ok hx f).symm.trans h⟩
      | error e => cases (run_bind_of_error hx f).symm.trans h

theorem map_run_fst (x : Session σ α) (g : α → β) (s : σ) :
    ((g <$> x).run.run s).1 = (x.run.run s).1.map g := by
  rw [ExceptT.run_map, StateT.run_map]
  cases x.run.run s with
  | mk result s' => cases result <;> rfl

/-! ## Failures -/

def FailsWith (P : Error → Prop) (x : Session σ α) : Prop :=
  ∀ s e, (x.run.run s).1 = .error e → P e

theorem FailsWith.pure {P : Error → Prop} (a : α) : FailsWith P (pure a : Session σ α) :=
  fun _ _ h => nomatch h

theorem FailsWith.bind {P : Error → Prop} {x : Session σ α} {f : α → Session σ β}
    (hx : FailsWith P x) (hf : ∀ a, FailsWith P (f a)) : FailsWith P (x >>= f) := by
  intro s e h
  cases hr : x.run.run s with
  | mk result s' =>
      cases result with
      | ok a =>
          rw [run_bind_of_ok hr] at h
          exact hf a s' e h
      | error e' =>
          rw [run_bind_of_error hr] at h
          cases h
          exact hx s _ (congrArg Prod.fst hr)

/-! ## Results -/

def Returns (P : α → Prop) (x : Session σ α) : Prop :=
  ∀ s a, (x.run.run s).1 = .ok a → P a

theorem Returns.pure {P : α → Prop} {a : α} (ha : P a) : Returns P (pure a : Session σ α) := by
  intro s b h
  have heq : a = b := Except.ok.inj h
  exact heq ▸ ha

theorem Returns.bind {P : β → Prop} {Q : α → Prop} {x : Session σ α} {f : α → Session σ β}
    (hx : Returns Q x) (hf : ∀ a, Q a → Returns P (f a)) : Returns P (x >>= f) := by
  intro s b h
  obtain ⟨a, s₁, ha, hb⟩ := exists_of_run_bind_eq_ok (Prod.ext h rfl)
  exact hf a (hx s a (congrArg Prod.fst ha)) s₁ b (congrArg Prod.fst hb)

/-! ## Oracles that answer alike -/

namespace Oracle

/-- The answer to a question depends on the question alone. -/
def AnswersBy (o : Oracle σ) (f : Language → Hunk → Result StructuralDiff) : Prop :=
  ∀ l h s, (o.answer l h s).1 = f l h

variable {f : Language → Hunk → Result StructuralDiff} {o : Oracle σ} {o' : Oracle τ}

theorem answersBy_ofFunction (f : Language → Hunk → Result StructuralDiff) :
    (ofFunction f).AnswersBy f :=
  fun _ _ _ => rfl

theorem sameResult_ask (ho : o.AnswersBy f) (ho' : o'.AnswersBy f) (l : Language) (h : Hunk) :
    SameResult (o.ask l h) (o'.ask l h) :=
  fun s t => (ho l h s).trans (ho' l h t).symm

theorem failsWith_ask {P : Error → Prop} (ho : o.AnswersBy f)
    (hf : ∀ l h e, f l h = .error e → P e) (l : Language) (h : Hunk) : FailsWith P (o.ask l h) :=
  fun s e he => hf l h e ((ho l h s).symm.trans he)

end Oracle

end EditMining
