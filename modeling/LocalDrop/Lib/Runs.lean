import Mathlib.Logic.Basic

/-! Runs of a system given by a partial step function. An event that is not
enabled in a state has no successor there, so a run is a list of events with a
final state. -/
namespace LocalDrop.Lib

variable {σ ε : Type}

def run (step : σ → ε → Option σ) : σ → List ε → Option σ
  | s, [] => some s
  | s, e :: es => (step s e).bind fun t => run step t es

/-- Every step of the run meets a condition on the state it starts from. -/
def Meets (step : σ → ε → Option σ) (cond : σ → ε → Prop) : σ → List ε → Prop
  | _, [] => True
  | s, e :: es => ∀ t, step s e = some t → cond s e ∧ Meets step cond t es

instance Meets.decidable (step : σ → ε → Option σ) (cond : σ → ε → Prop)
    [∀ s e, Decidable (cond s e)] : ∀ s es, Decidable (Meets step cond s es)
  | _, [] => .isTrue trivial
  | s, e :: es =>
      match h : step s e with
      | none => .isTrue fun t ht => by rw [h] at ht; contradiction
      | some t =>
          have := Meets.decidable step cond t es
          decidable_of_iff (cond s e ∧ Meets step cond t es)
            ⟨fun hmeets u hu => Option.some.inj (h.symm.trans hu) ▸ hmeets,
              fun hmeets => hmeets t h⟩

/-- `P` holds in every state the run passes through, both ends included. -/
def Always (step : σ → ε → Option σ) (P : σ → Prop) : σ → List ε → Prop
  | s, [] => P s
  | s, e :: es => P s ∧ ∀ t, step s e = some t → Always step P t es

def Passes (step : σ → ε → Option σ) (s : σ) (es : List ε) (u : σ) (later : List ε) : Prop :=
  ∃ earlier, es = earlier ++ later ∧ run step s earlier = some u

def Takes (step : σ → ε → Option σ) (s : σ) (es : List ε) (u : σ) (e : ε) (v : σ) : Prop :=
  step u e = some v ∧ ∃ later, Passes step s es u (e :: later)

section
variable {step : σ → ε → Option σ} {s t : σ} {es : List ε}

theorem run_cons_eq_some {e : ε} (h : run step s (e :: es) = some t) :
    ∃ u, step s e = some u ∧ run step u es = some t :=
  Option.bind_eq_some_iff.mp h

theorem run_append (es fs : List ε) :
    run step s (es ++ fs) = (run step s es).bind fun u => run step u fs := by
  induction es generalizing s with
  | nil => rfl
  | cons e es ih =>
      simp only [List.cons_append, run]
      cases step s e with
      | none => rfl
      | some u => exact ih

theorem run_concat {u : σ} {e : ε} (hrun : run step s es = some t) (h : step t e = some u) :
    run step s (es ++ [e]) = some u := by
  rw [run_append, hrun, Option.bind_some, run, h]
  rfl

theorem run_invariant {Inv : σ → Prop}
    (hstep : ∀ s e t, Inv s → step s e = some t → Inv t)
    (hs : Inv s) (hrun : run step s es = some t) : Inv t := by
  induction es generalizing s with
  | nil => cases Option.some.inj hrun; exact hs
  | cons e es ih =>
      obtain ⟨u, hu, hrest⟩ := run_cons_eq_some hrun
      exact ih (hstep s e u hs hu) hrest

theorem run_measure {Inv : σ → Prop} {measure : σ → Nat} {lowers : ε → Bool}
    (hinv : ∀ s e t, Inv s → step s e = some t → Inv t)
    (hstep : ∀ s e t, Inv s → step s e = some t →
      measure t + (if lowers e then 1 else 0) ≤ measure s)
    (hs : Inv s) (hrun : run step s es = some t) : measure t + es.countP lowers ≤ measure s := by
  induction es generalizing s with
  | nil =>
      cases Option.some.inj hrun
      exact Nat.le_refl _
  | cons e es ih =>
      obtain ⟨u, hu, hrest⟩ := run_cons_eq_some hrun
      have hfirst := hstep s e u hs hu
      have hlater := ih (hinv s e u hs hu) hrest
      rw [List.countP_cons]
      omega

theorem Passes.run {u : σ} {later : List ε} (h : Passes step s es u later)
    (hrun : run step s es = some t) : run step u later = some t := by
  obtain ⟨earlier, rfl, hearlier⟩ := h
  rwa [run_append, hearlier] at hrun

theorem Passes.invariant {Inv : σ → Prop} {u : σ} {later : List ε}
    (h : Passes step s es u later) (hstep : ∀ s e t, Inv s → step s e = some t → Inv t)
    (hs : Inv s) : Inv u := by
  obtain ⟨earlier, -, hearlier⟩ := h
  exact run_invariant hstep hs hearlier

theorem Passes.cons {u : σ} {e : ε} {later : List ε} (h : Passes step t es u later)
    (hstep : step s e = some t) : Passes step s (e :: es) u later := by
  obtain ⟨earlier, rfl, hearlier⟩ := h
  exact ⟨e :: earlier, rfl, by rw [Lib.run, hstep, Option.bind_some, hearlier]⟩

theorem Passes.cases_cons {u : σ} {e : ε} {later : List ε} (h : Passes step s (e :: es) u later) :
    u = s ∨ ∃ t, step s e = some t ∧ Passes step t es u later := by
  obtain ⟨earlier, hsplit, hearlier⟩ := h
  cases earlier with
  | nil => exact .inl (Option.some.inj hearlier).symm
  | cons first earlier =>
      obtain ⟨rfl, rfl⟩ := List.cons.inj hsplit
      obtain ⟨t, hfirst, hrest⟩ := run_cons_eq_some hearlier
      exact .inr ⟨t, hfirst, earlier, rfl, hrest⟩

theorem Passes.next {u v : σ} {e : ε} {later : List ε} (h : Passes step s es u (e :: later))
    (hv : step u e = some v) : Passes step s es v later := by
  obtain ⟨earlier, rfl, hearlier⟩ := h
  exact ⟨earlier ++ [e], by simp, run_concat hearlier hv⟩

theorem Meets.invariant {cond : σ → ε → Prop} {Inv : σ → Prop}
    (hmeets : Meets step cond s es)
    (hstep : ∀ s e t, Inv s → cond s e → step s e = some t → Inv t)
    (hs : Inv s) (hrun : run step s es = some t) : Inv t := by
  induction es generalizing s with
  | nil => cases Option.some.inj hrun; exact hs
  | cons e es ih =>
      obtain ⟨u, hu, hrest⟩ := run_cons_eq_some hrun
      obtain ⟨hcond, htail⟩ := hmeets u hu
      exact ih htail (hstep s e u hs hcond hu) hrest

theorem Meets.always {cond : σ → ε → Prop} {Inv P : σ → Prop}
    (hmeets : Meets step cond s es)
    (hstep : ∀ s e t, Inv s → cond s e → step s e = some t → Inv t)
    (hP : ∀ s, Inv s → P s) (hs : Inv s) : Always step P s es := by
  induction es generalizing s with
  | nil => exact hP s hs
  | cons e es ih =>
      refine ⟨hP s hs, fun t ht => ?_⟩
      obtain ⟨hcond, htail⟩ := hmeets t ht
      exact ih htail (hstep s e t hs hcond ht)

theorem Meets.mono {cond cond' : σ → ε → Prop} (himp : ∀ s e, cond s e → cond' s e)
    (hmeets : Meets step cond s es) : Meets step cond' s es := by
  induction es generalizing s with
  | nil => trivial
  | cons e es ih => exact fun t ht => ⟨himp s e (hmeets t ht).1, ih (hmeets t ht).2⟩

theorem Meets.mono_of_invariant {cond cond' : σ → ε → Prop} {Inv : σ → Prop}
    (hinv : ∀ s e t, Inv s → step s e = some t → Inv t)
    (himp : ∀ s e, Inv s → cond s e → cond' s e) (hs : Inv s) (hmeets : Meets step cond s es) :
    Meets step cond' s es := by
  induction es generalizing s with
  | nil => trivial
  | cons e es ih =>
      intro t ht
      obtain ⟨hcond, hrest⟩ := hmeets t ht
      exact ⟨himp s e hs hcond, ih (hinv s e t hs ht) hrest⟩

theorem Meets.of_append {cond : σ → ε → Prop} {fs : List ε}
    (hmeets : Meets step cond s (es ++ fs)) : Meets step cond s es := by
  induction es generalizing s with
  | nil => trivial
  | cons e es ih => exact fun t ht => ⟨(hmeets t ht).1, ih (hmeets t ht).2⟩

theorem Always.mono {P Q : σ → Prop} (himp : ∀ s, P s → Q s) (hall : Always step P s es) :
    Always step Q s es := by
  induction es generalizing s with
  | nil => exact himp s hall
  | cons e es ih => exact ⟨himp s hall.1, fun t ht => ih (hall.2 t ht)⟩

theorem meets_true (es : List ε) : Meets step (fun _ _ => True) s es := by
  induction es generalizing s with
  | nil => trivial
  | cons e es ih => exact fun t _ => ⟨trivial, ih⟩

/-- The invariant rule when the invariant speaks about the events so far. -/
theorem Meets.history {cond : σ → ε → Prop} {Inv : List ε → σ → Prop}
    (hmeets : Meets step cond s es)
    (hstep : ∀ past s e t, Inv past s → cond s e → step s e = some t → Inv (past ++ [e]) t)
    {past : List ε} (hs : Inv past s) (hrun : run step s es = some t) : Inv (past ++ es) t := by
  induction es generalizing s past with
  | nil =>
      cases Option.some.inj hrun
      simpa using hs
  | cons e es ih =>
      obtain ⟨u, hu, hrest⟩ := run_cons_eq_some hrun
      obtain ⟨hcond, htail⟩ := hmeets u hu
      simpa using ih htail (hstep past s e u hs hcond hu) hrest

theorem run_history {Inv : List ε → σ → Prop}
    (hstep : ∀ past s e t, Inv past s → step s e = some t → Inv (past ++ [e]) t)
    {past : List ε} (hs : Inv past s) (hrun : run step s es = some t) : Inv (past ++ es) t :=
  (meets_true es).history (fun past s e t h _ => hstep past s e t h) hs hrun

theorem meets_iff_meets {cond cond' : σ → ε → Prop} {Inv : σ → Prop}
    (hinv : ∀ s e t, Inv s → step s e = some t → Inv t)
    (hiff : ∀ s e t, Inv s → step s e = some t → (cond s e ↔ cond' s e))
    (hs : Inv s) : Meets step cond s es ↔ Meets step cond' s es := by
  induction es generalizing s with
  | nil => exact Iff.rfl
  | cons e es ih =>
      simp only [Meets]
      refine forall_congr' fun t => forall_congr' fun ht => ?_
      rw [hiff s e t hs ht, ih (hinv s e t hs ht)]

/-- A property that a step keeps exactly when the condition is met holds all
along a run exactly when all its steps meet the condition. What may be assumed
of every step is `side`. -/
theorem always_iff_meets {side cond : σ → ε → Prop} {Inv P : σ → Prop}
    (hinv : ∀ s e t, Inv s → side s e → step s e = some t → Inv t)
    (hiff : ∀ s e t, Inv s → side s e → P s → step s e = some t → (P t ↔ cond s e))
    (hside : Meets step side s es) (hs : Inv s) (hP : P s) :
    Always step P s es ↔ Meets step cond s es := by
  induction es generalizing s with
  | nil => simp [Always, Meets, hP]
  | cons e es ih =>
      simp only [Always, Meets, hP, true_and]
      refine forall_congr' fun t => forall_congr' fun ht => ?_
      obtain ⟨hstep, hrest⟩ := hside t ht
      have hPt := hiff s e t hs hstep hP ht
      have hinvt := hinv s e t hs hstep ht
      constructor
      · intro hall
        have ht : P t := by cases es with
          | nil => exact hall
          | cons e es => exact hall.1
        exact ⟨hPt.mp ht, (ih hrest hinvt ht).mp hall⟩
      · rintro ⟨hc, hmeets⟩
        exact (ih hrest hinvt (hPt.mpr hc)).mpr hmeets

theorem always_iff_meets_of_invariant {cond : σ → ε → Prop} {Inv P : σ → Prop}
    (hinv : ∀ s e t, Inv s → step s e = some t → Inv t)
    (hiff : ∀ s e t, Inv s → P s → step s e = some t → (P t ↔ cond s e))
    (hs : Inv s) (hP : P s) : Always step P s es ↔ Meets step cond s es :=
  always_iff_meets (fun s e t hs _ ht => hinv s e t hs ht)
    (fun s e t hs _ hP ht => hiff s e t hs hP ht) (meets_true es) hs hP

end

end LocalDrop.Lib
