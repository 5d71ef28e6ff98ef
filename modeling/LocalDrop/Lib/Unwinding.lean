import LocalDrop.Lib.Runs

/-! Two runs that an observer cannot tell apart. The observer has a view of every step, or none
at all, and what it sees of a state does not change with a step it does not see. Then runs that
it sees the same of, from states that look alike, end in states that look alike. -/
namespace LocalDrop.Lib

variable {σ ε κ : Type} {step : σ → ε → Option σ} {view : σ → ε → Option κ} {Alike : σ → σ → Prop}

def observed (step : σ → ε → Option σ) (view : σ → ε → Option κ) : σ → List ε → List κ
  | _, [] => []
  | s, e :: es => (view s e).toList ++ (step s e).elim [] fun t => observed step view t es

theorem observed_cons {s t : σ} {e : ε} (h : step s e = some t) (es : List ε) :
    observed step view s (e :: es) = (view s e).toList ++ observed step view t es := by
  rw [observed, h, Option.elim_some]

theorem alike_of_hidden {s s' t : σ} {es : List ε}
    (hhidden : ∀ s s' e t, Alike s s' → view s e = none → step s e = some t → Alike t s')
    (hs : Alike s s') (hall : observed step view s es = []) (hrun : run step s es = some t) :
    Alike t s' := by
  induction es generalizing s with
  | nil =>
      cases Option.some.inj hrun
      exact hs
  | cons e es ih =>
      obtain ⟨u, hu, hrest⟩ := run_cons_eq_some hrun
      rw [observed_cons hu, List.append_eq_nil_iff, Option.toList_eq_nil_iff] at hall
      exact ih (hhidden s s' e u hs hall.1 hu) hall.2 hrest

theorem observed_eq_cons {s t : σ} {es : List ε} {seen : κ} {rest : List κ}
    (h : observed step view s es = seen :: rest) (hrun : run step s es = some t) :
    ∃ before e after u v, es = before ++ e :: after ∧ observed step view s before = [] ∧
      run step s before = some u ∧ view u e = some seen ∧ step u e = some v ∧
      observed step view v after = rest ∧ run step v after = some t := by
  induction es generalizing s with
  | nil => contradiction
  | cons e es ih =>
      obtain ⟨u, hu, hrest⟩ := run_cons_eq_some hrun
      rw [observed_cons hu] at h
      cases hview : view s e with
      | none =>
          rw [hview] at h
          obtain ⟨before, e', after, v, w, rfl, hbefore, hv, hview', hw, hafter, htail⟩ :=
            ih h hrest
          refine ⟨e :: before, e', after, v, w, rfl, ?_, ?_, hview', hw, hafter, htail⟩
          · rw [observed_cons hu, hview, hbefore]
            rfl
          · exact Option.bind_eq_some_iff.mpr ⟨u, hu, hv⟩
      | some first =>
          rw [hview] at h
          obtain ⟨rfl, rfl⟩ := List.cons.inj h
          exact ⟨[], e, es, s, u, rfl, rfl, rfl, hview, hu, rfl, hrest⟩

theorem Meets.of_append_right {cond : σ → ε → Prop} {s u : σ} {es fs : List ε}
    (hmeets : Meets step cond s (es ++ fs)) (hrun : run step s es = some u) :
    Meets step cond u fs := by
  induction es generalizing s with
  | nil =>
      cases Option.some.inj hrun
      exact hmeets
  | cons e es ih =>
      obtain ⟨v, hv, hrest⟩ := run_cons_eq_some hrun
      exact ih (hmeets v hv).2 hrest

/-- The unwinding rule: steps that look the same keep what looks alike alike, where they meet a
condition. -/
theorem alike_run {cond : σ → ε → Prop} {s s' t t' : σ} {es es' : List ε}
    (hsymm : ∀ s s', Alike s s' → Alike s' s)
    (hhidden : ∀ s s' e t, Alike s s' → view s e = none → step s e = some t → Alike t s')
    (hstep : ∀ s s' e e' seen t t', Alike s s' → view s e = some seen → view s' e' = some seen →
      cond s e → cond s' e' → step s e = some t → step s' e' = some t' → Alike t t')
    (hs : Alike s s') (hsame : observed step view s es = observed step view s' es')
    (hmeets : Meets step cond s es) (hmeets' : Meets step cond s' es')
    (hrun : run step s es = some t) (hrun' : run step s' es' = some t') : Alike t t' := by
  induction es generalizing s s' es' with
  | nil =>
      cases Option.some.inj hrun
      exact hsymm _ _ (alike_of_hidden hhidden (hsymm _ _ hs) hsame.symm hrun')
  | cons e es ih =>
      obtain ⟨u, hu, hrest⟩ := run_cons_eq_some hrun
      obtain ⟨hcond, hlater⟩ := hmeets u hu
      rw [observed_cons hu] at hsame
      cases hview : view s e with
      | none =>
          rw [hview] at hsame
          exact ih (hhidden s s' e u hs hview hu) hsame hlater hmeets' hrest hrun'
      | some seen =>
          -- the other run comes to a step that looks the same, behind hidden ones
          rw [hview] at hsame
          obtain ⟨before, e', after, v, w, rfl, hbefore, hv, hview', hw, hafter, hrest'⟩ :=
            observed_eq_cons hsame.symm hrun'
          have hcaught := hsymm _ _ (alike_of_hidden hhidden (hsymm _ _ hs) hbefore hv)
          obtain ⟨hcond', hlater'⟩ := hmeets'.of_append_right hv w hw
          exact ih (hstep s v e e' seen u w hcaught hview hview' hcond hcond' hu hw) hafter.symm
            hlater hlater' hrest hrest'

end LocalDrop.Lib
