import NrfProxy.Runs

/-!
# Simulations between machines

A machine simulates into another where each of its steps which meets an assumption
is some steps of the other, between related states. Its runs are then runs of the
other, and what is proved of the runs of the other, under an assumption of its
own, is known of the first.
-/

set_option autoImplicit false

namespace NrfProxy.Simulation
open NrfProxy.Runs

variable {σ α τ β : Type*}
variable {step : σ → α → Option σ} {step' : τ → β → Option τ}

/-- The steps `lab` of the second machine follow a step of the first. -/
def Simulates (step : σ → α → Option σ) (step' : τ → β → Option τ) (C : σ → α → Prop)
    (lab : σ → α → List β) (R : σ → τ → Prop) : Prop :=
  ∀ s a t u, R s u → C s a → step s a = some t → ∃ v, run step' (lab s a) u = some v ∧ R t v

variable {C : σ → α → Prop} {lab : σ → α → List β} {R : σ → τ → Prop}

theorem Simulates.run (hsim : Simulates step step' C lab R) {as : List α} {s t : σ} {u : τ}
    (hR : R s u) (h : run step as s = some t) (hC : AllSteps step C as s) :
    ∃ v, Runs.run step' (trace step lab as s) u = some v ∧ R t v := by
  induction as generalizing s u with
  | nil =>
    obtain rfl : s = t := Option.some.inj h
    exact ⟨u,rfl,hR⟩
  | cons a as ih =>
    cases ha : step s a with
    | none => simp [Runs.run, ha] at h
    | some r =>
      obtain ⟨v,hv,hr⟩ := hsim s a r u hR hC.1 ha
      obtain ⟨w,hw,ht⟩ := ih hr (by simpa [Runs.run, ha] using h) (by simpa [ha] using hC.2)
      exact ⟨w,by simp [trace, ha, run_append, hv, hw],ht⟩

theorem mem_trace {γ : Type*} {out : σ → α → List γ} {as : List α} {a : α} {s t : σ} {x : γ}
    (h : Runs.run step as s = some t) (ha : a ∈ as) (hx : ∀ r, x ∈ out r a) :
    x ∈ trace step out as s := by
  induction as generalizing s with
  | nil => simp at ha
  | cons b as ih =>
    obtain ⟨r,hr,ht⟩ := Option.bind_eq_some_iff.mp h
    simp only [trace, hr, Option.elim_some, List.mem_append]
    rcases List.mem_cons.mp ha with rfl | ha
    · exact Or.inl (hx s)
    · exact Or.inr (ih ht ha)

theorem Simulates.allSteps (hsim : Simulates step step' C lab R) {D : τ → β → Prop}
    (himp : ∀ s a t u, R s u → C s a → step s a = some t → AllSteps step' D (lab s a) u)
    {as : List α} {s t : σ} {u : τ} (hR : R s u) (h : Runs.run step as s = some t)
    (hC : AllSteps step C as s) : AllSteps step' D (trace step lab as s) u := by
  induction as generalizing s u with
  | nil => trivial
  | cons a as ih =>
    cases ha : step s a with
    | none => simp [Runs.run, ha] at h
    | some r =>
      obtain ⟨v,hv,hr⟩ := hsim s a r u hR hC.1 ha
      have hrest := ih hr (by simpa [Runs.run, ha] using h) (by simpa [ha] using hC.2)
      simp only [trace, ha, Option.elim_some, allSteps_append, hv]
      exact ⟨himp s a r u hR hC.1 ha,hrest⟩

end NrfProxy.Simulation
