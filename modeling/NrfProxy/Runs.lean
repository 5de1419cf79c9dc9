import Mathlib.Data.List.Induction
import Mathlib.Tactic

/-!
# Runs of a partial step function

A machine is a partial function from a state and a label to the next state.
All nondeterminism is in the label, so that a run is a list of labels and is
evaluated like any other program. An assumption about the environment is a
predicate on the label and the state it is taken in, required of every step.
-/

set_option autoImplicit false

namespace NrfProxy.Runs

variable {σ α : Type*} (step : σ → α → Option σ)

def run : List α → σ → Option σ
  | [], s => some s
  | a::as, s => (step s a).bind (run as)

def states : List α → σ → List σ
  | [], s => [s]
  | a::as, s => s :: (step s a).elim [] (states as)

/-- Every step of the run is taken in a state which meets `C`. -/
def AllSteps (C : σ → α → Prop) : List α → σ → Prop
  | [], _ => True
  | a::as, s => C s a ∧ (step s a).elim True (AllSteps C as)

/-- The same for an assumption which may speak of the steps before. -/
def AllAlong (D : List α → σ → α → Prop) : List α → List α → σ → Prop
  | _, [], _ => True
  | xs, a::as, s => D xs s a ∧ (step s a).elim True (AllAlong D (xs++[a]) as)

/-- What the steps of a run put out, in order. -/
def trace {β : Type*} (out : σ → α → List β) : List α → σ → List β
  | [], _ => []
  | a::as, s => out s a++(step s a).elim [] (trace out as)

instance allStepsDecidable (C : σ → α → Prop) [∀ s a, Decidable (C s a)] :
    ∀ (as : List α) (s : σ), Decidable (AllSteps step C as s)
  | [], _ => isTrue trivial
  | a::as, s =>
    match h : step s a with
    | none => decidable_of_iff (C s a) (by simp [AllSteps, h])
    | some t =>
      have := allStepsDecidable C as t
      decidable_of_iff (C s a ∧ AllSteps step C as t) (by simp [AllSteps, h])

instance allAlongDecidable (D : List α → σ → α → Prop) [∀ xs s a, Decidable (D xs s a)] :
    ∀ (xs as : List α) (s : σ), Decidable (AllAlong step D xs as s)
  | _, [], _ => isTrue trivial
  | xs, a::as, s =>
    match h : step s a with
    | none => decidable_of_iff (D xs s a) (by simp [AllAlong, h])
    | some t =>
      have := allAlongDecidable D (xs++[a]) as t
      decidable_of_iff (D xs s a ∧ AllAlong step D (xs++[a]) as t) (by simp [AllAlong, h])

variable {step}

theorem run_append (as bs : List α) (s : σ) :
    run step (as++bs) s = (run step as s).bind (run step bs) := by
  induction as generalizing s with
  | nil => rfl
  | cons a as ih => cases h : step s a <;> simp [run, h, ih]

theorem run_snoc (as : List α) (a : α) (s : σ) :
    run step (as++[a]) s = (run step as s).bind (fun t => step t a) := by
  rw [run_append]
  congr 1
  funext t
  cases h : step t a <;> simp [run, h]

theorem states_snoc (as : List α) (a : α) (s t u : σ)
    (h : run step as s = some t) (hu : step t a = some u) :
    states step (as++[a]) s = states step as s++[u] := by
  induction as generalizing s with
  | nil =>
    obtain rfl : s = t := Option.some.inj h
    simp [states, hu]
  | cons b as ih =>
    cases hb : step s b with
    | none => simp [run, hb] at h
    | some r => simp [states, hb, ih r (by simpa [run, hb] using h)]

theorem last_mem_states (as : List α) (s t : σ) (h : run step as s = some t) :
    t ∈ states step as s := by
  induction as generalizing s with
  | nil =>
    obtain rfl : s = t := Option.some.inj h
    simp [states]
  | cons a as ih =>
    cases ha : step s a with
    | none => simp [run, ha] at h
    | some r => simp [states, ha, ih r (by simpa [run, ha] using h)]

theorem allAlong_snoc (D : List α → σ → α → Prop) (xs as : List α) (a : α) (s t : σ)
    (h : run step as s = some t) :
    AllAlong step D xs (as++[a]) s ↔ AllAlong step D xs as s ∧ D (xs++as) t a := by
  induction as generalizing s xs with
  | nil =>
    obtain rfl : s = t := Option.some.inj h
    cases hs : step s a <;> simp [AllAlong, hs]
  | cons b as ih =>
    cases hb : step s b with
    | none => simp [run, hb] at h
    | some r =>
      have hr := ih (xs++[b]) r (by simpa [run, hb] using h)
      simp [AllAlong, hb, hr, and_assoc]

theorem allAlong_const (C : σ → α → Prop) (xs as : List α) (s : σ) :
    AllAlong step (fun _ => C) xs as s ↔ AllSteps step C as s := by
  induction as generalizing s xs with
  | nil => exact Iff.rfl
  | cons a as ih => cases h : step s a <;> simp [AllAlong, AllSteps, h, ih]

theorem allSteps_snoc (C : σ → α → Prop) (as : List α) (a : α) (s t : σ)
    (h : run step as s = some t) :
    AllSteps step C (as++[a]) s ↔ AllSteps step C as s ∧ C t a := by
  rw [← allAlong_const C [], ← allAlong_const C []]
  exact allAlong_snoc (fun _ => C) [] as a s t h

theorem trace_singleton {β : Type*} (out : σ → α → List β) (a : α) (s : σ) :
    trace step out [a] s = out s a := by
  cases h : step s a <;> simp [trace, h]

theorem trace_mem {β : Type*} {out : σ → α → List β} {as : List α} {s : σ} {x : β}
    (h : x ∈ trace step out as s) : ∃ t a, x ∈ out t a := by
  induction as generalizing s with
  | nil => simp [trace] at h
  | cons a as ih =>
    rcases List.mem_append.mp h with hx | hx
    · exact ⟨s,a,hx⟩
    · cases ha : step s a with
      | none => simp [ha] at hx
      | some r => exact ih (by simpa [ha] using hx)

theorem trace_map {β γ : Type*} (f : β → γ) (out : σ → α → List β) (as : List α) (s : σ) :
    (trace step out as s).map f = trace step (fun s a => (out s a).map f) as s := by
  induction as generalizing s with
  | nil => rfl
  | cons a as ih => cases h : step s a <;> simp [trace, h, ih]

theorem trace_filter {β : Type*} (p : β → Bool) (out : σ → α → List β) (as : List α) (s : σ) :
    (trace step out as s).filter p = trace step (fun s a => (out s a).filter p) as s := by
  induction as generalizing s with
  | nil => rfl
  | cons a as ih => cases h : step s a <;> simp [trace, h, ih]

theorem trace_snoc {β : Type*} (out : σ → α → List β) (as : List α) (a : α) (s t : σ)
    (h : run step as s = some t) :
    trace step out (as++[a]) s = trace step out as s++out t a := by
  induction as generalizing s with
  | nil =>
    obtain rfl : s = t := Option.some.inj h
    cases hs : step s a <;> simp [trace, hs]
  | cons b as ih =>
    cases hb : step s b with
    | none => simp [run, hb] at h
    | some r => simp [trace, hb, ih r (by simpa [run, hb] using h)]

section Parts

variable {τ β : Type*} {step' : τ → β → Option τ} {lab : σ → α → List β} {proj : σ → τ}

theorem run_part
    (hpart : ∀ s a t, step s a = some t → run step' (lab s a) (proj s) = some (proj t))
    {as : List α} {s t : σ} (h : run step as s = some t) :
    run step' (trace step lab as s) (proj s) = some (proj t) := by
  induction as generalizing s with
  | nil =>
    obtain rfl : s = t := Option.some.inj h
    rfl
  | cons a as ih =>
    cases ha : step s a with
    | none => simp [run, ha] at h
    | some r =>
      have hr := ih (show run step as r = some t by simpa [run, ha] using h)
      simp only [trace, ha, Option.elim_some, run_append, hpart s a r ha, Option.bind_some, hr]

theorem trace_append {γ : Type*} (out : σ → α → List γ) (as bs : List α) (s t : σ)
    (h : run step as s = some t) :
    trace step out (as++bs) s = trace step out as s++trace step out bs t := by
  induction as generalizing s with
  | nil =>
    obtain rfl : s = t := Option.some.inj h
    rfl
  | cons a as ih =>
    cases ha : step s a with
    | none => simp [run, ha] at h
    | some r => simp [trace, ha, ih r (by simpa [run, ha] using h)]

theorem trace_part {γ : Type*} (out : τ → β → List γ)
    (hpart : ∀ s a t, step s a = some t → run step' (lab s a) (proj s) = some (proj t))
    {as : List α} {s t : σ} (h : run step as s = some t) :
    trace step' out (trace step lab as s) (proj s) =
      trace step (fun s a => trace step' out (lab s a) (proj s)) as s := by
  induction as generalizing s with
  | nil => rfl
  | cons a as ih =>
    cases ha : step s a with
    | none => simp [run, ha] at h
    | some r =>
      have hr := ih (show run step as r = some t by simpa [run, ha] using h)
      simp only [trace, ha, Option.elim_some]
      rw [trace_append out _ _ _ _ (hpart s a r ha), hr]

end Parts

/-- The history rule. The invariant may speak of the whole run so far, and a
step has to keep it only where the assumption about the step holds. -/
theorem history_along {D : List α → σ → α → Prop} {s₀ : σ} {I : List α → σ → Prop} (h0 : I [] s₀)
    (hstep : ∀ as s a t, run step as s₀ = some s → I as s → D as s a →
      step s a = some t → I (as++[a]) t)
    {as : List α} {s : σ} (h : run step as s₀ = some s) (hD : AllAlong step D [] as s₀) :
    I as s := by
  induction as using List.reverseRecOn generalizing s with
  | nil =>
    obtain rfl : s₀ = s := Option.some.inj h
    exact h0
  | append_singleton as a ih =>
    rw [run_snoc] at h
    obtain ⟨t,ht,hs⟩ := Option.bind_eq_some_iff.mp h
    obtain ⟨hDs,hDa⟩ := (allAlong_snoc D [] as a s₀ t ht).mp hD
    exact hstep as t a s ht (ih ht hDs) hDa hs

theorem allAlong_history {s₀ : σ} {I : List α → σ → Prop} (h0 : I [] s₀)
    (hstep : ∀ as s a t, run step as s₀ = some s → I as s → step s a = some t → I (as++[a]) t)
    {as : List α} {s : σ} (h : run step as s₀ = some s) :
    AllAlong step (fun xs s _ => I xs s) [] as s₀ := by
  have hI : I as s ∧ AllAlong step (fun xs s _ => I xs s) [] as s₀ := by
    induction as using List.reverseRecOn generalizing s with
    | nil =>
      obtain rfl : s₀ = s := Option.some.inj h
      exact ⟨h0,trivial⟩
    | append_singleton as a ih =>
      rw [run_snoc] at h
      obtain ⟨t,ht,hs⟩ := Option.bind_eq_some_iff.mp h
      obtain ⟨hi,hall⟩ := ih ht
      exact ⟨hstep as t a s ht hi hs,(allAlong_snoc _ [] as a s₀ t ht).mpr ⟨hall,hi⟩⟩
  exact hI.2

theorem history {C : σ → α → Prop} {s₀ : σ} {I : List α → σ → Prop} (h0 : I [] s₀)
    (hstep : ∀ as s a t, run step as s₀ = some s → I as s → C s a →
      step s a = some t → I (as++[a]) t)
    {as : List α} {s : σ} (h : run step as s₀ = some s) (hC : AllSteps step C as s₀) :
    I as s :=
  history_along h0 hstep h ((allAlong_const C [] as s₀).mpr hC)

theorem invariant_of {C : σ → α → Prop} {s₀ : σ} {I : σ → Prop} (h0 : I s₀)
    (hstep : ∀ s a t, I s → C s a → step s a = some t → I t)
    {as : List α} {s : σ} (h : run step as s₀ = some s) (hC : AllSteps step C as s₀) : I s :=
  history (I := fun _ s => I s) h0 (fun _ s a t _ hi hc hs => hstep s a t hi hc hs) h hC

theorem allSteps_true (as : List α) (s : σ) : AllSteps step (fun _ _ => True) as s := by
  induction as generalizing s with
  | nil => trivial
  | cons a as ih => cases h : step s a <;> simp [AllSteps, h, ih]

theorem invariant {s₀ : σ} {I : σ → Prop} (h0 : I s₀)
    (hstep : ∀ s a t, I s → step s a = some t → I t)
    {as : List α} {s : σ} (h : run step as s₀ = some s) : I s :=
  invariant_of (C := fun _ _ => True) h0 (fun s a t hi _ hs => hstep s a t hi hs) h
    (allSteps_true as s₀)

theorem allSteps_and {C D : σ → α → Prop} {as : List α} {s : σ}
    (hC : AllSteps step C as s) (hD : AllSteps step D as s) :
    AllSteps step (fun s a => C s a ∧ D s a) as s := by
  induction as generalizing s with
  | nil => trivial
  | cons a as ih =>
    cases h : step s a with
    | none => simp_all [AllSteps]
    | some t =>
      simp only [AllSteps, h, Option.elim_some] at *
      exact ⟨⟨hC.1,hD.1⟩,ih hC.2 hD.2⟩

/-- Under an invariant, one assumption may bring another with it. -/
theorem allSteps_imp {C D : σ → α → Prop} {I : σ → Prop}
    (hstep : ∀ s a t, I s → C s a → step s a = some t → I t)
    (himp : ∀ s a, I s → C s a → D s a) {as : List α} {s : σ} (hs : I s)
    (hC : AllSteps step C as s) : AllSteps step D as s := by
  induction as generalizing s with
  | nil => trivial
  | cons a as ih =>
    refine ⟨himp s a hs hC.1,?_⟩
    cases ha : step s a with
    | none => trivial
    | some t => exact ih (hstep s a t hs hC.1 ha) (by simpa [ha] using hC.2)

theorem allSteps_mono {C D : σ → α → Prop} (hCD : ∀ s a, C s a → D s a) {as : List α} {s : σ}
    (hC : AllSteps step C as s) : AllSteps step D as s :=
  allSteps_imp (I := fun _ => True) (fun _ _ _ _ _ _ => trivial) (fun s a _ => hCD s a) trivial hC

theorem allSteps_append (C : σ → α → Prop) (as bs : List α) (s : σ) :
    AllSteps step C (as++bs) s ↔
      AllSteps step C as s ∧ (run step as s).elim True (AllSteps step C bs) := by
  induction as generalizing s with
  | nil => simp [AllSteps, run]
  | cons a as ih => cases h : step s a <;> simp [AllSteps, run, h, ih, and_assoc]

variable (step) in
/-- Steps which meet `C` lead from one state to the other. -/
def Leads (C : σ → α → Prop) (s t : σ) : Prop :=
  ∃ as, AllSteps step C as s ∧ run step as s = some t

section Leads

variable {C D : σ → α → Prop} {s t u : σ}

theorem Leads.refl (s : σ) : Leads step C s s := ⟨[],trivial,rfl⟩

theorem Leads.trans (hst : Leads step C s t) (htu : Leads step C t u) : Leads step C s u := by
  obtain ⟨as,has,ht⟩ := hst
  obtain ⟨bs,hbs,hu⟩ := htu
  exact ⟨as++bs,(allSteps_append C as bs s).mpr ⟨has,by rw [ht]; exact hbs⟩,
    by rw [run_append, ht]; exact hu⟩

theorem Leads.snoc {a : α} (hst : Leads step C s t) (ha : C t a) (h : step t a = some u) :
    Leads step C s u :=
  hst.trans ⟨[a],⟨ha,by rw [h]; trivial⟩,by simp [run, h]⟩

theorem Leads.imp (hCD : ∀ s a, C s a → D s a) (h : Leads step C s t) : Leads step D s t := by
  obtain ⟨as,has,ht⟩ := h
  exact ⟨as,allSteps_mono hCD has,ht⟩

/-- A way on is one of another machine, where the steps are. -/
theorem Leads.map {τ β : Type*} {step' : τ → β → Option τ} {E : τ → β → Prop} (f : σ → τ)
    (g : α → β) (hstep : ∀ s a t, step s a = some t → step' (f s) (g a) = some (f t))
    (hCE : ∀ s a, C s a → E (f s) (g a)) (h : Leads step C s t) : Leads step' E (f s) (f t) := by
  obtain ⟨as,has,ht⟩ := h
  induction as generalizing s with
  | nil =>
    obtain rfl : s = t := Option.some.inj ht
    exact Leads.refl _
  | cons a as ih =>
    obtain ⟨r,hr,ht⟩ := Option.bind_eq_some_iff.mp ht
    have hrest := ih (by simpa [hr] using has.2) ht
    exact ((Leads.refl _).snoc (hCE s a has.1) (hstep s a r hr)).trans hrest

end Leads

/-- The progress rule. Where a step of `C` which lowers a measure can be taken until
the machine rests, steps of `C` bring it to rest. -/
theorem exists_rest_along {P rest : σ → Prop} {C : σ → α → Prop} (left : σ → ℕ)
    (hstep : ∀ s, P s → ¬rest s → ∃ a t, C s a ∧ step s a = some t ∧ P t ∧ left t < left s)
    {s : σ} (hs : P s) : ∃ as t, AllSteps step C as s ∧ run step as s = some t ∧ P t ∧ rest t := by
  induction hn : left s using Nat.strongRecOn generalizing s with
  | ind n ih =>
    by_cases hr : rest s
    · exact ⟨[],s,trivial,rfl,hs,hr⟩
    obtain ⟨a,t,hc,ha,ht,hlt⟩ := hstep s hs hr
    obtain ⟨as,u,hcs,hu,hpu,hru⟩ := ih (left t) (hn ▸ hlt) ht rfl
    exact ⟨a::as,u,⟨hc,by simpa [ha] using hcs⟩,by simp [run, ha, hu],hpu,hru⟩

theorem allSteps_mem {Q : α → Prop} {as : List α} {s t : σ} (h : run step as s = some t)
    (hQ : AllSteps step (fun _ a => Q a) as s) : ∀ a ∈ as, Q a := by
  induction as generalizing s with
  | nil => simp
  | cons a as ih =>
    obtain ⟨r,hr,ht⟩ := Option.bind_eq_some_iff.mp h
    exact List.forall_mem_cons.mpr ⟨hQ.1,ih ht (by simpa [hr] using hQ.2)⟩

theorem exists_rest {P rest : σ → Prop} {Q : α → Prop} (left : σ → ℕ)
    (hstep : ∀ s, P s → ¬rest s → ∃ a t, Q a ∧ step s a = some t ∧ P t ∧ left t < left s)
    {s : σ} (hs : P s) : ∃ as t, (∀ a ∈ as, Q a) ∧ run step as s = some t ∧ P t ∧ rest t := by
  obtain ⟨as,t,hC,ht,hp,hr⟩ := exists_rest_along (C := fun _ a => Q a) left hstep hs
  exact ⟨as,t,allSteps_mem ht hC,ht,hp,hr⟩

theorem allSteps_label {Q : α → Prop} {as : List α} (s : σ) (h : ∀ a ∈ as, Q a) :
    AllSteps step (fun _ a => Q a) as s := by
  induction as generalizing s with
  | nil => trivial
  | cons a as ih =>
    refine ⟨h a (by simp),?_⟩
    cases step s a with
    | none => trivial
    | some t => exact ih t (fun b hb => h b (by simp [hb]))

/-- The potential rule. Where each step pays its cost from a measure, a run costs no more
than there is. -/
theorem run_potential {P : σ → Prop} {C : σ → α → Prop} {cost : α → ℕ} (left : σ → ℕ)
    (hstep : ∀ s a t, P s → C s a → step s a = some t → P t ∧ cost a+left t ≤ left s)
    {as : List α} {s t : σ} (hs : P s) (hC : AllSteps step C as s) (h : run step as s = some t) :
    (as.map cost).sum+left t ≤ left s := by
  induction as generalizing s with
  | nil =>
    obtain rfl : s = t := Option.some.inj h
    simp
  | cons a as ih =>
    obtain ⟨r,hr,ht⟩ := Option.bind_eq_some_iff.mp h
    obtain ⟨hpr,hle⟩ := hstep s a r hs hC.1 hr
    have hrest := ih hpr (by simpa [hr] using hC.2) ht
    simp only [List.map_cons, List.sum_cons]
    omega

/-- The conservation rule. Where each step puts out what it takes from a stock, a run puts
out what is missing from it. -/
theorem run_conserves {β : Type*} {P : σ → Prop} {C : σ → α → Prop} {out : σ → α → List β}
    (stock : σ → List β)
    (hstep : ∀ s a t, P s → C s a → step s a = some t → P t ∧ out s a++stock t = stock s)
    {as : List α} {s t : σ} (hs : P s) (hC : AllSteps step C as s) (h : run step as s = some t) :
    P t ∧ trace step out as s++stock t = stock s := by
  induction as generalizing s with
  | nil =>
    obtain rfl : s = t := Option.some.inj h
    exact ⟨hs,rfl⟩
  | cons a as ih =>
    obtain ⟨r,hr,ht⟩ := Option.bind_eq_some_iff.mp h
    obtain ⟨hpr,hstock⟩ := hstep s a r hs hC.1 hr
    obtain ⟨hpt,hrest⟩ := ih hpr (by simpa [hr] using hC.2) ht
    refine ⟨hpt,?_⟩
    simp only [trace, hr, Option.elim_some]
    rw [List.append_assoc, hrest, hstock]

theorem countP_eq_sum (p : α → Bool) (as : List α) :
    as.countP p = (as.map (fun a => (p a).toNat)).sum := by
  induction as with
  | nil => rfl
  | cons a as ih => cases ha : p a <;> simp [ha, ih, Nat.add_comm]

end NrfProxy.Runs
