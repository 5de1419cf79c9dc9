import NrfProxy.AdvertiserInvariant

/-!
# The device is never dark

A free connection object is somebody's business: a recycled callback or the
retry item is to come, or a thread is on its way to a start or to the retry.
Each of them may leave it only to another one.
-/

set_option autoImplicit false

namespace NrfProxy.AdvertiserRecovery
open NrfProxy.Runs NrfProxy.Delayable NrfProxy.ProxyCore NrfProxy.MainState NrfProxy.Advertiser
open NrfProxy.AdvertiserInvariant

/-- The thread will start an advertiser, or schedule the retry, unless it finds
one or a link. -/
def recovering : Pc → Bool
  | .refresh _ => true
  | .start .guard | .start .start | .start .retry => true
  | .start (.store err) => err ≠ 0
  | .start .slow => false
  | .slow (.nested _) | .slow .start | .slow .check | .slow .retry => true
  | .slow (.store err) => err ≠ 0
  | .slow .guard | .slow .stop | .slow .stopFailed | .slow .delay | .slow .leave => false

def Recovering (s : State) : Prop :=
  0 < s.radio.owed ∨ s.radio.main.advRetryWork.pending = true ∨
    ∃ T pc, s.threads T = some pc ∧ recovering pc = true

/-- A free object is not left alone. -/
def Lit (s : State) : Prop := s.radio.obj = .free → Recovering s

theorem init_lit (bonds : List ℕ) : Lit (init bonds) :=
  fun _ => Or.inr (Or.inr ⟨.boot,.refresh .count,rfl,rfl⟩)

def Handed (r r' : Radio) (pc : Pc) (q : Option Pc) : Prop :=
  r'.obj = .free → (∃ p, q = some p ∧ recovering p = true) ∨ 0 < r'.owed ∨
    r'.main.advRetryWork.pending = true ∨ recovering pc = false ∧ r.obj = .free

theorem startNext_handed {r r' : Radio} {err : ℤ} {pc : StartPc} {q : Option StartPc}
    (hg : pc = .guard → r.obj = .free → r.main.advActive = false ∧ r.main.currentConn = false)
    (h : startNext r err pc = some (r',q)) :
    Handed r r' (.start pc) (q.map .start) := by
  intro hfree
  cases pc with
  | guard =>
    obtain ⟨rfl,rfl⟩ := Prod.mk.inj (Option.some.inj h)
    obtain ⟨hact,hconn⟩ := hg rfl hfree
    simp [proxyShouldStartAdv, advState, hact, hconn, recovering]
  | start =>
    simp only [startNext, Option.map_eq_some_iff, Prod.mk.injEq] at h
    obtain ⟨d,hd,rfl,rfl⟩ := h
    rcases (btLeAdvStart_some hd).2 with ⟨_,_,hl⟩ | ⟨he,_⟩
    · rw [hfree] at hl
      simp [Obj.live] at hl
    · exact Or.inl ⟨_,rfl,by simpa [recovering] using he⟩
  | store err =>
    obtain ⟨rfl,rfl⟩ := Prod.mk.inj (Option.some.inj h)
    by_cases he : err = 0
    · exact Or.inr (Or.inr (Or.inr ⟨by simp [recovering, he],hfree⟩))
    · exact Or.inl ⟨.start .retry,by simp [he],rfl⟩
  | retry =>
    obtain ⟨rfl,rfl⟩ := Prod.mk.inj (Option.some.inj h)
    exact Or.inr (Or.inr (Or.inl rfl))
  | slow =>
    obtain ⟨rfl,rfl⟩ := Prod.mk.inj (Option.some.inj h)
    exact Or.inr (Or.inr (Or.inr ⟨rfl,hfree⟩))

theorem slowNext_handed {r r' : Radio} {err : ℤ} {sync : Bool} {pc : SlowPc} {q : Option SlowPc}
    (hg : pc = .check → r.obj = .free → r.main.currentConn = false)
    (h : slowNext r err sync pc = some (r',q)) :
    Handed r r' (.slow pc) (q.map .slow) := by
  intro hfree
  cases slow_move h with
  | pass | enter | refused | stopFailed | delay | leave =>
    exact Or.inr (Or.inr (Or.inr ⟨rfl,hfree⟩))
  | recycled | nothing => exact Or.inl ⟨_,rfl,rfl⟩
  | stopped => exact Or.inr (Or.inl (Nat.succ_pos _))
  | @nested _ _ p _ => cases p <;> exact Or.inl ⟨_,rfl,rfl⟩
  | start hd =>
    rcases (btLeAdvStart_some hd).2 with ⟨_,_,hl⟩ | ⟨he,_⟩
    · rw [hfree] at hl
      simp [Obj.live] at hl
    · exact Or.inl ⟨_,rfl,by simpa [recovering] using he⟩
  | stored => exact Or.inr (Or.inr (Or.inr ⟨rfl,hfree⟩))
  | failed | alone => exact Or.inl ⟨_,rfl,rfl⟩
  | linked hconn => simp [hg rfl hfree] at hconn
  | retry => exact Or.inr (Or.inr (Or.inl rfl))

structure Keeps (r r' : Radio) : Prop where
  owed : r.owed ≤ r'.owed
  retry : r.main.advRetryWork.pending = true → r'.main.advRetryWork.pending = true
  handler : r'.main.advRetryWork.handler = r.main.advRetryWork.handler

theorem radio_keeps {r r' : Radio} (h : RadioMove r r') : Keeps r r' := by
  cases h with
  | start h =>
    unfold btLeAdvStart at h
    split_ifs at h <;> obtain rfl := Option.some.inj h <;> exact ⟨le_refl _,id,rfl⟩
  | stop _ ho => exact ⟨ho,id,rfl⟩
  | retry => exact ⟨le_refl _,fun _ => rfl,rfl⟩
  | _ => exact ⟨le_refl _,id,rfl⟩

theorem pcNext_keeps {r r' : Radio} {err : ℤ} {sync : Bool} {pc : Pc} {q : Option Pc}
    (h : pcNext r err sync pc = some (r',q)) : Keeps r r' := by
  cases pc with
  | refresh pc =>
    obtain ⟨rfl,_⟩ := Prod.mk.inj (Option.some.inj h)
    obtain ⟨_,_,hretry,_,howed⟩ := refreshNext_main r err pc
    exact ⟨howed.ge,fun hp => hretry ▸ hp,by rw [hretry]⟩
  | start pc =>
    simp only [pcNext, Option.map_eq_some_iff, Prod.mk.injEq] at h
    obtain ⟨⟨d,p⟩,hd,rfl,_⟩ := h
    exact radio_keeps (startNext_radio hd)
  | slow pc =>
    simp only [pcNext, Option.map_eq_some_iff, Prod.mk.injEq] at h
    obtain ⟨⟨d,p⟩,hd,rfl,_⟩ := h
    exact radio_keeps (slowNext_radio hd)

variable {s t : State} {a : Label}

theorem free_flags (hs : Truthful s) (hf : s.radio.obj = .free) :
    s.radio.main.currentConn = false ∧
      (locked s.threads = false → s.radio.main.advActive = false) := by
  obtain ⟨hp,hc⟩ := hs.host.pooled (Or.inl hf)
  refine ⟨hc,?_⟩
  intro hl
  rcases hs.truth hl with (ho | ⟨err,hh⟩) | he
  · simp [hf] at ho
  · simp [hh, hostPc] at hp
  · rw [he, hf]
    rfl

/-- What a thread is on its way to does not depend on the step of another. -/
theorem other_thread {threads : Threads} {T : Thread} {pc : Pc} {q : Option Pc} {way : Pc → Bool}
    (hT : threads T = some pc) (hpc : way pc = false)
    (h : ∃ T' p, threads T' = some p ∧ way p = true) :
    ∃ T' p, setThread threads T q T' = some p ∧ way p = true := by
  obtain ⟨T',p,hT',hp⟩ := h
  have hne : T' ≠ T := by
    rintro rfl
    rw [hT] at hT'
    cases hT'
    rw [hpc] at hp
    contradiction
  exact ⟨T',p,by rw [setThread_of_ne hne, hT'],hp⟩

theorem run_lit {T : Thread} {err : ℤ} {sync : Bool} (hs : Truthful s) (hlit : Lit s)
    (h : step s (.run T err sync) = some t) : Lit t := by
  obtain ⟨pc,r,q,hT,hfree,hn,rfl⟩ := step_run.mp h
  have hk := pcNext_keeps hn
  have hhand : Handed s.radio r pc q := by
    cases pc with
    | refresh pc =>
      obtain ⟨_,rfl⟩ := Prod.mk.inj (Option.some.inj hn)
      intro _
      cases (refreshNext s.radio err pc).2 <;> exact Or.inl ⟨_,rfl,rfl⟩
    | start pc =>
      simp only [pcNext, Option.map_eq_some_iff, Prod.mk.injEq] at hn
      obtain ⟨⟨d,p⟩,hd,rfl,rfl⟩ := hn
      refine startNext_handed ?_ hd
      rintro rfl hf
      exact ⟨(free_flags hs hf).2 (hfree rfl),(free_flags hs hf).1⟩
    | slow pc =>
      simp only [pcNext, Option.map_eq_some_iff, Prod.mk.injEq] at hn
      obtain ⟨⟨d,p⟩,hd,rfl,rfl⟩ := hn
      exact slowNext_handed (fun _ hf => (free_flags hs hf).1) hd
  intro hf
  rcases hhand hf with ⟨p,rfl,hp⟩ | ho | hp | ⟨hpc,hold⟩
  · exact Or.inr (Or.inr ⟨T,p,by simp,hp⟩)
  · exact Or.inl ho
  · exact Or.inr (Or.inl hp)
  · rcases hlit hold with ho | hp | hw
    · exact Or.inl (ho.trans_le hk.owed)
    · exact Or.inr (Or.inl (hk.retry hp))
    · exact Or.inr (Or.inr (other_thread hT hpc hw))

theorem Lit.frame (hlit : Lit s) (hf : t.radio.obj = .free → s.radio.obj = .free)
    (ho : s.radio.owed ≤ t.radio.owed)
    (hk : s.radio.main.advRetryWork.pending = true → t.radio.main.advRetryWork.pending = true)
    (hth : ∀ T pc, s.threads T = some pc → t.threads T = some pc) :
    Lit t := by
  intro hfree
  rcases hlit (hf hfree) with hw | hp | ⟨T,pc,hT,hpc⟩
  · exact Or.inl (hw.trans_le ho)
  · exact Or.inr (Or.inl (hk hp))
  · exact Or.inr (Or.inr ⟨T,pc,hth T pc hT,hpc⟩)

theorem begun_kept {threads : Threads} {T : Thread} {q : Option Pc} (hT : threads T = none)
    (T' : Thread) (pc : Pc) (h : threads T' = some pc) : setThread threads T q T' = some pc := by
  have hne : T' ≠ T := by
    rintro rfl
    rw [hT] at h
    contradiction
  rw [setThread_of_ne hne, h]

theorem host_keeps {err : ℤ} (h : step s (.host err) = some t) :
    t.radio.obj = s.radio.obj ∧ Keeps s.radio t.radio ∧ t.threads = s.threads := by
  obtain ⟨_,r,host,hn,rfl⟩ := step_host.mp h
  cases hh : s.host with
  | refresh pc =>
    rw [hh] at hn
    obtain ⟨rfl,_⟩ := Prod.mk.inj (Option.some.inj hn)
    obtain ⟨_,_,hretry,hobj,howed⟩ := refreshNext_main s.radio err pc
    exact ⟨hobj,⟨howed.ge,fun hp => hretry ▸ hp,by rw [hretry]⟩,rfl⟩
  | callback p =>
    rw [hh] at hn
    simp only [hostStep, Option.map_eq_some_iff, Prod.mk.injEq] at hn
    obtain ⟨⟨n,q⟩,hn,rfl,_⟩ := hn
    have hretry := (hostNext_keeps hn).advRetryWork
    exact ⟨rfl,⟨le_refl _,fun hp => hretry ▸ hp,by rw [hretry]⟩,rfl⟩

/-- Nothing cancels the retry item, and no submission of it is refused. -/
def Uncancelled (s : State) : Prop := s.radio.main.advRetryWork.handler = .returned

theorem Uncancelled.submitted (hu : Uncancelled s) :
    (item s.radio.main .advRetry).handler ≠ .canceling := by
  intro hc
  cases hu.symm.trans hc

theorem step_uncancelled (hu : Uncancelled s) (h : step s a = some t) : Uncancelled t := by
  cases a with
  | wait ms =>
    obtain rfl := step_wait.mp h
    exact hu
  | expire w =>
    obtain ⟨v,hv,rfl⟩ := step_expire.mp h
    cases w with
    | advSlow => exact hu
    | advRetry => exact (expire_handler hv).trans hu
  | enter w =>
    obtain ⟨_,v,_,rfl⟩ := step_enter.mp h
    cases w with
    | advSlow => exact hu
    | advRetry => rfl
  | run T err sync =>
    obtain ⟨pc,r,q,_,_,hn,rfl⟩ := step_run.mp h
    exact (pcNext_keeps hn).handler.trans hu
  | recycled =>
    obtain ⟨_,_,rfl⟩ := step_recycled.mp h
    exact hu
  | attempt =>
    obtain ⟨_,rfl⟩ := step_attempt.mp h
    exact hu
  | connected err =>
    obtain ⟨_,_,rfl⟩ := step_connected.mp h
    exact hu
  | security level err =>
    obtain ⟨_,_,rfl⟩ := step_security.mp h
    exact hu
  | pairingComplete addr =>
    obtain ⟨_,_,rfl⟩ := step_pairingComplete.mp h
    exact hu
  | disconnected =>
    obtain ⟨_,_,rfl⟩ := step_disconnected.mp h
    exact hu
  | host err => exact (host_keeps h).2.1.handler.trans hu
  | returned =>
    obtain ⟨_,_,rfl⟩ := step_returned.mp h
    exact hu

theorem step_lit (hs : Truthful s) (hu : Uncancelled s) (hlit : Lit s) (h : step s a = some t) :
    Lit t := by
  cases a with
  | run T err sync => exact run_lit hs hlit h
  | wait ms =>
    obtain rfl := step_wait.mp h
    exact hlit.frame id (le_refl _) id (fun _ _ hT => hT)
  | expire w =>
    obtain ⟨v,hv,rfl⟩ := step_expire.mp h
    refine hlit.frame id (le_refl _) ?_ (fun _ _ hT => hT)
    cases w with
    | advSlow => exact id
    | advRetry => exact fun _ => expire_pending hu.submitted hv
  | enter w =>
    obtain ⟨hT,v,_,rfl⟩ := step_enter.mp h
    cases w with
    | advSlow => exact hlit.frame id (le_refl _) id (begun_kept hT)
    | advRetry => exact fun _ => Or.inr (Or.inr ⟨.work,.start .guard,rfl,rfl⟩)
  | recycled =>
    obtain ⟨_,_,rfl⟩ := step_recycled.mp h
    exact fun _ => Or.inr (Or.inr ⟨.recycled,.start .guard,rfl,rfl⟩)
  | attempt =>
    obtain ⟨_,rfl⟩ := step_attempt.mp h
    exact fun hf => by simp at hf
  | connected err =>
    obtain ⟨_,_,rfl⟩ := step_connected.mp h
    intro hf
    dsimp only at hf
    split at hf <;> simp at hf
  | security level err =>
    obtain ⟨_,_,rfl⟩ := step_security.mp h
    exact hlit.frame id (le_refl _) id (fun _ _ hT => hT)
  | pairingComplete addr =>
    obtain ⟨_,_,rfl⟩ := step_pairingComplete.mp h
    exact hlit.frame id (le_refl _) id (fun _ _ hT => hT)
  | disconnected =>
    obtain ⟨_,_,rfl⟩ := step_disconnected.mp h
    exact fun hf => by simp at hf
  | host err =>
    obtain ⟨hobj,hk,hth⟩ := host_keeps h
    apply hlit.frame (fun hf => hobj ▸ hf) hk.owed hk.retry
    rw [hth]
    exact fun _ _ hT => hT
  | returned =>
    obtain ⟨_,_,rfl⟩ := step_returned.mp h
    exact fun _ => Or.inl (Nat.succ_pos _)

/-- No thread and no callback is running, and no callback is owed: neither a
recycled one nor the one of an attempt, nor the return of a finished link. -/
def AtRest (s : State) : Prop :=
  (∀ T, s.threads T = none) ∧ s.host = .callback .idle ∧ s.radio.owed = 0 ∧
    s.radio.obj ≠ .attempt ∧ s.radio.obj ≠ .failed ∧ s.radio.obj ≠ .dropped

/-- At rest there is a link, an advertiser or a retry to come. -/
theorem never_dark (bonds : List ℕ) (es : List Label) (s : State)
    (h : run step es (init bonds) = some s) (hr : AtRest s) :
    s.radio.main.currentConn = true ∨ s.radio.obj.live = true ∨
      s.radio.main.advRetryWork.pending = true := by
  obtain ⟨hs,_,hlit⟩ : Truthful s ∧ Uncancelled s ∧ Lit s :=
    invariant (I := fun s => Truthful s ∧ Uncancelled s ∧ Lit s)
      ⟨init_truthful bonds,rfl,init_lit bonds⟩
      (fun s a t hi ht => ⟨step_truthful hi.1 ht,step_uncancelled hi.2.1 ht,
        step_lit hi.1 hi.2.1 hi.2.2 ht⟩) h
  obtain ⟨hth,hh,howed,hatt,hfail,hdrop⟩ := hr
  cases ho : s.radio.obj with
  | free =>
    rcases hlit ho with h | h | ⟨T,pc,hT,_⟩
    · omega
    · exact Or.inr (Or.inr h)
    · rw [hth T] at hT
      contradiction
  | advertiser slow filtered => exact Or.inr (Or.inl rfl)
  | link =>
    have hf := hs.host
    rw [hh, ho] at hf
    exact Or.inl hf
  | attempt => exact absurd ho hatt
  | failed => exact absurd ho hfail
  | dropped => exact absurd ho hdrop

def slowFailed : List Label :=
  slowSwitch++[.run .work (-ENOMEM) false, .run .work 0 false, .run .work 0 false,
    .run .work 0 false, .run .work 0 false]

def waiting : State :=
  { init [] with
    radio := { (init []).radio with
      main := { boot false with
        now := advFastDuration
        advRetryWork := ⟨some (advFastDuration+advRetryDelay),false,.returned⟩ } }
    threads := ⟨none,none,none⟩ }

theorem never_dark_waiting :
    waiting.radio.main.currentConn = true ∨ waiting.radio.obj.live = true ∨
      waiting.radio.main.advRetryWork.pending = true :=
  never_dark [] slowFailed waiting (by decide)
    ⟨fun T => by cases T <;> rfl,rfl,rfl,by decide,by decide,by decide⟩

end NrfProxy.AdvertiserRecovery
