import NrfProxy.AdvertiserProgress
import NrfProxy.AdvertiserRecovery

/-!
# Fast advertising is temporary

An advertiser with fast parameters is switched to the slow ones by the slow
item. From the start of the advertiser until it is gone, either the item is
pending, the thread which made the start is on its way to schedule it, or the
handler is on its way to a stop which succeeds or to the rescheduling. The
callback which cancels the item runs for a link, where there is no advertiser.
But a handler it has found running keeps the item cancelled, for the timer of a
later advertiser too.
-/

set_option autoImplicit false

namespace NrfProxy.FastAdvertising
open NrfProxy.Runs NrfProxy.Delayable NrfProxy.ProxyCore NrfProxy.MainState NrfProxy.Advertiser
open NrfProxy.AdvertiserInvariant NrfProxy.AdvertiserRecovery NrfProxy.AdvertiserProgress

def fast : Obj → Bool
  | .advertiser false _ => true
  | _ => false

/-- The thread will schedule the slow item, or make the switch itself, while the
advertiser it has started or found is there. -/
def switching : Pc → Bool
  | .start (.store err) => err = 0
  | .start .slow => true
  | .slow .guard | .slow .stop | .slow .stopFailed | .slow .delay => true
  | _ => false

def Switching (s : State) : Prop :=
  s.radio.main.advSlowWork.pending = true ∨ ∃ T pc, s.threads T = some pc ∧ switching pc = true

def switches (threads : Threads) : Bool :=
  threads.boot.any switching || threads.work.any switching || threads.recycled.any switching

theorem switches_true {threads : Threads} :
    switches threads = true ↔ ∃ T pc, threads T = some pc ∧ switching pc = true := by
  simp only [switches, Bool.or_eq_true, Option.any_eq_true]
  constructor
  · rintro ((h | h) | h)
    · exact ⟨.boot,h⟩
    · exact ⟨.work,h⟩
    · exact ⟨.recycled,h⟩
  · rintro ⟨T,h⟩
    cases T
    · exact Or.inl (Or.inl h)
    · exact Or.inl (Or.inr h)
    · exact Or.inr h

/-- A fast advertiser is not left to itself. -/
def Temporary (s : State) : Prop := fast s.radio.obj = true → Switching s

theorem init_temporary (bonds : List ℕ) : Temporary (init bonds) := fun h => by simp [init, fast] at h

/-- The submission by the timer of a fast advertiser is taken, unless a thread is
about to schedule the item or to make the switch. -/
def Submitted (s : State) : Label → Prop
  | .expire .advSlow => fast s.radio.obj = true →
      (submit s.radio.main.advSlowWork).queued = true ∨ switches s.threads = true
  | _ => True

instance (s : State) : ∀ a, Decidable (Submitted s a)
  | .expire .advSlow => inferInstanceAs (Decidable (_ → _))
  | .expire .advRetry | .wait _ | .enter _ | .run _ _ _ | .recycled | .attempt | .connected _
  | .security _ _ | .pairingComplete _ | .disconnected | .host _ | .returned => .isTrue trivial

theorem fast_live {obj : Obj} (h : fast obj = true) : obj.live = true := by
  cases obj with
  | advertiser => rfl
  | _ => simp [fast] at h

def Passed (r r' : Radio) (pc : Pc) (q : Option Pc) : Prop :=
  fast r'.obj = true → (∃ p, q = some p ∧ switching p = true) ∨
    r'.main.advSlowWork.pending = true ∨ switching pc = false ∧ fast r.obj = true

theorem startNext_passed {r r' : Radio} {err : ℤ} {pc : StartPc} {q : Option StartPc}
    (h : startNext r err pc = some (r',q)) : Passed r r' (.start pc) (q.map .start) := by
  intro hf
  cases pc with
  | guard | retry =>
    obtain ⟨rfl,rfl⟩ := Prod.mk.inj (Option.some.inj h)
    exact Or.inr (Or.inr ⟨rfl,hf⟩)
  | start =>
    simp only [startNext, Option.map_eq_some_iff, Prod.mk.injEq] at h
    obtain ⟨d,hd,rfl,rfl⟩ := h
    rcases (btLeAdvStart_some hd).2 with ⟨he,_,_⟩ | ⟨_,ho⟩
    · exact Or.inl ⟨_,rfl,by simpa [switching] using he⟩
    · exact Or.inr (Or.inr ⟨rfl,ho ▸ hf⟩)
  | store err =>
    obtain ⟨rfl,rfl⟩ := Prod.mk.inj (Option.some.inj h)
    by_cases he : err = 0
    · exact Or.inl ⟨.start .slow,by simp [he],rfl⟩
    · exact Or.inr (Or.inr ⟨by simpa [switching] using he,hf⟩)
  | slow =>
    obtain ⟨rfl,rfl⟩ := Prod.mk.inj (Option.some.inj h)
    exact Or.inr (Or.inl rfl)

theorem btLeAdvStart_slow {err : ℤ} {r r' : Radio} (h : btLeAdvStart true err r = some r')
    (hf : fast r'.obj = true) : fast r.obj = true := by
  simp only [btLeAdvStart] at h
  split_ifs at h <;> obtain rfl := Option.some.inj h
  · simp [fast] at hf
  · exact hf

theorem slowNext_passed {r r' : Radio} {err : ℤ} {sync : Bool} {pc : SlowPc} {q : Option SlowPc}
    (hg : pc = .guard → fast r.obj = true → r.main.currentConn = false ∧ r.main.advActive = true)
    (hn : ∀ p, pc = .nested p → p = .guard) (h : slowNext r err sync pc = some (r',q)) :
    Passed r r' (.slow pc) (q.map .slow) := by
  intro hf
  cases slow_move h with
  | pass hno =>
    obtain ⟨hconn,hact⟩ := hg rfl hf
    simp [hno hconn] at hact
  | enter | refused | stopFailed => exact Or.inl ⟨_,rfl,rfl⟩
  | recycled | stopped => simp [fast] at hf
  | nothing hl => simp [fast_live hf] at hl
  | delay => exact Or.inr (Or.inl rfl)
  | nested hd =>
    obtain rfl := hn _ rfl
    obtain ⟨rfl,_⟩ := Prod.mk.inj (Option.some.inj hd)
    exact Or.inr (Or.inr ⟨rfl,hf⟩)
  | start hd => exact Or.inr (Or.inr ⟨rfl,btLeAdvStart_slow hd hf⟩)
  | stored | failed | linked | alone | retry | leave => exact Or.inr (Or.inr ⟨rfl,hf⟩)

theorem radio_slow {r r' : Radio} (h : RadioMove r r')
    (hp : r.main.advSlowWork.pending = true) : r'.main.advSlowWork.pending = true := by
  cases h with
  | start h => rwa [(btLeAdvStart_some h).1]
  | slow => rfl
  | _ => exact hp

theorem pcNext_slow {r r' : Radio} {err : ℤ} {sync : Bool} {pc : Pc} {q : Option Pc}
    (h : pcNext r err sync pc = some (r',q)) (hp : r.main.advSlowWork.pending = true) :
    r'.main.advSlowWork.pending = true := by
  cases pc with
  | refresh pc =>
    obtain ⟨rfl,_⟩ := Prod.mk.inj (Option.some.inj h)
    rwa [refreshNext_slow]
  | start pc =>
    simp only [pcNext, Option.map_eq_some_iff, Prod.mk.injEq] at h
    obtain ⟨⟨d,p⟩,hd,rfl,_⟩ := h
    exact radio_slow (startNext_radio hd) hp
  | slow pc =>
    simp only [pcNext, Option.map_eq_some_iff, Prod.mk.injEq] at h
    obtain ⟨⟨d,p⟩,hd,rfl,_⟩ := h
    exact radio_slow (slowNext_radio hd) hp

variable {s t : State} {a : Label}

theorem fast_flags (hs : Truthful s) (hf : fast s.radio.obj = true) :
    s.radio.main.currentConn = false ∧
      (locked s.threads = false → s.radio.main.advActive = true) := by
  refine ⟨(hs.host.pooled (Or.inr (fast_live hf))).2,?_⟩
  intro hl
  rcases hs.truth hl with hu | he
  · have hl := (undelivered_held hs hu).1
    rw [fast_live hf] at hl
    contradiction
  · rw [he]
    exact fast_live hf

theorem run_temporary {T : Thread} {err : ℤ} {sync : Bool} (hs : Truthful s) (ht : Temporary s)
    (h : step s (.run T err sync) = some t) : Temporary t := by
  obtain ⟨pc,r,q,hT,hfree,hn,rfl⟩ := step_run.mp h
  have hpass : Passed s.radio r pc q := by
    cases pc with
    | refresh pc =>
      obtain ⟨rfl,rfl⟩ := Prod.mk.inj (Option.some.inj hn)
      obtain ⟨_,_,_,hobj,_⟩ := refreshNext_main s.radio err pc
      exact fun hf => Or.inr (Or.inr ⟨rfl,hobj ▸ hf⟩)
    | start pc =>
      simp only [pcNext, Option.map_eq_some_iff, Prod.mk.injEq] at hn
      obtain ⟨⟨d,p⟩,hd,rfl,rfl⟩ := hn
      exact startNext_passed hd
    | slow pc =>
      simp only [pcNext, Option.map_eq_some_iff, Prod.mk.injEq] at hn
      obtain ⟨⟨d,p⟩,hd,rfl,rfl⟩ := hn
      refine slowNext_passed ?_ ?_ hd
      · rintro rfl hf
        exact ⟨(fast_flags hs hf).1,(fast_flags hs hf).2 (hfree rfl)⟩
      · rintro p rfl
        exact (hs.fits T _ hT).1
  intro hf
  rcases hpass hf with ⟨p,rfl,hp⟩ | hp | ⟨hpc,hold⟩
  · exact Or.inr ⟨T,p,by simp,hp⟩
  · exact Or.inl hp
  · rcases ht hold with hp | hw
    · exact Or.inl (pcNext_slow hn hp)
    · exact Or.inr (other_thread hT hpc hw)

theorem Temporary.frame (ht : Temporary s)
    (hf : fast t.radio.obj = true → fast s.radio.obj = true)
    (hk : s.radio.main.advSlowWork.pending = true → t.radio.main.advSlowWork.pending = true)
    (hth : ∀ T pc, s.threads T = some pc → t.threads T = some pc) : Temporary t := by
  intro ho
  rcases ht (hf ho) with hp | ⟨T,pc,hT,hpc⟩
  · exact Or.inl (hk hp)
  · exact Or.inr ⟨T,pc,hth T pc hT,hpc⟩

theorem host_temporary {err : ℤ} (hs : Truthful s) (ht : Temporary s)
    (h : step s (.host err) = some t) : Temporary t := by
  obtain ⟨hobj,_,hth⟩ := host_keeps h
  obtain ⟨_,r,host,hn,rfl⟩ := step_host.mp h
  cases hh : s.host with
  | refresh pc =>
    rw [hh] at hn
    obtain ⟨rfl,_⟩ := Prod.mk.inj (Option.some.inj hn)
    refine ht.frame (fun hf => hobj ▸ hf) ?_ (fun _ _ hT => hT)
    exact fun hp => (refreshNext_slow s.radio err pc).symm ▸ hp
  | callback p =>
    rw [hh] at hn
    simp only [hostStep, Option.map_eq_some_iff, Prod.mk.injEq] at hn
    obtain ⟨⟨n,q⟩,hn,rfl,_⟩ := hn
    by_cases hp : p = .connCancelSlow
    · have hf := hs.host
      rw [hh, hp] at hf
      intro ho
      simp [fast, hf.2] at ho
    · refine ht.frame id ?_ (fun _ _ hT => hT)
      exact fun hw => ((hostNext_keeps hn).advSlowWork hp).symm ▸ hw

theorem step_temporary (hs : Truthful s) (ht : Temporary s) (hc : Submitted s a)
    (h : step s a = some t) : Temporary t := by
  cases a with
  | run T err sync => exact run_temporary hs ht h
  | host err => exact host_temporary hs ht h
  | wait ms =>
    obtain rfl := step_wait.mp h
    exact ht.frame id id (fun _ _ hT => hT)
  | expire w =>
    obtain ⟨v,hv,rfl⟩ := step_expire.mp h
    cases w with
    | advRetry => exact ht.frame id id (fun _ _ hT => hT)
    | advSlow =>
      intro hf
      rcases hc hf with hq | hw
      · exact Or.inl ((expire_submitted hv).trans hq)
      · exact Or.inr (switches_true.mp hw)
  | enter w =>
    obtain ⟨hT,v,_,rfl⟩ := step_enter.mp h
    cases w with
    | advSlow => exact fun _ => Or.inr ⟨.work,.slow .guard,rfl,rfl⟩
    | advRetry => exact ht.frame id id (begun_kept hT)
  | recycled =>
    obtain ⟨_,hT,rfl⟩ := step_recycled.mp h
    exact ht.frame id id (begun_kept hT)
  | attempt =>
    obtain ⟨_,rfl⟩ := step_attempt.mp h
    exact fun hf => by simp [fast] at hf
  | connected err =>
    obtain ⟨_,_,rfl⟩ := step_connected.mp h
    intro hf
    dsimp only at hf
    split at hf <;> simp [fast] at hf
  | security level err =>
    obtain ⟨_,_,rfl⟩ := step_security.mp h
    exact ht.frame id id (fun _ _ hT => hT)
  | pairingComplete addr =>
    obtain ⟨_,_,rfl⟩ := step_pairingComplete.mp h
    exact ht.frame id id (fun _ _ hT => hT)
  | disconnected =>
    obtain ⟨_,_,rfl⟩ := step_disconnected.mp h
    exact fun hf => by simp [fast] at hf
  | returned =>
    obtain ⟨_,_,rfl⟩ := step_returned.mp h
    exact fun hf => by simp [fast] at hf

/-- Between the runs of `advertising_start` and of the handlers, a fast
advertiser has the slow item pending, also while a callback of a link runs,
where no timer runs out behind a cancelled handler. -/
theorem fast_advertising_temporary (bonds : List ℕ) (es : List Label) (s : State) (filtered : Bool)
    (h : run step es (init bonds) = some s) (hc : AllSteps step Submitted es (init bonds))
    (hr : ∀ T, s.threads T = none) (ho : s.radio.obj = .advertiser false filtered) :
    s.radio.main.advSlowWork.pending = true := by
  obtain ⟨_,ht⟩ : Truthful s ∧ Temporary s :=
    invariant_of (I := fun s => Truthful s ∧ Temporary s)
      ⟨init_truthful bonds,init_temporary bonds⟩
      (fun s a t hi hc ht => ⟨step_truthful hi.1 ht,step_temporary hi.1 hi.2 hc ht⟩) h hc
  rcases ht (by rw [ho]; rfl) with hp | ⟨T,pc,hT,_⟩
  · exact hp
  · rw [hr T] at hT
    contradiction

def stopFailed : List Label :=
  List.replicate 7 (.run .boot 0 false)++[.wait advFastDuration, .expire .advSlow, .enter .advSlow,
    .run .work 0 false, .run .work (-ENOMEM) false, .run .work 0 false, .run .work 0 false,
    .run .work 0 false]

def stillFast : State :=
  { init [] with
    radio := { (init []).radio with
      main := { boot false with
        now := advFastDuration
        advActive := true
        advSlowWork := ⟨some (advFastDuration+advRetryDelay),false,.returned⟩ }
      obj := .advertiser false false }
    threads := ⟨none,none,none⟩ }

theorem fast_advertising_temporary_stop_failed :
    stillFast.radio.main.advSlowWork.pending = true :=
  fast_advertising_temporary [] stopFailed stillFast false (by decide) (by decide)
    (fun T => by cases T <;> rfl) rfl

/-- The handler has found the first link and is held up before its return, until
the timer of the next advertiser has run out. -/
def refusedSwitch : List Label :=
  List.flatten [List.replicate 7 (.run .boot 0 false),
    [.wait advFastDuration, .expire .advSlow, .enter .advSlow, .attempt, .connected 0, .host 0,
      .run .work 0 false, .host 0, .host 0, .disconnected], List.replicate 4 (.host 0),
    [.returned, .recycled], List.replicate 4 (.run .recycled 0 false),
    [.wait advFastDuration, .expire .advSlow, .run .work 0 false]]

theorem fast_advertising_stays :
    ∃ s, run step refusedSwitch (init []) = some s ∧ (∀ T, s.threads T = none) ∧
      s.host = .callback .idle ∧ fast s.radio.obj = true ∧
      s.radio.main.advSlowWork.pending = false :=
  ⟨{ init [] with
      radio := { (init []).radio with
        main := { boot false with
          now := advFastDuration+advFastDuration
          advActive := true
          rxDataReady := true
          securityTimeoutWork := idle }
        obj := .advertiser false false }
      threads := ⟨none,none,none⟩ },
    by decide,fun T => by cases T <;> rfl,rfl,rfl,rfl⟩

/-- A fast advertiser which nobody switches any more. -/
structure Forgotten (s : State) : Prop where
  truthful : Truthful s
  fast : fast s.radio.obj = true
  unscheduled : s.radio.main.advSlowWork.pending = false
  away : ∀ T pc, s.threads T = some pc → switching pc = false

theorem slowNext_forgets {r r' : Radio} {err : ℤ} {sync : Bool} {pc : SlowPc} {q : Option SlowPc}
    {undelivered : Prop}
    (hf : PcFits r.main.advActive r.main.currentConn r.obj.live undelivered (.slow pc))
    (hfast : fast r.obj = true) (hconn : r.main.currentConn = false)
    (hpc : switching (.slow pc) = false) (h : slowNext r err sync pc = some (r',q)) :
    r'.obj = r.obj ∧ r'.main.advSlowWork.pending = r.main.advSlowWork.pending ∧
      ∀ p, q = some p → switching (.slow p) = false := by
  have hlive := fast_live hfast
  cases slow_move h with
  | pass | enter | recycled | stopped | nothing | refused | stopFailed | delay =>
    simp [switching] at hpc
  | nested => exact absurd hlive (by simp [hf.2.2.2])
  | start => exact absurd hlive (by simp [hf.2.2])
  | failed he =>
    have hdead := hf.2.2
    rw [if_neg he] at hdead
    simp [hlive] at hdead
  | linked hc => simp [hconn] at hc
  | stored | alone | retry => exact ⟨rfl,rfl,by rintro _ ⟨⟩; rfl⟩
  | leave => exact ⟨rfl,rfl,by simp⟩

theorem startNext_forgets {r r' : Radio} {err : ℤ} {pc : StartPc} {q : Option StartPc}
    {undelivered : Prop}
    (hf : PcFits r.main.advActive r.main.currentConn r.obj.live undelivered (.start pc))
    (hfast : fast r.obj = true) (hact : pc = .guard → r.main.advActive = true)
    (hpc : switching (.start pc) = false) (h : startNext r err pc = some (r',q)) :
    r' = r ∧ q = none ∨ r' = { r with main := armAdvRetry r.main } ∧ q = none := by
  have hlive := fast_live hfast
  cases pc with
  | guard =>
    simp only [startNext, proxyShouldStartAdv, advState, hact rfl, Bool.not_true, Bool.and_false,
      Bool.false_eq_true, if_false, Option.some.injEq, Prod.mk.injEq] at h
    exact Or.inl ⟨h.1.symm,h.2.symm⟩
  | start => exact absurd hlive (by simp [hf.2.2])
  | store startErr =>
    have hne : startErr ≠ 0 := by simpa [switching] using hpc
    have hdead := hf.2.2
    rw [if_neg hne] at hdead
    simp [hlive] at hdead
  | retry =>
    obtain ⟨rfl,rfl⟩ := Prod.mk.inj (Option.some.inj h)
    exact Or.inr ⟨rfl,rfl⟩
  | slow => simp [switching] at hpc

theorem run_forgotten {T : Thread} {err : ℤ} {sync : Bool} (hs : Forgotten s)
    (h : step s (.run T err sync) = some t) : Forgotten t := by
  have ht := step_truthful hs.truthful h
  obtain ⟨pc,r,q,hT,hfree,hn,rfl⟩ := step_run.mp h
  obtain ⟨hconn,hact⟩ := fast_flags hs.truthful hs.fast
  have hpc := hs.away T pc hT
  have hkeep : r.obj = s.radio.obj ∧
      r.main.advSlowWork.pending = s.radio.main.advSlowWork.pending ∧
      ∀ p, q = some p → switching p = false := by
    cases pc with
    | refresh pc =>
      obtain ⟨rfl,rfl⟩ := Prod.mk.inj (Option.some.inj hn)
      obtain ⟨_,_,_,hobj,_⟩ := refreshNext_main s.radio err pc
      refine ⟨hobj,by rw [refreshNext_slow],?_⟩
      rintro _ ⟨⟩
      cases (refreshNext s.radio err pc).2 <;> rfl
    | start pc =>
      simp only [pcNext, Option.map_eq_some_iff, Prod.mk.injEq] at hn
      obtain ⟨⟨d,p⟩,hd,rfl,rfl⟩ := hn
      have hguard : pc = .guard → s.radio.main.advActive = true := by
        rintro rfl
        exact hact (hfree rfl)
      rcases startNext_forgets (hs.truthful.fits T _ hT) hs.fast hguard hpc hd with
        ⟨rfl,rfl⟩ | ⟨rfl,rfl⟩ <;> exact ⟨rfl,rfl,by simp⟩
    | slow pc =>
      simp only [pcNext, Option.map_eq_some_iff, Prod.mk.injEq] at hn
      obtain ⟨⟨d,p⟩,hd,rfl,rfl⟩ := hn
      obtain ⟨hobj,hpend,hq⟩ :=
        slowNext_forgets (hs.truthful.fits T _ hT) hs.fast hconn hpc hd
      refine ⟨hobj,hpend,?_⟩
      intro p' hp'
      obtain ⟨p'',rfl,rfl⟩ := Option.map_eq_some_iff.mp hp'
      exact hq p'' rfl
  refine ⟨ht,?_,hkeep.2.1.trans hs.unscheduled,?_⟩
  · dsimp only
    rw [hkeep.1]
    exact hs.fast
  · intro T' p hp
    by_cases he : T' = T
    · subst he
      exact hkeep.2.2 p (by simpa using hp)
    · exact hs.away T' p (by simpa [setThread_of_ne he] using hp)

theorem forgotten_rests (hs : Forgotten s) : ∃ fs u, run step fs s = some u ∧
    (∀ T, u.threads T = none) ∧ fast u.radio.obj = true ∧
      u.radio.main.advSlowWork.pending = false := by
  obtain ⟨fs,u,_,hu,hs,hrest⟩ :=
    threads_rest (P := Forgotten) (fun _ _ _ _ hs ht => run_forgotten hs ht) hs
  exact ⟨fs,u,hu,hrest,hs.fast,hs.unscheduled⟩

/-- Behind a step which breaks the assumption, what still runs leaves a fast
advertiser without its item. -/
theorem unsubmitted_forgotten (hs : Truthful s) (hc : ¬Submitted s a) (h : step s a = some t) :
    ∃ fs u, run step fs t = some u ∧ (∀ T, u.threads T = none) ∧ fast u.radio.obj = true ∧
      u.radio.main.advSlowWork.pending = false := by
  have ht := step_truthful hs h
  cases a with
  | expire w =>
    cases w with
    | advRetry => exact absurd trivial hc
    | advSlow =>
      obtain ⟨hf,hq,hw⟩ : fast s.radio.obj = true ∧
          (submit s.radio.main.advSlowWork).queued = false ∧ switches s.threads = false := by
        simpa [Submitted] using hc
      obtain ⟨v,hv,rfl⟩ := step_expire.mp h
      refine forgotten_rests ⟨ht,hf,(expire_submitted hv).trans hq,?_⟩
      intro T pc hT
      by_contra hpc
      simp [switches_true.mpr ⟨T,pc,hT,by simpa using hpc⟩] at hw
  | _ => exact absurd trivial hc

end NrfProxy.FastAdvertising
