import NrfProxy.AdvertiserRecovery
import NrfProxy.Simulation
import NrfProxy.StatusDisplay

/-!
# The LEDs tell the truth

What is told of a state lags behind it until the context which has changed it comes to
its notices. As long as no other context changes the state in between, and no call
meets the blink handler, the LEDs at rest are those of the link and the advertiser.
-/

set_option autoImplicit false

namespace NrfProxy.StatusTruth
open NrfProxy.Runs NrfProxy.Delayable NrfProxy.ProxyCore NrfProxy.MainState NrfProxy.StatusDisplay
open NrfProxy.StatusLeds (Status Board Leds Call BlinkPc Caller Distinct)
open NrfProxy.Advertiser (Radio Thread Threads Pc StartPc SlowPc HostTask inside locked setThread
  pcNext refreshNext startNext slowNext step_run step_expire step_enter step_recycled step_attempt
  step_connected step_security step_pairingComplete step_disconnected step_host step_returned
  setThread_self setThread_of_ne)
open NrfProxy.AdvertiserInvariant NrfProxy.AdvertiserRecovery

/-- The thread is on its way to an `advertising_start`, or from one which failed to the
retry item. -/
def again : Pc → Bool
  | .start .guard | .start .start | .start (.store _) | .start .retry => true
  | _ => false

def Again (v : Advertiser.State) : Prop :=
  v.radio.main.advRetryWork.pending = true ∨ ∃ T pc, v.threads T = some pc ∧ again pc = true

/-- The thread has started an advertiser and has not yet said so. -/
def airing : Pc → Bool
  | .start (.store err) | .slow (.store err) => err = 0
  | _ => false

def Silent (v : Advertiser.State) : Prop := ∀ T pc, v.threads T = some pc → airing pc = false

/-- The status and the phase of the blink which are right for a state. -/
structure Fits (v : Advertiser.State) (d : Status × Bool) : Prop where
  connected : v.radio.main.currentConn = true → d.1 = .connected
  advertising : v.radio.main.advActive = true → d.1 = .advertising
  phase : Silent v → ∀ slow filtered, v.radio.obj = .advertiser slow filtered → d.2 = slow
  error : d.1 = .error → Again v

def Airs (slow : Bool) : Pc → Prop
  | .start (.store err) => err = 0 → slow = false
  | .slow (.store err) => err = 0 → slow = true
  | _ => True

def Aired (v : Advertiser.State) : Prop := ∀ T pc slow filtered, v.threads T = some pc →
  v.radio.obj = .advertiser slow filtered → Airs slow pc

variable {v w : Advertiser.State} {a : Advertiser.Label}

theorem airing_inside {pc : Pc} (h : airing pc = true) : inside pc = true := by
  cases pc with
  | refresh => simp [airing] at h
  | start pc => cases pc <;> first | rfl | simp [airing] at h
  | slow pc => cases pc <;> first | rfl | simp [airing] at h

theorem airs_outside {slow : Bool} {pc : Pc} (h : inside pc = false) : Airs slow pc := by
  cases pc with
  | refresh => trivial
  | start pc => cases pc <;> trivial
  | slow pc => cases pc <;> trivial

/-- What has been told stays right. -/
structure Quiet (v w : Advertiser.State) : Prop where
  conn : w.radio.main.currentConn = true → v.radio.main.currentConn = true
  active : w.radio.main.advActive = true → v.radio.main.advActive = true
  phase : Silent w → Silent v ∧ (w.radio.obj = v.radio.obj ∨ w.radio.obj.live = false)
  again : v.radio.main.currentConn = false → v.radio.main.advActive = false → Again v → Again w

theorem Quiet.fits {d : Status × Bool} (h : Quiet v w) (hf : Fits v d) : Fits w d := by
  refine ⟨fun hc => hf.connected (h.conn hc),fun ha => hf.advertising (h.active ha),?_,?_⟩
  · intro hw slow filtered ho
    obtain ⟨hv,hobj | hl⟩ := h.phase hw
    · exact hf.phase hv slow filtered (hobj ▸ ho)
    · simp [ho, Advertiser.Obj.live] at hl
  · intro hd
    refine h.again ?_ ?_ (hf.error hd)
    · by_contra hc
      simpa [hd] using hf.connected (by simpa using hc)
    · by_contra ha
      simpa [hd] using hf.advertising (by simpa using ha)

structure Outer (v w : Advertiser.State) (a : Advertiser.Label) : Prop where
  threads : ∀ T pc, inside pc = true → (w.threads T = some pc ↔ v.threads T = some pc)
  obj : w.radio.obj = v.radio.obj ∨ w.radio.obj.live = false
  again : Uncancelled v → Again v → Again w
  flags : (∀ err, a ≠ .host err) → w.radio.main.currentConn = v.radio.main.currentConn ∧
    w.radio.main.advActive = v.radio.main.advActive

theorem Again.keep (h : Again v)
    (hp : v.radio.main.advRetryWork.pending = true → w.radio.main.advRetryWork.pending = true)
    (hth : ∀ T pc, v.threads T = some pc → w.threads T = some pc) : Again w := by
  rcases h with h | ⟨T,pc,hT,ha⟩
  · exact Or.inl (hp h)
  · exact Or.inr ⟨T,pc,hth T pc hT,ha⟩

structure PcQuiet (r r' : Radio) (pc : Pc) (q : Option Pc) : Prop where
  silent : airing pc = false
  active : r'.main.advActive = true → r.main.advActive = true
  obj : (∀ p, q = some p → airing p = false) → r'.obj = r.obj ∨ r'.obj.live = false
  again : r.main.currentConn = false → r.main.advActive = false → again pc = true →
    r'.main.advRetryWork.pending = true ∨ ∃ p, q = some p ∧ again p = true

theorem btLeAdvStart_obj {slow : Bool} {err : ℤ} {r r' : Radio}
    (h : Advertiser.btLeAdvStart slow err r = some r') :
    r'.main = r.main ∧ (err = 0 ∧ r'.obj = .advertiser slow r.main.lockedMode ∨
      err ≠ 0 ∧ r'.obj = r.obj) := by
  by_cases he : err = 0
  · simp only [Advertiser.btLeAdvStart, he, if_true, Option.ite_none_right_eq_some,
      Option.some.injEq] at h
    obtain ⟨_,rfl⟩ := h
    exact ⟨rfl,Or.inl ⟨he,rfl⟩⟩
  · simp only [Advertiser.btLeAdvStart, he, if_false, Option.some.injEq] at h
    obtain rfl := h
    exact ⟨rfl,Or.inr ⟨he,rfl⟩⟩

theorem startNext_quiet {r r' : Radio} {err : ℤ} {pc : StartPc} {q : Option StartPc}
    (hpc : ∀ err, pc ≠ .store err) (h : startNext r err pc = some (r',q)) :
    PcQuiet r r' (.start pc) (q.map .start) := by
  cases pc with
  | guard =>
    obtain ⟨rfl,rfl⟩ := Prod.mk.inj (Option.some.inj h)
    refine ⟨rfl,id,fun _ => Or.inl rfl,fun hc ha _ => Or.inr ⟨.start .start,?_,rfl⟩⟩
    simp [proxyShouldStartAdv, Advertiser.advState, hc, ha]
  | start =>
    simp only [startNext, Option.map_eq_some_iff, Prod.mk.injEq] at h
    obtain ⟨d,hd,rfl,rfl⟩ := h
    obtain ⟨hm,ho⟩ := btLeAdvStart_obj hd
    refine ⟨rfl,by rw [hm]; exact id,fun hq => ?_,fun _ _ _ => Or.inr ⟨_,rfl,rfl⟩⟩
    rcases ho with ⟨he,_⟩ | ⟨_,ho⟩
    · simp [airing, he] at hq
    · exact Or.inl ho
  | store err => exact absurd rfl (hpc err)
  | retry =>
    obtain ⟨rfl,rfl⟩ := Prod.mk.inj (Option.some.inj h)
    exact ⟨rfl,id,fun _ => Or.inl rfl,fun _ _ _ => Or.inl rfl⟩
  | slow =>
    obtain ⟨rfl,rfl⟩ := Prod.mk.inj (Option.some.inj h)
    exact ⟨rfl,id,fun _ => Or.inl rfl,fun _ _ h => by simp [StatusTruth.again] at h⟩

theorem slowNext_quiet {r r' : Radio} {err : ℤ} {sync : Bool} {pc : SlowPc} {q : Option SlowPc}
    (hpc : pc ≠ .store 0) (hnest : ∀ p, pc = .nested p → p = .guard)
    (h : slowNext r err sync pc = some (r',q)) : PcQuiet r r' (.slow pc) (q.map .slow) := by
  cases Advertiser.slow_move h with
  | stored => exact absurd rfl hpc
  | failed he =>
    exact ⟨by simpa [airing] using he,by simp,fun _ => Or.inl rfl,fun _ _ h => by simp [again] at h⟩
  | recycled | stopped =>
    exact ⟨rfl,id,fun _ => Or.inr rfl,fun _ _ h => by simp [again] at h⟩
  | nested hd =>
    obtain rfl := hnest _ rfl
    obtain ⟨rfl,_⟩ := Prod.mk.inj (Option.some.inj hd)
    exact ⟨rfl,id,fun _ => Or.inl rfl,fun _ _ h => by simp [again] at h⟩
  | start hd =>
    obtain ⟨hm,ho⟩ := btLeAdvStart_obj hd
    refine ⟨rfl,by rw [hm]; exact id,fun hq => ?_,fun _ _ h => by simp [again] at h⟩
    rcases ho with ⟨he,_⟩ | ⟨_,ho⟩
    · simp [airing, he] at hq
    · exact Or.inl ho
  | _ => exact ⟨rfl,id,fun _ => Or.inl rfl,fun _ _ h => by simp [again] at h⟩

theorem pcNext_quiet {r r' : Radio} {err : ℤ} {sync : Bool} {pc : Pc} {q : Option Pc}
    (hstart : ∀ err, pc ≠ .start (.store err)) (hslow : pc ≠ .slow (.store 0))
    (hnest : ∀ p, pc = .slow (.nested p) → p = .guard)
    (h : pcNext r err sync pc = some (r',q)) : PcQuiet r r' pc q := by
  cases pc with
  | refresh pc =>
    obtain ⟨rfl,rfl⟩ := Prod.mk.inj (Option.some.inj h)
    obtain ⟨hact,_,_,hobj,_⟩ := refreshNext_main r err pc
    exact ⟨rfl,by rw [hact]; exact id,fun _ => Or.inl hobj,fun _ _ h => by simp [again] at h⟩
  | start pc =>
    simp only [pcNext, Option.map_eq_some_iff, Prod.mk.injEq] at h
    obtain ⟨⟨d,p⟩,hd,rfl,rfl⟩ := h
    exact startNext_quiet (fun err he => hstart err (by rw [he])) hd
  | slow pc =>
    simp only [pcNext, Option.map_eq_some_iff, Prod.mk.injEq] at h
    obtain ⟨⟨d,p⟩,hd,rfl,rfl⟩ := h
    exact slowNext_quiet (fun he => hslow (by rw [he])) (fun p he => hnest p (by rw [he])) hd

theorem nested_guard (hv : Truthful v) {T : Thread} {p : StartPc}
    (hT : v.threads T = some (.slow (.nested p))) : p = .guard :=
  (hv.fits T _ hT).1

theorem run_silent (hv : Truthful v) {T : Thread} {err : ℤ} {sync : Bool} {pc : Pc}
    (hT : v.threads T = some pc) (ha : announces v (.run T err sync) = none) :
    (∀ err, pc ≠ .start (.store err)) ∧ pc ≠ .slow (.store 0) ∧
      ∀ p, pc = .slow (.nested p) → p = .guard := by
  refine ⟨?_,?_,?_⟩
  · rintro err rfl
    simp [announces, hT] at ha
  · rintro rfl
    simp [announces, hT] at ha
  · rintro p rfl
    exact nested_guard hv hT

theorem run_quiet (hv : Truthful v) {T : Thread} {err : ℤ} {sync : Bool}
    (h : Advertiser.step v (.run T err sync) = some w)
    (ha : announces v (.run T err sync) = none) : Quiet v w := by
  obtain ⟨pc,r,q,hT,hfree,hn,rfl⟩ := step_run.mp h
  have hm := pcNext_move hv.active_conn (hv.fits T pc hT) (fun hl => hv.truth (hfree hl))
    (fun hu => (undelivered_held hv hu).1) hn
  obtain ⟨hstart,hslow,hnest⟩ := run_silent hv hT ha
  have hq := pcNext_quiet hstart hslow hnest hn
  refine ⟨fun hc => hm.conn ▸ hc,hq.active,?_,?_⟩
  · intro hw
    refine ⟨fun T' p hp => ?_,hq.obj (fun p hp => hw T p (by simpa using hp))⟩
    by_cases he : T' = T
    · subst he
      rw [hT] at hp
      cases hp
      exact hq.silent
    · exact hw T' p (by rw [setThread_of_ne he, hp])
  · intro hconn hact hag
    by_cases hpc : again pc = true
    · rcases hq.again hconn hact hpc with hp | ⟨p,rfl,hp⟩
      · exact Or.inl hp
      · exact Or.inr ⟨T,p,by simp,hp⟩
    · rcases hag with hp | hw
      · exact Or.inl ((pcNext_keeps hn).retry hp)
      · exact Or.inr (other_thread hT (by simpa using hpc) hw)

theorem step_outer (h : Advertiser.step v a = some w)
    (hrun : ∀ T err sync, a ≠ .run T err sync) : Outer v w a := by
  cases a with
  | run T err sync => exact absurd rfl (hrun T err sync)
  | host err =>
    obtain ⟨hobj,hk,hth⟩ := host_keeps h
    refine ⟨fun _ _ _ => by rw [hth],Or.inl hobj,?_,fun hne => absurd rfl (hne err)⟩
    exact fun _ hag => hag.keep hk.retry (fun _ _ hT => by rw [hth, hT])
  | wait ms =>
    obtain rfl := Advertiser.step_wait.mp h
    exact ⟨fun _ _ _ => Iff.rfl,Or.inl rfl,fun _ => id,fun _ => ⟨rfl,rfl⟩⟩
  | expire i =>
    obtain ⟨k,hk,rfl⟩ := step_expire.mp h
    cases i with
    | advSlow => exact ⟨fun _ _ _ => Iff.rfl,Or.inl rfl,fun _ => id,fun _ => ⟨rfl,rfl⟩⟩
    | advRetry =>
      exact ⟨fun _ _ _ => Iff.rfl,Or.inl rfl,
        fun hu _ => Or.inl (expire_pending hu.submitted hk),fun _ => ⟨rfl,rfl⟩⟩
  | enter i =>
    obtain ⟨hT,k,_,rfl⟩ := step_enter.mp h
    cases i with
    | advSlow =>
      exact ⟨begun_inside hT rfl,Or.inl rfl,fun _ hag => hag.keep id (begun_kept hT),
        fun _ => ⟨rfl,rfl⟩⟩
    | advRetry =>
      exact ⟨begun_inside hT rfl,Or.inl rfl,fun _ _ => Or.inr ⟨.work,.start .guard,rfl,rfl⟩,
        fun _ => ⟨rfl,rfl⟩⟩
  | recycled =>
    obtain ⟨_,hT,rfl⟩ := step_recycled.mp h
    exact ⟨begun_inside hT rfl,Or.inl rfl,fun _ hag => hag.keep id (begun_kept hT),
      fun _ => ⟨rfl,rfl⟩⟩
  | attempt =>
    obtain ⟨_,rfl⟩ := step_attempt.mp h
    exact ⟨fun _ _ _ => Iff.rfl,Or.inr rfl,fun _ => id,fun _ => ⟨rfl,rfl⟩⟩
  | connected err =>
    obtain ⟨_,_,rfl⟩ := step_connected.mp h
    refine ⟨fun _ _ _ => Iff.rfl,Or.inr ?_,fun _ => id,fun _ => ⟨rfl,rfl⟩⟩
    dsimp only
    split <;> rfl
  | security level err =>
    obtain ⟨_,_,rfl⟩ := step_security.mp h
    exact ⟨fun _ _ _ => Iff.rfl,Or.inl rfl,fun _ => id,fun _ => ⟨rfl,rfl⟩⟩
  | pairingComplete addr =>
    obtain ⟨_,_,rfl⟩ := step_pairingComplete.mp h
    exact ⟨fun _ _ _ => Iff.rfl,Or.inl rfl,fun _ => id,fun _ => ⟨rfl,rfl⟩⟩
  | disconnected =>
    obtain ⟨_,_,rfl⟩ := step_disconnected.mp h
    exact ⟨fun _ _ _ => Iff.rfl,Or.inr rfl,fun _ => id,fun _ => ⟨rfl,rfl⟩⟩
  | returned =>
    obtain ⟨_,_,rfl⟩ := step_returned.mp h
    exact ⟨fun _ _ _ => Iff.rfl,Or.inr rfl,fun _ => id,fun _ => ⟨rfl,rfl⟩⟩

theorem Outer.quiet (h : Outer v w a) (hu : Uncancelled v)
    (hconn : w.radio.main.currentConn = true → v.radio.main.currentConn = true)
    (hact : w.radio.main.advActive = true → v.radio.main.advActive = true) : Quiet v w := by
  refine ⟨hconn,hact,fun hw => ⟨fun T pc hT => ?_,h.obj⟩,fun _ _ => h.again hu⟩
  by_contra hair
  have hair : airing pc = true := by simpa using hair
  exact absurd (hw T pc ((h.threads T pc (airing_inside hair)).mpr hT)) (by simp [hair])

theorem host_flags {err : ℤ} (h : Advertiser.step v (.host err) = some w)
    (ha : announces v (.host err) = none) :
    (w.radio.main.currentConn = true → v.radio.main.currentConn = true) ∧
      (w.radio.main.advActive = true → v.radio.main.advActive = true) := by
  obtain ⟨_,r,host,hn,rfl⟩ := step_host.mp h
  cases hh : v.host with
  | refresh pc =>
    rw [hh] at hn
    obtain ⟨rfl,_⟩ := Prod.mk.inj (Option.some.inj hn)
    obtain ⟨hact,hconn,_⟩ := refreshNext_main v.radio err pc
    exact ⟨by rw [hconn]; exact id,by rw [hact]; exact id⟩
  | callback p =>
    rw [hh] at hn
    simp only [Advertiser.hostStep, Option.map_eq_some_iff, Prod.mk.injEq] at hn
    obtain ⟨⟨n,q⟩,hn,rfl,_⟩ := hn
    rcases (hostNext_same hn).1 with ⟨hact,hconn,_⟩ | ⟨e,rfl⟩ | rfl
    · exact ⟨by rw [hconn]; exact id,by rw [hact]; exact id⟩
    · have he : e ≠ 0 := by
        rintro rfl
        simp [announces, hh] at ha
      obtain ⟨rfl,_⟩ := Prod.mk.inj (Option.some.inj hn)
      simp [connectedLock, he]
    · obtain ⟨rfl,_⟩ := Prod.mk.inj (Option.some.inj hn)
      unfold disconnectedLock
      split <;> simp

theorem step_quiet (hv : Truthful v) (hu : Uncancelled v) (h : Advertiser.step v a = some w)
    (ha : announces v a = none) : Quiet v w := by
  cases a with
  | run T err sync => exact run_quiet hv h ha
  | host err =>
    obtain ⟨hconn,hact⟩ := host_flags h ha
    exact (step_outer h (by simp)).quiet hu hconn hact
  | _ =>
    have ho := step_outer h (by simp)
    obtain ⟨hconn,hact⟩ := ho.flags (by simp)
    exact ho.quiet hu (by rw [hconn]; exact id) (by rw [hact]; exact id)

theorem startAdv_airs {slow slow' filtered : Bool} {err : ℤ} {r r' : Radio}
    (h : Advertiser.btLeAdvStart slow err r = some r')
    (ho : r'.obj = .advertiser slow' filtered) (he : err = 0) : slow' = slow := by
  rcases (btLeAdvStart_obj h).2 with ⟨_,hobj⟩ | ⟨hne,_⟩
  · exact (Advertiser.Obj.advertiser.inj (ho.symm.trans hobj)).1
  · exact absurd he hne

theorem pcNext_airs {r r' : Radio} {err : ℤ} {sync slow filtered : Bool} {pc p : Pc}
    (h : pcNext r err sync pc = some (r',some p)) (ho : r'.obj = .advertiser slow filtered) :
    Airs slow p := by
  cases pc with
  | refresh pc =>
    obtain ⟨_,hq⟩ := Prod.mk.inj (Option.some.inj h)
    obtain rfl := Option.some.inj hq
    cases (refreshNext r err pc).2 <;> trivial
  | start pc =>
    simp only [pcNext, Option.map_eq_some_iff, Prod.mk.injEq] at h
    obtain ⟨⟨d,q⟩,hd,rfl,p,rfl,rfl⟩ := h
    cases pc with
    | guard =>
      obtain ⟨_,hq⟩ := Prod.mk.inj (Option.some.inj hd)
      split at hq <;> cases hq
      trivial
    | start =>
      simp only [startNext, Option.map_eq_some_iff, Prod.mk.injEq, Option.some.injEq] at hd
      obtain ⟨d,hd,rfl,rfl⟩ := hd
      exact startAdv_airs hd ho
    | store err =>
      obtain ⟨_,hq⟩ := Prod.mk.inj (Option.some.inj hd)
      split at hq <;> cases hq <;> trivial
    | retry | slow => simp [startNext] at hd
  | slow pc =>
    simp only [pcNext, Option.map_eq_some_iff, Prod.mk.injEq] at h
    obtain ⟨⟨d,q⟩,hd,rfl,p,rfl,rfl⟩ := h
    cases Advertiser.slow_move hd with
    | start hstart => exact startAdv_airs hstart ho
    | @nested _ _ q _ => cases q <;> trivial
    | _ => trivial

theorem run_aired (hv : Truthful v) (hs : Aired v) {T : Thread} {err : ℤ} {sync : Bool}
    (h : Advertiser.step v (.run T err sync) = some w) : Aired w := by
  obtain ⟨pc,r,q,hT,hfree,hn,rfl⟩ := step_run.mp h
  have hm := pcNext_move hv.active_conn (hv.fits T pc hT) (fun hl => hv.truth (hfree hl))
    (fun hu => (undelivered_held hv hu).1) hn
  intro T' p slow filtered hp ho
  by_cases he : T' = T
  · subst he
    obtain rfl : q = some p := by simpa using hp
    exact pcNext_airs hn ho
  · rw [setThread_of_ne he] at hp
    by_cases hi : inside p = true
    · have hpc : inside pc = false := by
        by_contra hpc
        exact he (hv.alone T' T p pc hp hT hi (by simpa using hpc))
      exact hs T' p slow filtered hp ((hm.outside hpc).2 ▸ ho)
    · exact airs_outside (by simpa using hi)

theorem step_aired (hv : Truthful v) (hs : Aired v) (h : Advertiser.step v a = some w) :
    Aired w := by
  cases a with
  | run T err sync => exact run_aired hv hs h
  | _ =>
    have hout := step_outer h (by simp)
    intro T pc slow filtered hT ho
    by_cases hi : inside pc = true
    · rcases hout.obj with hobj | hl
      · exact hs T pc slow filtered ((hout.threads T pc hi).mp hT) (hobj ▸ ho)
      · simp [ho, Advertiser.Obj.live] at hl
    · exact airs_outside (by simpa using hi)

/-- What the LEDs show: the status, and the phase of the blink. -/
def shown (l : Leds) : Status × Bool := (l.currentStatus,l.advSlowPhase)

def tell : Notice → Status × Bool → Status × Bool
  | .phase slow, d => (d.1,slow)
  | .status state, d => (state,d.2)

/-- What they show behind some notices. -/
def told (ns : List Notice) (d : Status × Bool) : Status × Bool := ns.foldl (fun d n => tell n d) d

theorem run_announces (hv : Truthful v) {T : Thread} {U : Caller} {ns : List Notice} {err : ℤ}
    {sync : Bool} {pc : Pc} (hT : v.threads T = some pc)
    (ha : announces v (.run T err sync) = some (U,ns)) :
    (∃ err, pc = .start (.store err) ∧ ns = startNotices err) ∨
      pc = .slow (.store 0) ∧ ns = [.phase true] := by
  cases pc with
  | refresh => simp [announces, hT] at ha
  | start pc =>
    cases pc with
    | store err =>
      simp only [announces, hT, Option.some.injEq, Prod.mk.injEq] at ha
      exact Or.inl ⟨err,rfl,ha.2.symm⟩
    | _ => simp [announces, hT] at ha
  | slow pc =>
    cases pc with
    | store err =>
      simp only [announces, hT, Option.ite_none_right_eq_some, Option.some.injEq,
        Prod.mk.injEq] at ha
      exact Or.inr ⟨by rw [ha.1],ha.2.2.symm⟩
    | nested pc =>
      obtain rfl := nested_guard hv hT
      simp [announces, hT] at ha
    | _ => simp [announces, hT] at ha

theorem start_tells (hv : Truthful v) (hair : Aired v) {T : Thread} {err startErr : ℤ}
    {sync : Bool} (d : Status × Bool) (hT : v.threads T = some (.start (.store startErr)))
    (h : Advertiser.step v (.run T err sync) = some w) :
    Fits w (told (startNotices startErr) d) := by
  obtain ⟨pc,r,q,hpc,_,hn,rfl⟩ := step_run.mp h
  obtain rfl := Option.some.inj (hT.symm.trans hpc)
  obtain ⟨_,hconn,hl⟩ := hv.fits T _ hT
  simp only [pcNext, startNext, Option.map_some, Option.some.injEq, Prod.mk.injEq] at hn
  obtain ⟨rfl,rfl⟩ := hn
  by_cases he : startErr = 0
  · refine ⟨by simp [hconn],fun _ => by simp [startNotices, he, told, tell],?_,?_⟩
    · intro _ slow filtered ho
      exact (hair T _ slow filtered hT ho he).symm ▸ by simp [startNotices, he, told, tell]
    · simp [startNotices, he, told, tell]
  · rw [if_neg he] at hl
    refine ⟨by simp [hconn],by simp [he],?_,fun _ => Or.inr ⟨T,.start .retry,by simp [he],rfl⟩⟩
    rintro _ slow filtered (ho : v.radio.obj = _)
    simp [ho, Advertiser.Obj.live] at hl

theorem slow_tells (hv : Truthful v) (hair : Aired v) {T : Thread} {err : ℤ} {sync : Bool}
    {d : Status × Bool} (hf : Fits v d) (hT : v.threads T = some (.slow (.store 0)))
    (h : Advertiser.step v (.run T err sync) = some w) : Fits w (told [.phase true] d) := by
  obtain ⟨pc,r,q,hpc,_,hn,rfl⟩ := step_run.mp h
  obtain rfl := Option.some.inj (hT.symm.trans hpc)
  obtain ⟨hact,hconn,_⟩ := hv.fits T _ hT
  simp only [pcNext, Advertiser.slowNext, if_true, Option.map_some, Option.some.injEq,
    Prod.mk.injEq] at hn
  obtain ⟨rfl,rfl⟩ := hn
  refine ⟨by simp [hconn],hf.advertising,?_,fun he => ?_⟩
  · exact fun _ slow filtered ho => (hair T _ slow filtered hT ho rfl).symm
  · have := he.symm.trans (hf.advertising hact)
    simp at this

theorem connected_tells (hv : Truthful v) {err : ℤ} {d : Status × Bool}
    (hh : v.host = .callback (.connLock 0)) (h : Advertiser.step v (.host err) = some w) :
    Fits w (told [.status .connected] d) := by
  obtain ⟨_,r,host,hn,rfl⟩ := step_host.mp h
  have hobj := hv.host
  rw [hh] at hn hobj
  simp only [Advertiser.hostStep, hostNext, connectedLock, if_true, Option.map_some,
    Option.some.injEq, Prod.mk.injEq] at hn
  obtain ⟨rfl,rfl⟩ := hn
  refine ⟨fun _ => rfl,by simp,?_,by simp [told, tell]⟩
  rintro _ slow filtered (ho : v.radio.obj = _)
  simp [ho, ObjFits, hostPc] at hobj

theorem step_announces (hv : Truthful v) (hair : Aired v) {d : Status × Bool} (hf : Fits v d)
    {T : Caller} {ns : List Notice} (h : Advertiser.step v a = some w)
    (ha : announces v a = some (T,ns)) : Fits w (told ns d) := by
  cases a with
  | run T' err sync =>
    obtain ⟨pc,_,_,hT,_⟩ := step_run.mp h
    rcases run_announces hv hT ha with ⟨e,rfl,rfl⟩ | ⟨rfl,rfl⟩
    · exact start_tells hv hair d hT h
    · exact slow_tells hv hair hf hT h
  | host err =>
    simp only [announces] at ha
    split at ha
    · rename_i e hh
      simp only [Option.ite_none_right_eq_some, Option.some.injEq, Prod.mk.injEq] at ha
      obtain ⟨rfl,_,rfl⟩ := ha
      exact connected_tells hv hh h
    · simp at ha
  | _ => simp [announces] at ha

variable {board : Board} {s t : State}

/-- What a context has still to store: a running call its status, and then what it
comes to. -/
def unsaid (s : State) (T : Caller) : List Notice :=
  ((s.leds.calls T).bind Call.stores).toList.map .status++s.todo T

/-- One context at most has something to tell, and behind it the LEDs are right. -/
def Told (s : State) : Prop := ∃ T, (∀ U, U ≠ T → busy s U = false) ∧
  Fits s.adv (told (unsaid s T) (shown s.leds.leds))

/-- The state changes only where nobody is about to tell of it, and neither a call nor
the blink handler begins while the other is running. -/
def Undisturbed (s : State) : Label → Prop
  | .adv a => (announces s.adv a).isSome = true → ∀ T, busy s T = false
  | .tell _ => s.leds.blink = none
  | .leds .enter => ∀ T, s.leds.calls T = none
  | _ => True

instance (s : State) : ∀ a, Decidable (Undisturbed s a)
  | .adv _ => inferInstanceAs (Decidable (_ → _))
  | .tell _ => inferInstanceAs (Decidable (_ = _))
  | .leds .enter => inferInstanceAs (Decidable (∀ _, _))
  | .wait _ | .leds (.wait _) | .leds .expire | .leds (.begin _ _) | .leds (.phase _)
  | .leds (.call _) | .leds .blink => .isTrue trivial

theorem unsaid_idle {T : Caller} (h : busy s T = false) : unsaid s T = [] := by
  obtain ⟨htodo,hcall⟩ := busy_false.mp h
  simp [unsaid, htodo, hcall]

theorem Told.of_busy (h : Told s) {T : Caller} (hT : busy s T = true) :
    (∀ U, U ≠ T → busy s U = false) ∧ Fits s.adv (told (unsaid s T) (shown s.leds.leds)) := by
  obtain ⟨T',hother,hfits⟩ := h
  by_cases he : T = T'
  · subst he
    exact ⟨hother,hfits⟩
  · rw [hother T he] at hT
    contradiction

theorem Told.of_idle (h : Told s) (hq : ∀ T, busy s T = false) :
    Fits s.adv (shown s.leds.leds) := by
  obtain ⟨T,_,hfits⟩ := h
  rw [unsaid_idle (hq T)] at hfits
  exact hfits

theorem setPin_phase (led : Option ℕ) (on : Bool) (l : Leds) :
    (StatusLeds.setPin led on l).advSlowPhase = l.advSlowPhase := by
  cases led <;> rfl

theorem callNext_shown (c : Call) (l : Leds) :
    shown (StatusLeds.callNext board c l).1 = told (c.stores.toList.map .status) (shown l) := by
  rcases c with _ | ⟨_,_ | _ | _⟩ | _ | _ | _ | _ <;>
    simp [shown, told, tell, Call.stores, StatusLeds.callNext, setPin_phase,
      StatusLeds.submitBlink, StatusLeds.cancelBlink]

theorem callNext_stores (c : Call) (l : Leds) :
    (StatusLeds.callNext board c l).2.bind Call.stores = none := by
  rcases c with _ | ⟨_,_ | _ | _⟩ | _ | _ | _ | _ <;> try rfl
  rename_i state
  cases state <;> rfl

theorem blinkNext_shown (pc : BlinkPc) (l : Leds) :
    shown (StatusLeds.blinkNext board pc l).1 = shown l := by
  cases pc with
  | pin on => simp [shown, StatusLeds.blinkNext, setPin_phase]
  | _ => rfl

theorem told_append (ns ms : List Notice) (d : Status × Bool) :
    told (ns++ms) d = told ms (told ns d) := List.foldl_append

theorem Told.context (h : Told s) {T : Caller} (hT : busy s T = true) (hadv : t.adv = s.adv)
    (hother : ∀ U, U ≠ T → t.todo U = s.todo U ∧ t.leds.calls U = s.leds.calls U)
    (htold : told (unsaid t T) (shown t.leds.leds) = told (unsaid s T) (shown s.leds.leds)) :
    Told t := by
  obtain ⟨hone,hfits⟩ := h.of_busy hT
  refine ⟨T,fun U hU => ?_,?_⟩
  · obtain ⟨htodo,hcall⟩ := hother U hU
    rw [busy, htodo, hcall]
    exact hone U hU
  · rw [hadv, htold]
    exact hfits

theorem Told.frame (h : Told s) (hadv : t.adv = s.adv) (htodo : t.todo = s.todo)
    (hcalls : t.leds.calls = s.leds.calls) (hshown : shown t.leds.leds = shown s.leds.leds) :
    Told t := by
  obtain ⟨T,hother,hfits⟩ := h
  refine ⟨T,fun U hU => ?_,?_⟩
  · rw [busy, htodo, hcalls]
    exact hother U hU
  · rw [hadv, unsaid, htodo, hcalls, hshown]
    exact hfits

theorem tell_told (h : Told s) {T : Caller} (ht : step board s (.tell T) = some t) : Told t := by
  obtain ⟨hcall,_,n,rest,leds,htodo,hl,rfl⟩ := step_tell.mp ht
  have hT : busy s T = true := by simp [busy, htodo]
  cases n with
  | phase slow =>
    obtain rfl := Option.some.inj hl
    refine h.context hT rfl (fun U hU => ⟨by simp [hU],rfl⟩) ?_
    simp [unsaid, hcall, htodo, told, tell, shown]
  | status state =>
    obtain ⟨_,rfl⟩ := StatusLeds.step_begin hl
    refine h.context hT rfl (fun U hU => by simp [StatusLeds.setCall, hU]) ?_
    simp [unsaid, hcall, htodo, told, tell, StatusLeds.setCall, Call.stores]

theorem leds_told (h : Told s) {a : StatusLeds.Label} (ht : step board s (.leds a) = some t) :
    Told t := by
  obtain ⟨ho,_,leds,hl,rfl⟩ := step_leds.mp ht
  cases a with
  | wait | begin | phase => simp [ownsLeds] at ho
  | expire =>
    obtain ⟨w,_,rfl⟩ := Option.map_eq_some_iff.mp hl
    exact h.frame rfl rfl rfl rfl
  | enter =>
    obtain ⟨_,hl⟩ := Option.ite_none_right_eq_some.mp hl
    obtain ⟨w,_,rfl⟩ := Option.map_eq_some_iff.mp hl
    exact h.frame rfl rfl rfl rfl
  | blink =>
    obtain ⟨pc,_,rfl⟩ := StatusLeds.step_blink.mp hl
    exact h.frame rfl rfl rfl (blinkNext_shown pc _)
  | call T =>
    obtain ⟨c,hc,rfl⟩ := StatusLeds.step_call.mp hl
    refine h.context (T := T) (by simp [busy, hc]) rfl ?_ ?_
    · exact fun U hU => ⟨rfl,by simp [StatusLeds.setCall, hU]⟩
    · simp [unsaid, StatusLeds.setCall, hc, callNext_stores, callNext_shown, told_append]

theorem adv_told (hv : Truthful s.adv) (hunc : Uncancelled s.adv) (hair : Aired s.adv)
    (h : Told s) {a : Advertiser.Label} (hu : Undisturbed s (.adv a))
    (ht : step board s (.adv a) = some t) : Told t := by
  obtain ⟨_,_,_,adv,ha,rfl⟩ := step_adv.mp ht
  cases hann : announces s.adv a with
  | none =>
    obtain ⟨T,hother,hfits⟩ := h
    exact ⟨T,hother,(step_quiet hv hunc ha hann).fits hfits⟩
  | some c =>
    obtain ⟨T,ns⟩ := c
    have hq := hu (by simp [hann])
    have hfits := step_announces hv hair (h.of_idle hq) ha hann
    have hcall := (busy_false.mp (hq T)).2
    refine ⟨T,fun U hU => ?_,?_⟩
    · simpa [busy, setTodo, hU] using hq U
    · simpa [unsaid, setTodo, hcall] using hfits

/-- What is known of every state of an undisturbed run. -/
structure Sound (s : State) : Prop where
  truthful : Truthful s.adv
  uncancelled : Uncancelled s.adv
  aired : Aired s.adv
  told : Told s

theorem init_sound (bonds : List ℕ) : Sound (init bonds) := by
  have hconn : (init bonds).adv.radio.main.currentConn = false := rfl
  refine ⟨init_truthful bonds,rfl,?_,.main,fun _ _ => rfl,?_⟩
  · rintro T pc slow filtered _ (ho : Advertiser.Obj.free = _)
    simp at ho
  · refine ⟨fun _ => rfl,by simp [init, Advertiser.init, boot],?_,by simp [unsaid, init,
      StatusLeds.init, StatusLeds.ledsInit, Advertiser.init, told, shown]⟩
    rintro _ slow filtered (ho : Advertiser.Obj.free = _)
    simp at ho

theorem step_sound {a : Label} (hs : Sound s) (hu : Undisturbed s a)
    (h : step board s a = some t) : Sound t := by
  cases a with
  | wait ms =>
    obtain ⟨adv,leds,ha,hl,rfl⟩ := step_wait.mp h
    obtain ⟨T,hother,hfits⟩ := hs.told
    obtain rfl := Option.some.inj hl
    exact ⟨step_truthful hs.truthful ha,step_uncancelled hs.uncancelled ha,
      step_aired hs.truthful hs.aired ha,T,hother,
      (step_quiet hs.truthful hs.uncancelled ha rfl).fits hfits⟩
  | adv a =>
    obtain ⟨_,_,_,adv,ha,rfl⟩ := step_adv.mp h
    exact ⟨step_truthful hs.truthful ha,step_uncancelled hs.uncancelled ha,
      step_aired hs.truthful hs.aired ha,
      adv_told hs.truthful hs.uncancelled hs.aired hs.told hu h⟩
  | tell T =>
    have ht := tell_told hs.told h
    obtain ⟨_,_,_,_,_,_,_,rfl⟩ := step_tell.mp h
    exact ⟨hs.truthful,hs.uncancelled,hs.aired,ht⟩
  | leds a =>
    have ht := leds_told hs.told h
    obtain ⟨_,_,_,_,rfl⟩ := step_leds.mp h
    exact ⟨hs.truthful,hs.uncancelled,hs.aired,ht⟩

def ledsSteps (s : State) : Label → List StatusLeds.Label
  | .wait ms => [.wait ms]
  | .adv _ => []
  | .tell T => (s.todo T).head?.toList.map (noticeLabel T)
  | .leds a => [a]

theorem step_ledsSteps {a : Label} (h : step board s a = some t) :
    run (StatusLeds.step board) (ledsSteps s a) s.leds = some t.leds := by
  cases a with
  | wait ms =>
    obtain ⟨_,leds,_,hl,rfl⟩ := step_wait.mp h
    simp [ledsSteps, run, hl]
  | adv a =>
    obtain ⟨_,_,_,_,_,rfl⟩ := step_adv.mp h
    rfl
  | tell T =>
    obtain ⟨_,_,n,rest,leds,htodo,hl,rfl⟩ := step_tell.mp h
    simp [ledsSteps, htodo, run, hl]
  | leds a =>
    obtain ⟨_,_,leds,hl,rfl⟩ := step_leds.mp h
    simp [ledsSteps, run, hl]

theorem step_apart {a : Label} (hs : Sound s) (hu : Undisturbed s a)
    (h : step board s a = some t) :
    AllSteps (StatusLeds.step board) LedExclusion.Apart (ledsSteps s a) s.leds := by
  have hone (b : StatusLeds.Label) (hb : LedExclusion.Apart s.leds b) :
      AllSteps (StatusLeds.step board) LedExclusion.Apart [b] s.leds := by
    refine ⟨hb,?_⟩
    cases StatusLeds.step board s.leds b <;> trivial
  cases a with
  | wait ms => exact hone _ trivial
  | adv a => trivial
  | tell T =>
    obtain ⟨hcall,_,n,rest,leds,htodo,hl,rfl⟩ := step_tell.mp h
    have hother := (hs.told.of_busy (T := T) (by simp [busy, htodo])).1
    simp only [ledsSteps, htodo, List.head?_cons, Option.toList_some, List.map_cons, List.map_nil]
    apply hone
    cases n with
    | phase slow => trivial
    | status state =>
      refine ⟨fun U => ?_,hu⟩
      by_cases hU : U = T
      · rw [hU, hcall]
      · exact (busy_false.mp (hother U hU)).2
  | leds a =>
    obtain ⟨ho,_,leds,hl,rfl⟩ := step_leds.mp h
    apply hone
    cases a with
    | begin => simp [ownsLeds] at ho
    | enter => exact ⟨hu,(Option.ite_none_right_eq_some.mp hl).1.1⟩
    | _ => trivial

theorem ledsSteps_simulates : Simulation.Simulates (step board) (StatusLeds.step board) Undisturbed
    ledsSteps (fun s l => l = s.leds ∧ Sound s) := by
  rintro s a t l ⟨rfl,hs⟩ hu h
  exact ⟨_,step_ledsSteps h,rfl,step_sound hs hu h⟩

/-- A call or the handler keeps the advertising LED blinking. -/
structure Pulsing (l : StatusLeds.State) : Prop where
  returned : l.blink = none → l.leds.advBlinkWork.handler = .returned
  uncancelled : l.leds.advBlinkWork.handler ≠ .canceling
  pulse : l.leds.currentStatus = .advertising → l.leds.advBlinkWork.pending = true ∨
    (∃ pc, l.blink = some pc ∧ pc ≠ .leave) ∨ ∃ T, l.calls T ≠ none

theorem setPin_work (led : Option ℕ) (on : Bool) (l : Leds) :
    (StatusLeds.setPin led on l).advBlinkWork = l.advBlinkWork := by
  cases led <;> rfl

theorem callNext_handler {c : Call} {l : Leds} (h : l.advBlinkWork.handler = .returned) :
    (StatusLeds.callNext board c l).1.advBlinkWork.handler = .returned := by
  rcases c with _ | ⟨_,_ | _ | _⟩ | _ | _ | _ | _ <;>
    simp [StatusLeds.callNext, StatusLeds.submitBlink, StatusLeds.cancelBlink, setPin_work,
      rescheduleNoWait, cancel, h]

theorem blinkNext_handler {pc : BlinkPc} (l : Leds) (hpc : pc ≠ .leave) :
    (StatusLeds.blinkNext board pc l).1.advBlinkWork.handler = l.advBlinkWork.handler := by
  cases pc with
  | leave => exact absurd rfl hpc
  | pin on => exact congrArg Work.handler (setPin_work _ on l)
  | _ => rfl

theorem call_pulsing {l : StatusLeds.State} {T : Caller} {c : Call}
    (hs : LedExclusion.Solo l) (hp : Pulsing l) (hc : l.calls T = some c) :
    Pulsing (StatusLeds.setCall l T (StatusLeds.callNext board c l.leds)) := by
  have hret := hp.returned (hs.alone T c hc).2
  have hret' : (StatusLeds.callNext board c l.leds).1.advBlinkWork.handler = .returned :=
    callNext_handler hret
  refine ⟨fun _ => hret',by simp [StatusLeds.setCall, hret'],fun hadv => ?_⟩
  have hgo (c' : Call) (hn : (StatusLeds.callNext board c l.leds).2 = some c') :
      ∃ U, (StatusLeds.setCall l T (StatusLeds.callNext board c l.leds)).calls U ≠ none :=
    ⟨T,by simp [StatusLeds.setCall, hn]⟩
  cases c with
  | store | clearBlink | cancel => exact Or.inr (Or.inr (hgo _ rfl))
  | off state r => cases r <;> exact Or.inr (Or.inr (hgo _ rfl))
  | reschedule =>
    left
    simp [StatusLeds.setCall, StatusLeds.callNext, StatusLeds.submitBlink, rescheduleNoWait,
      submit, hret, Work.pending]
  | on state =>
    have hstat : l.leds.currentStatus = .advertising :=
      (StatusLeds.setPin_status _ _ _).symm.trans hadv
    exact absurd ((hs.status T _ hc state.1 rfl).trans hstat) state.2

theorem blink_pulsing {l : StatusLeds.State} {pc : BlinkPc} (hb : Distinct board)
    (hs : LedExclusion.Solo l) (hp : Pulsing l) (hpc : l.blink = some pc) :
    Pulsing (StatusLeds.setBlink l (StatusLeds.blinkNext board pc l.leds)) := by
  have hgo (pc' : BlinkPc) (hn : (StatusLeds.blinkNext board pc l.leds).2 = some pc')
      (hne : pc ≠ .leave) (hpulse : l.leds.currentStatus = .advertising →
        (StatusLeds.blinkNext board pc l.leds).1.advBlinkWork.pending = true ∨ pc' ≠ .leave) :
      Pulsing (StatusLeds.setBlink l (StatusLeds.blinkNext board pc l.leds)) := by
    have hkept : (StatusLeds.blinkNext board pc l.leds).1.advBlinkWork.handler =
        l.leds.advBlinkWork.handler := blinkNext_handler l.leds hne
    refine ⟨fun hnone => ?_,?_,fun hadv => ?_⟩
    · simp [StatusLeds.setBlink, hn] at hnone
    · exact fun hc => hp.uncancelled (hkept.symm.trans hc)
    · have hstat := (StatusLeds.blinkNext_status board pc l.leds).symm.trans hadv
      exact (hpulse hstat).imp_right (fun hp' => Or.inl ⟨pc',hn,hp'⟩)
  cases pc with
  | check =>
    refine hgo _ rfl (by simp) (fun hstat => ?_)
    obtain ⟨led,hled⟩ := Option.isSome_iff_exists.mp (hb.wired .advertising)
    simp [hstat, hled]
  | reschedule ms => exact hgo _ rfl (by simp) (fun _ => Or.inl rfl)
  | leave =>
    refine ⟨fun _ => rfl,by simp [StatusLeds.setBlink, StatusLeds.blinkNext,
      StatusLeds.finishBlink, finish],fun hadv => ?_⟩
    rcases hp.pulse hadv with hpend | ⟨pc,hpc',hne⟩ | ⟨T,hT⟩
    · exact Or.inl hpend
    · exact absurd (Option.some.inj (hpc.symm.trans hpc')).symm hne
    · exact absurd (hs.calls hpc T) hT
  | delay =>
    refine hgo _ rfl (by simp) (fun _ => Or.inr ?_)
    split <;> simp
  | _ => exact hgo _ rfl (by simp) (fun _ => Or.inr (by simp))

theorem step_pulsing {l m : StatusLeds.State} {a : StatusLeds.Label} (hb : Distinct board)
    (hs : LedExclusion.Solo l) (hp : Pulsing l)
    (h : StatusLeds.step board l a = some m) : Pulsing m := by
  cases a with
  | wait | phase =>
    obtain rfl := Option.some.inj h
    exact ⟨hp.returned,hp.uncancelled,hp.pulse⟩
  | expire =>
    obtain ⟨w,hw,rfl⟩ := Option.map_eq_some_iff.mp h
    have hkept := expire_handler hw
    refine ⟨fun hbl => hkept.trans (hp.returned hbl),?_,fun _ => Or.inl ?_⟩
    · exact fun hc => hp.uncancelled (hkept.symm.trans hc)
    · exact expire_pending hp.uncancelled hw
  | enter =>
    obtain ⟨_,h⟩ := Option.ite_none_right_eq_some.mp h
    obtain ⟨w,hw,rfl⟩ := Option.map_eq_some_iff.mp h
    obtain ⟨_,rfl⟩ := take_some.mp hw
    exact ⟨by simp [StatusLeds.setBlink],by simp [StatusLeds.setBlink],
      fun _ => Or.inr (Or.inl ⟨.check,rfl,by simp⟩)⟩
  | begin T state =>
    obtain ⟨_,rfl⟩ := StatusLeds.step_begin h
    exact ⟨hp.returned,hp.uncancelled,fun _ => Or.inr (Or.inr ⟨T,by simp [StatusLeds.setCall]⟩)⟩
  | call T =>
    obtain ⟨c,hc,rfl⟩ := StatusLeds.step_call.mp h
    exact call_pulsing hs hp hc
  | blink =>
    obtain ⟨pc,hpc,rfl⟩ := StatusLeds.step_blink.mp h
    exact blink_pulsing hb hs hp hpc

structure Steady (board : Board) (l : StatusLeds.State) : Prop where
  solo : LedExclusion.Solo l
  pulsing : Pulsing l
  lit : LedExclusion.Answered board true l

theorem run_steady (hb : Distinct board) {bs : List StatusLeds.Label} {l : StatusLeds.State}
    (h : run (StatusLeds.step board) bs StatusLeds.init = some l)
    (hc : AllSteps (StatusLeds.step board) LedExclusion.Apart bs StatusLeds.init) :
    Steady board l := by
  have hsolo : LedExclusion.Solo StatusLeds.init := LedExclusion.Rest.solo ⟨fun _ => rfl,rfl⟩
  have hpulse : Pulsing StatusLeds.init := ⟨fun _ => rfl,nofun,nofun⟩
  obtain ⟨hs,hp⟩ := invariant_of (I := fun m => LedExclusion.Solo m ∧ Pulsing m) ⟨hsolo,hpulse⟩
    (fun _ _ _ hi hap hm =>
      ⟨LedExclusion.step_solo hi.1 hap hm,step_pulsing hb hi.1 hi.2 hm⟩) h hc
  have ho : AllSteps (StatusLeds.step board) LedExclusion.Orderly bs StatusLeds.init :=
    allSteps_imp (fun _ _ _ => LedExclusion.step_solo)
      (fun _ _ hi _ => LedExclusion.solo_orderly hi) hsolo hc
  exact ⟨hs,hp,LedExclusion.run_lit hb h ho⟩

theorem Steady.lit_status {l : StatusLeds.State} (h : Steady board l)
    (hq : ∀ T, l.calls T = none) {r : Status} (hr : l.leds.lit (board r) = true) :
    r = l.leds.currentStatus := by
  by_contra hne
  obtain ⟨T,hT⟩ := h.lit r hr hne
  simp [hq T] at hT

def Untold (s : State) : Prop := (∃ T state, .status state ∈ s.todo T) ∨
  s.adv.radio.main.currentConn = false ∧ s.adv.radio.main.advActive = false

theorem announces_status (hv : Truthful v) {T : Caller} {ns : List Notice}
    (h : Advertiser.step v a = some w) (ha : announces v a = some (T,ns)) :
    (∃ state, .status state ∈ ns) ∨ v.radio.main.advActive = true := by
  cases a with
  | run T' err sync =>
    obtain ⟨pc,_,_,hT,_⟩ := step_run.mp h
    rcases run_announces hv hT ha with ⟨e,rfl,rfl⟩ | ⟨rfl,rfl⟩
    · unfold startNotices
      split
      · exact Or.inl ⟨.advertising,by simp⟩
      · exact Or.inl ⟨.error,by simp⟩
    · exact Or.inr (hv.fits T' _ hT).1
  | host err =>
    simp only [announces] at ha
    split at ha
    · simp only [Option.ite_none_right_eq_some, Option.some.injEq, Prod.mk.injEq] at ha
      obtain ⟨_,_,rfl⟩ := ha
      exact Or.inl ⟨.connected,by simp⟩
    · simp at ha
  | _ => simp [announces] at ha

theorem step_untold {a : Label} (hs : Sound s) (hu : Undisturbed s a) (hun : Untold s)
    (h : step board s a = some t) : LedExclusion.Begun (ledsSteps s a) ∨ Untold t := by
  cases a with
  | wait ms =>
    obtain ⟨adv,leds,ha,_,rfl⟩ := step_wait.mp h
    obtain rfl := Advertiser.step_wait.mp ha
    exact Or.inr hun
  | leds a =>
    obtain ⟨_,_,_,_,rfl⟩ := step_leds.mp h
    exact Or.inr hun
  | tell T =>
    obtain ⟨_,_,n,rest,leds,htodo,_,rfl⟩ := step_tell.mp h
    cases n with
    | status state => exact Or.inl ⟨T,state,by simp [ledsSteps, htodo, noticeLabel]⟩
    | phase slow =>
      refine Or.inr (hun.imp_left ?_)
      rintro ⟨U,state,hm⟩
      refine ⟨U,state,?_⟩
      by_cases hU : U = T
      · subst hU
        rw [htodo] at hm
        simpa using hm
      · simpa [hU] using hm
  | adv a =>
    obtain ⟨_,_,_,adv,ha,rfl⟩ := step_adv.mp h
    right
    cases hann : announces s.adv a with
    | none =>
      have hq := step_quiet hs.truthful hs.uncancelled ha hann
      refine hun.imp_right (fun hflags => ⟨?_,?_⟩)
      · by_contra hc
        simpa [hflags.1] using hq.conn (by simpa using hc)
      · by_contra hact
        simpa [hflags.2] using hq.active (by simpa using hact)
    | some c =>
      obtain ⟨T,ns⟩ := c
      rcases announces_status hs.truthful ha hann with ⟨state,hm⟩ | hact
      · exact Or.inl ⟨T,state,by simpa [setTodo] using hm⟩
      · -- nobody has anything to tell, and the flag is set
        rcases hun with ⟨U,state,hm⟩ | ⟨_,hoff⟩
        · have hidle := (busy_false.mp (hu (by simp [hann]) U)).1
          simp [hidle] at hm
        · simp [hact] at hoff

theorem run_untold {es : List Label} {bonds : List ℕ}
    (h : run (step board) es (init bonds) = some s)
    (hu : AllSteps (step board) Undisturbed es (init bonds)) :
    LedExclusion.Begun (trace (step board) ledsSteps es (init bonds)) ∨ Untold s := by
  refine (history (C := Undisturbed) (I := fun es s => Sound s ∧
    (LedExclusion.Begun (trace (step board) ledsSteps es (init bonds)) ∨ Untold s)) ?_ ?_ h hu).2
  · exact ⟨init_sound bonds,Or.inr (Or.inr ⟨rfl,rfl⟩)⟩
  · rintro es s a t hs ⟨hsound,hi⟩ hu ht
    refine ⟨step_sound hsound hu ht,?_⟩
    rw [trace_snoc ledsSteps es a (init bonds) s hs]
    rcases hi with ⟨T,state,hm⟩ | hun
    · exact Or.inl ⟨T,state,List.mem_append_left _ hm⟩
    · refine (step_untold hsound hu hun ht).imp_left ?_
      rintro ⟨T,state,hm⟩
      exact ⟨T,state,List.mem_append_right _ hm⟩

/-- What the LEDs tell is so: a lit LED of a link, a blinking one of an advertiser, at
its interval, and one of an error only while the retry is to come. -/
structure Tells (board : Board) (s : State) : Prop where
  connected : s.adv.radio.main.currentConn = true →
    ∀ r, s.leds.leds.lit (board r) = true ↔ r = .connected
  advertising : s.adv.radio.main.advActive = true →
    (∀ r, s.leds.leds.lit (board r) = true → r = .advertising) ∧
      (s.leds.leds.advBlinkWork.pending = true ∨ s.leds.blink ≠ none)
  interval : ∀ slow filtered, s.adv.radio.obj = .advertiser slow filtered →
    s.leds.leds.advSlowPhase = slow
  error : s.leds.leds.lit (board .error) = true →
    s.adv.radio.main.currentConn = false ∧ s.adv.radio.main.advActive = false ∧
      s.adv.radio.main.advRetryWork.pending = true

/-- In every undisturbed run the LEDs tell, once no thread of the advertiser and no
context with something to tell is running, what the device is doing. -/
theorem leds_tell (hb : Distinct board) (bonds : List ℕ) (es : List Label) (s : State)
    (h : run (step board) es (init bonds) = some s)
    (hu : AllSteps (step board) Undisturbed es (init bonds))
    (hth : ∀ T, s.adv.threads T = none) (hq : ∀ T, busy s T = false) : Tells board s := by
  obtain ⟨l,hl,rfl,hs⟩ := ledsSteps_simulates.run ⟨rfl,init_sound bonds⟩ h hu
  have hap := ledsSteps_simulates.allSteps (D := LedExclusion.Apart) ?_ ⟨rfl,init_sound bonds⟩ h hu
  swap
  · rintro s a t l ⟨rfl,hs⟩ hu ht
    exact step_apart hs hu ht
  -- what is known of the LEDs alone holds of their run, and all that was announced is told
  have hsteady := run_steady hb hl hap
  have hfits := hs.told.of_idle hq
  have hcalls (T : Caller) : s.leds.calls T = none := (busy_false.mp (hq T)).2
  refine ⟨fun hconn => ?_,fun hact => ⟨fun r hr => ?_,?_⟩,?_,fun hlit => ?_⟩
  · -- the link was announced, so that some call has begun and the LEDs are exclusive
    have hstat : s.leds.leds.currentStatus = .connected := hfits.connected hconn
    have hbegun : LedExclusion.Begun (trace (step board) ledsSteps es (init bonds)) := by
      refine (run_untold h hu).resolve_right ?_
      rintro (⟨T,state,hm⟩ | ⟨hoff,_⟩)
      · simp [(busy_false.mp (hq T)).1] at hm
      · simp [hconn] at hoff
    have hone := LedExclusion.apart_exclusive hb hl hap hbegun hcalls
    refine fun r => ⟨fun hr => (hone.alone r hr).trans hstat,?_⟩
    rintro rfl
    exact hstat ▸ hone.solid (by simp [hstat])
  · exact (hsteady.lit_status hcalls hr).trans (hfits.advertising hact)
  · rcases hsteady.pulsing.pulse (hfits.advertising hact) with hp | ⟨pc,hpc,_⟩ | ⟨T,hT⟩
    · exact Or.inl hp
    · exact Or.inr (by simp [hpc])
    · exact absurd (hcalls T) hT
  · exact hfits.phase (fun T pc hT => by simp [hth T] at hT)
  · have hstat : s.leds.leds.currentStatus = .error := (hsteady.lit_status hcalls hlit).symm
    refine ⟨?_,?_,?_⟩
    · by_contra hc
      exact absurd (hstat.symm.trans (hfits.connected (by simpa using hc))) (by simp)
    · by_contra hact
      exact absurd (hstat.symm.trans (hfits.advertising (by simpa using hact))) (by simp)
    · rcases hfits.error hstat with hp | ⟨T,pc,hT,_⟩
      · exact hp
      · simp [hth T] at hT

def started : List Label := List.replicate 6 (.adv (.run .boot 0 false))

def advertisingTold : List Label :=
  List.flatten [[.tell .main, .tell .main], List.replicate 6 (.leds (.call .main)),
    [.adv (.run .boot 0 false)]]

def connectedTold : List Label :=
  List.flatten [[.adv .attempt, .adv (.connected 0)], List.replicate 3 (.adv (.host 0)),
    [.tell .connected], List.replicate 6 (.leds (.call .connected))]

theorem leds_tell_connected :
    ∃ t, run (step LedExclusion.threeLeds)
        (List.flatten [started, advertisingTold, connectedTold]) (init []) = some t ∧
      Tells LedExclusion.threeLeds t := by
  have hu : AllSteps (step LedExclusion.threeLeds) Undisturbed
      (List.flatten [started, advertisingTold, connectedTold]) (init []) := by decide +kernel
  refine ⟨_,rfl,leds_tell LedExclusion.threeLeds_distinct [] _ _ ?_ hu (fun T => ?_) (fun T => ?_)⟩
  · rfl
  · cases T <;> rfl
  · cases T <;> rfl

end NrfProxy.StatusTruth
