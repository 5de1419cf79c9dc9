import NrfProxy.EncryptionGate

/-!
# The security watchdog

The item is a one-shot: it is armed for a link by `on_connected`, and its handler
consumes it. The result of `bt_conn_disconnect` is not looked at, so that the
link outlives a call which fails, and a timer which runs out under the handler of
an older link is refused. Short of these, a link which is not encrypted always has
the item pending, or its disconnect accepted.
-/

set_option autoImplicit false

namespace NrfProxy.SecurityWatchdog
open NrfProxy.Runs NrfProxy.Delayable NrfProxy.ProxyCore NrfProxy.MainState
open NrfProxy.MainThreads NrfProxy.ThreadInvariant NrfProxy.EncryptionGate

def atRest (s : State) : Prop := s.host = .idle ∧ s.work = .idle

def unsecured (m : Main) : Bool := m.currentConn && !m.linkSecure

/-- The current link cannot stay unencrypted for ever. -/
def Watched (s : State) : Prop :=
  unsecured s.main = true → s.main.securityTimeoutWork.pending = true ∨ s.dropAccepted = true

/-- The running callback will arm the watchdog, or end the link's being
unencrypted. -/
def settling : HostPc → Bool
  | .connCancelSlow | .connArmWatchdog | .discHeld | .discArm | .discCancelWatchdog | .discLock =>
    true
  | pc => reporting pc

/-- The handler has still to call `bt_conn_disconnect`, if there is a reason to. -/
def handling : WorkPc → Bool
  | .watchdogLock | .watchdogDisconnect => true
  | _ => false

/-- A disconnect which fails, or a timer which is refused, is one nobody needs any
more, or there is another watchdog for the link. -/
def Answered (s : State) : Label → Prop
  | .work err => s.work = .watchdogDisconnect → unsecured s.main = true → err = 0 ∨
      s.main.securityTimeoutWork.pending = true ∨ s.dropAccepted = true ∨ settling s.host = true
  | .expire .securityTimeout => unsecured s.main = true →
      (submit s.main.securityTimeoutWork).queued = true ∨ s.dropAccepted = true ∨
        handling s.work = true ∨ settling s.host = true
  | _ => True

instance (s : State) : ∀ a, Decidable (Answered s a)
  | .work _ => inferInstanceAs (Decidable (_ → _ → _))
  | .expire .securityTimeout => inferInstanceAs (Decidable (_ → _))
  | .expire .relayGrace | .wait _ | .enter _ | .connect _ | .security _ _ | .disconnect | .host | .recycle
  | .receive _ | .rx _ | .ready _ | .give | .writer _ _ => .isTrue trivial

variable {port : Bool} {s t : State} {a : Label}

theorem item_frame (h : step port s a = some t) (hh : a ≠ .host)
    (he : a ≠ .expire .securityTimeout) (hn : a ≠ .enter .securityTimeout) :
    ∃ r, t.main.securityTimeoutWork = { s.main.securityTimeoutWork with handler := r } := by
  cases main_cases h with
  | host => exact absurd rfl hh
  | same hm | wait hm => exact ⟨_,by rw [hm]⟩
  | give hm => exact ⟨_,congrArg (·.securityTimeoutWork) hm⟩
  | item w v ha hm =>
    cases w with
    | relayGrace => exact ⟨_,congrArg (·.securityTimeoutWork) hm⟩
    | securityTimeout => exact absurd ha (by simp [he, hn])
  | work hk =>
    rcases workNext_main hk with hm | hm | hm | hm | hm | hm
    all_goals exact ⟨_,congrArg (·.securityTimeoutWork) hm⟩
  | rx hx =>
    rcases rxNext_main hx with hm | hm | ⟨_,hm⟩
    all_goals exact ⟨_,congrArg (·.securityTimeoutWork) hm⟩
  | writer hw =>
    rcases writerNext_main hw with hm | ⟨_,hm⟩ | hm | hm
    all_goals exact ⟨_,congrArg (·.securityTimeoutWork) hm⟩

theorem pending_frame (h : step port s a = some t) (hh : a ≠ .host)
    (he : a ≠ .expire .securityTimeout) (hn : a ≠ .enter .securityTimeout) :
    t.main.securityTimeoutWork.pending = s.main.securityTimeoutWork.pending := by
  obtain ⟨r,hw⟩ := item_frame h hh he hn
  rw [hw]
  rfl

theorem unsecured_frame (h : step port s a = some t) (ha : a ≠ .host) :
    unsecured t.main = unsecured s.main := by
  have hl := link_frame h ha
  simp [unsecured, hl.conn, hl.secure]

/-- `Watched`, with those who are about to make it true. -/
def Attended (s : State) : Prop :=
  unsecured s.main = true → s.main.securityTimeoutWork.pending = true ∨ s.dropAccepted = true ∨
    handling s.work = true ∨ settling s.host = true

theorem hostNext_attended {link : Option ℕ} {up : Bool} {m n : Main} {p q : HostPc}
    (hf : HostFits link up m.currentConn m.linkSecure p) (h : hostNext m p = some (n,q))
    (hu : unsecured n = true) :
    n.securityTimeoutWork.pending = true ∨ settling q = true ∨
      settling p = false ∧ unsecured m = true ∧ n.securityTimeoutWork = m.securityTimeoutWork := by
  cases p with
  | idle => simp [hostNext] at h
  | connLock err =>
    obtain ⟨rfl,rfl⟩ := Prod.mk.inj (Option.some.inj h)
    by_cases he : err = 0
    · simp [he, settling]
    · simp [unsecured, connectedLock, he, hf.1] at hu
  | connArmWatchdog =>
    obtain ⟨rfl,rfl⟩ := Prod.mk.inj (Option.some.inj h)
    exact Or.inl rfl
  | secEntry level err =>
    obtain ⟨rfl,rfl⟩ := Prod.mk.inj (Option.some.inj h)
    by_cases hr : err = 0 ∧ btSecurityL2 ≤ level
    · simp [hr, settling, reporting]
    · exact Or.inr (Or.inr ⟨by simpa [settling, reporting] using hr,hu,rfl⟩)
  | secLock =>
    obtain ⟨rfl,rfl⟩ := Prod.mk.inj (Option.some.inj h)
    simp [unsecured, securedLock] at hu
  | secCancelWatchdog | secCancelGrace | secGive =>
    obtain ⟨rfl,rfl⟩ := Prod.mk.inj (Option.some.inj h)
    simp [unsecured, cancelSecurityTimeout, cancelRelayGrace, giveRxDataReady, hf.2.2] at hu
  | discHeld =>
    obtain ⟨rfl,rfl⟩ := Prod.mk.inj (Option.some.inj h)
    split <;> exact Or.inr (Or.inl rfl)
  | connCancelSlow | discArm | discCancelWatchdog =>
    obtain ⟨rfl,rfl⟩ := Prod.mk.inj (Option.some.inj h)
    exact Or.inr (Or.inl rfl)
  | discLock =>
    obtain ⟨rfl,rfl⟩ := Prod.mk.inj (Option.some.inj h)
    simp [unsecured, disconnectedLock, hf.1] at hu
  | discGive =>
    obtain ⟨rfl,rfl⟩ := Prod.mk.inj (Option.some.inj h)
    simp [unsecured, giveRxDataReady, hf.1] at hu

theorem host_attended (hw : Wf s) (hs : Attended s) (h : step port s .host = some t) :
    Attended t := by
  obtain ⟨n,pc,hn,rfl⟩ := step_host.mp h
  intro hu
  rcases hostNext_attended hw.host hn hu with hp | hq | ⟨hp,hm,hi⟩
  · exact Or.inl hp
  · exact Or.inr (Or.inr (Or.inr hq))
  · dsimp only
    rw [hi]
    rcases hs hm with hx | hx | hx | hx
    · exact Or.inl hx
    · exact Or.inr (Or.inl hx)
    · exact Or.inr (Or.inr (Or.inl hx))
    · simp [hp] at hx

theorem work_attended {err : ℤ} (hs : Attended s) (ha : Answered s (.work err))
    (h : step port s (.work err) = some t) : Attended t := by
  intro hu
  rw [unsecured_frame h (by simp)] at hu
  have hf := stack_frame h (by simp [thread])
  have hi := pending_frame h (by simp) (by simp) (by simp)
  obtain ⟨n,pc,hn,rfl⟩ := step_work.mp h
  rw [hi]
  dsimp only at hi ⊢
  have hold := hs hu
  cases hk : s.work with
  | idle => simp [hk, workNext] at hn
  | graceDecide | watchdogUnref | watchdogReturn =>
    rw [hk] at hold
    rcases hold with hx | hx | hx | hx
    · exact Or.inl hx
    · exact Or.inr (Or.inl (by simp [hx]))
    · simp [handling] at hx
    · exact Or.inr (Or.inr (Or.inr hx))
  | watchdogLock =>
    simp only [unsecured] at hu
    simp only [hk, workNext, hu, if_true] at hn
    obtain ⟨_,rfl⟩ := Prod.mk.inj (Option.some.inj hn)
    exact Or.inr (Or.inr (Or.inl rfl))
  | watchdogDisconnect =>
    rcases ha hk hu with hx | hx | hx | hx
    · exact Or.inr (Or.inl (by simp [hx]))
    · exact Or.inl hx
    · exact Or.inr (Or.inl (by simp [hx]))
    · exact Or.inr (Or.inr (Or.inr hx))

theorem init_attended (locked : Bool) : Attended (init locked) := by
  intro hu
  simp [init, boot, unsecured] at hu

theorem Attended.frame (hs : Attended s) (hu : unsecured t.main = unsecured s.main)
    (hi : t.main.securityTimeoutWork.pending = s.main.securityTimeoutWork.pending)
    (hd : t.dropAccepted = s.dropAccepted) (hw : t.work = s.work) (hh : t.host = s.host) :
    Attended t := by
  rw [Attended, hu, hi, hd, hw, hh]
  exact hs

theorem step_attended (hw : Wf s) (hs : Attended s) (ha : Answered s a)
    (h : step port s a = some t) : Attended t := by
  cases a with
  | host => exact host_attended hw hs h
  | work err => exact work_attended hs ha h
  | expire w =>
    have hu := unsecured_frame h (by simp)
    obtain ⟨v,hv,rfl⟩ := step_expire.mp h
    cases w with
    | relayGrace => exact hs.frame hu rfl rfl rfl rfl
    | securityTimeout =>
      intro hn
      exact (ha (hu ▸ hn)).imp_left (fun hq => (expire_submitted hv).trans hq)
  | enter w =>
    have hu := unsecured_frame h (by simp)
    obtain ⟨hi,v,_,rfl⟩ := step_enter.mp h
    cases w with
    | securityTimeout => exact fun _ => Or.inr (Or.inr (Or.inl rfl))
    | relayGrace =>
      intro hn
      rw [hu] at hn
      rcases hs hn with hx | hx | hx | hx
      · exact Or.inl hx
      · exact Or.inr (Or.inl hx)
      · simp [hi, handling] at hx
      · exact Or.inr (Or.inr (Or.inr hx))
  | connect err =>
    obtain ⟨_,hl,rfl⟩ := step_connect.mp h
    intro hu
    have hconn := (hw.pooled hl).1
    split at hu <;> simp [unsecured, hconn] at hu
  | security level err =>
    obtain ⟨hh,_,rfl⟩ := step_security.mp h
    intro hu
    rcases hs hu with hx | hx | hx | hx
    · exact Or.inl hx
    · exact Or.inr (Or.inl hx)
    · exact Or.inr (Or.inr (Or.inl hx))
    · simp [hh, settling, reporting] at hx
  | disconnect =>
    obtain ⟨_,_,rfl⟩ := step_disconnect.mp h
    exact fun _ => Or.inr (Or.inr (Or.inr rfl))
  | recycle =>
    obtain ⟨_,_,_,_,_,rfl⟩ := step_recycle.mp h
    exact hs
  | wait ms =>
    obtain rfl := step_wait.mp h
    exact hs
  | receive data =>
    obtain ⟨_,_,_,_,rfl⟩ := step_receive.mp h
    exact hs
  | rx err =>
    have hu := unsecured_frame h (by simp)
    have hi := pending_frame h (by simp) (by simp) (by simp)
    obtain ⟨n,pc,_,rfl⟩ := step_rx.mp h
    exact hs.frame hu hi rfl rfl rfl
  | ready data =>
    obtain ⟨_,_,rfl⟩ := step_ready.mp h
    exact hs
  | give =>
    obtain ⟨_,rfl⟩ := step_give.mp h
    exact hs
  | writer k err =>
    have hu := unsecured_frame h (by simp)
    have hi := pending_frame h (by simp) (by simp) (by simp)
    obtain ⟨n,q,pc,_,rfl⟩ := step_writer.mp h
    exact hs.frame hu hi rfl rfl rfl

/-- Where every disconnect the handler asks for is accepted and every timer submits
the item, or neither is needed any more, an unencrypted link always has its watchdog
or its disconnect. -/
theorem no_squatter (port locked : Bool) (es : List Label) (s : State)
    (h : run (step port) es (init locked) = some s)
    (ha : AllSteps (step port) Answered es (init locked)) (hr : atRest s) : Watched s := by
  have hs : Wf s ∧ Attended s :=
    invariant_of (I := fun s => Wf s ∧ Attended s) ⟨init_wf locked,init_attended locked⟩
      (fun s a t hs ha ht => ⟨step_wf hs.1 ht,step_attended hs.1 hs.2 ha ht⟩) h ha
  intro hu
  obtain ⟨hh,hk⟩ := hr
  rcases hs.2 hu with hx | hx | hx | hx
  · exact Or.inl hx
  · exact Or.inr hx
  · simp [hk, handling] at hx
  · simp [hh, settling, reporting] at hx

theorem host_returns {link : Option ℕ} {up : Bool} {m : Main} {p : HostPc}
    (hf : HostFits link up m.currentConn m.linkSecure p) (hu : unsecured m = true)
    (hp : settling p = false) : p = .idle ∨ hostNext m p = some (m,.idle) := by
  simp only [unsecured, Bool.and_eq_true, Bool.not_eq_true'] at hu
  cases p with
  | idle => exact Or.inl rfl
  | secEntry level err =>
    have hr : ¬ (err = 0 ∧ btSecurityL2 ≤ level) := by simpa [settling, reporting] using hp
    exact Or.inr (by simp [hostNext, hr])
  | connLock | discGive => exact absurd hu.1 (by simp [hf.1])
  | secCancelWatchdog | secCancelGrace | secGive => exact absurd hu.2 (by simp [hf.2.2])
  | connCancelSlow | connArmWatchdog | secLock | discHeld | discArm | discCancelWatchdog | discLock =>
    simp [settling, reporting] at hp

theorem unanswered_unattended (ha : ¬Answered s a) (h : step port s a = some t) :
    ¬Attended t := by
  cases a with
  | work err =>
    simp only [Answered, not_forall, not_or] at ha
    obtain ⟨hk,hu,he,hp,hd,hh⟩ := ha
    have hu' := unsecured_frame h (by simp)
    have hp' := pending_frame h (by simp) (by simp) (by simp)
    obtain ⟨n,pc,hn,rfl⟩ := step_work.mp h
    rw [hk] at hn
    obtain ⟨_,rfl⟩ := Prod.mk.inj (Option.some.inj hn)
    intro ht
    rcases ht (hu'.trans hu) with hx | hx | hx | hx
    · exact hp (hp'.symm.trans hx)
    · simp [hd, he] at hx
    · simp [handling] at hx
    · exact hh hx
  | expire w =>
    cases w with
    | relayGrace => exact absurd trivial ha
    | securityTimeout =>
      simp only [Answered, not_forall, not_or] at ha
      obtain ⟨hu,hq,hd,hk,hh⟩ := ha
      obtain ⟨v,hv,rfl⟩ := step_expire.mp h
      intro ht
      rcases ht hu with hx | hx | hx | hx
      · exact hq ((expire_submitted hv).symm.trans hx)
      · exact hd hx
      · exact hk hx
      · exact hh hx
  | _ => exact absurd trivial ha

def handlerLeft : WorkPc → ℕ
  | .idle => 0
  | .graceDecide | .watchdogReturn => 1
  | _ => 2

theorem work_unattended (hn : ¬Attended s) (hk : s.work ≠ .idle) :
    ∃ t, step port s (.work 0) = some t ∧ ¬Attended t ∧ t.host = s.host ∧
      handlerLeft t.work < handlerLeft s.work := by
  simp only [Attended, not_forall, not_or] at hn
  obtain ⟨hu,hp,hd,hw,hh⟩ := hn
  obtain ⟨n,pc,hnext,hq,hlt⟩ : ∃ n pc, workNext port s.main s.work = some (n,pc) ∧
      handling pc = false ∧ handlerLeft pc < handlerLeft s.work := by
    cases hk' : s.work with
    | idle => exact absurd hk' hk
    | watchdogLock | watchdogDisconnect => simp [hk', handling] at hw
    | graceDecide | watchdogUnref | watchdogReturn => exact ⟨_,_,rfl,rfl,by simp [handlerLeft]⟩
  have hne : s.work ≠ .watchdogDisconnect := fun hk => by simp [hk, handling] at hw
  have ht : step port s (.work 0) = some _ := step_work.mpr ⟨n,pc,hnext,rfl⟩
  refine ⟨_,ht,fun hx => ?_,rfl,hlt⟩
  have hp' := pending_frame ht (by simp) (by simp) (by simp)
  rcases hx ((unsecured_frame ht (by simp)).trans hu) with hx | hx | hx | hx
  · exact hp (hp'.symm.trans hx)
  · simp [hd, hne] at hx
  · simp [hq] at hx
  · exact hh hx

theorem unattended_rests (hw : Wf s) (hn : ¬Attended s) :
    ∃ bs t, run (step port) bs s = some t ∧ atRest t ∧ ¬Watched t := by
  -- with the callbacks at rest, the handler has at most to return
  have hrest (u : State) (hh : u.host = .idle) (hn : ¬Attended u) :
      ∃ bs t, run (step port) bs u = some t ∧ atRest t ∧ ¬Watched t := by
    have hgo (u : State) (hi : u.host = .idle ∧ ¬Attended u) (hk : u.work ≠ .idle) :
        ∃ a t, True ∧ step port u a = some t ∧ (t.host = .idle ∧ ¬Attended t) ∧
          handlerLeft t.work < handlerLeft u.work := by
      obtain ⟨t,ht,hn,hh,hlt⟩ := work_unattended hi.2 hk
      exact ⟨_,t,trivial,ht,⟨hh.trans hi.1,hn⟩,hlt⟩
    obtain ⟨bs,t,_,ht,⟨hh,hn⟩,hk⟩ := exists_rest (fun u : State => handlerLeft u.work) hgo ⟨hh,hn⟩
    exact ⟨bs,t,ht,⟨hh,hk⟩,fun hx => hn (fun hu => (hx hu).imp_right Or.inl)⟩
  have hn' := hn
  simp only [Attended, not_forall, not_or] at hn'
  obtain ⟨hu,hp,hd,hk,hh⟩ := hn'
  rcases host_returns hw.host hu (by simpa using hh) with hi | hi
  · exact hrest s hi hn
  · obtain ⟨bs,t,ht,hx⟩ := hrest { s with host := .idle } rfl
      (by simp [Attended, hu, hp, hd, hk, settling, reporting])
    exact ⟨.host::bs,t,by simp [run, step, hi, ht],hx⟩

/-- Each step which breaks the assumption may end at rest with a link nobody watches. -/
theorem unanswered_unwatched (hw : Wf s) (ha : ¬Answered s a) (h : step port s a = some t) :
    ∃ bs u, run (step port) (a::bs) s = some u ∧ atRest u ∧ ¬Watched u := by
  obtain ⟨bs,u,hu,hr⟩ : ∃ bs u, run (step port) bs t = some u ∧ atRest u ∧ ¬Watched u :=
    unattended_rests (step_wf hw h) (unanswered_unattended ha h)
  exact ⟨bs,u,by simp [run, h, hu],hr⟩

def timedOut : List Label :=
  .connect 0::List.replicate 3 .host++[.wait 60000, .expire .securityTimeout,
    .enter .securityTimeout]

def squatted (accepted : Bool) : State :=
  { init false with
    main := { boot false with now := 60000, currentConn := true, connRefs := 1 }
    link := some 0
    up := true
    links := 1
    dropAccepted := accepted }

theorem no_squatter_accepted : Watched (squatted true) :=
  no_squatter true false (timedOut++List.replicate 4 (.work 0)) (squatted true) (by decide)
    (by decide) ⟨rfl,rfl⟩

/-- The handler drops its link, and has not returned when the watchdog of the next one
runs out: its item is still cancelled. -/
def lateReturn : List Label :=
  List.flatten [timedOut, List.replicate 3 (.work 0), .disconnect::List.replicate 4 .host,
    .recycle::.connect 0::List.replicate 3 .host,
    [.wait 60000, .expire .securityTimeout, .work 0]]

/-- The handler drops the error of `bt_conn_disconnect` and does not run again. Nor does
it run where every call is accepted, but the timer's submission is refused. -/
theorem refusals_leave_squatter :
    (∃ s, run (step true) (List.flatten [timedOut, [.work 0, .work (-ENOMEM), .work 0, .work 0]])
        (init false) = some s ∧ atRest s ∧ ¬Watched s) ∧
      ∃ s, run (step true) lateReturn (init false) = some s ∧
        (∀ err, .work err ∈ lateReturn → err = 0) ∧ atRest s ∧ ¬Watched s := by
  refine ⟨⟨squatted false,by decide,⟨rfl,rfl⟩,fun hw => ?_⟩,
    ⟨{ squatted false with
        main := { (squatted false).main with now := 120000, rxDataReady := true }
        link := some 1
        links := 2 },
      by decide,fun err he => ?_,⟨rfl,rfl⟩,fun hw => ?_⟩⟩
  · rcases hw rfl with hp | hd <;> contradiction
  · simpa [lateReturn, timedOut] using he
  · rcases hw rfl with hp | hd <;> contradiction

end NrfProxy.SecurityWatchdog
