import NrfProxy.ThreadInvariant

/-!
# The authorisation of a RELAY enable

`nus_received` and `on_disconnected` run on threads of their own here. The gate
is one critical section and the relay another, with the cancel of the grace item
between them, so that the disconnect's statements fall anywhere among the three.
-/

set_option autoImplicit false

namespace NrfProxy.RelayAuthorisation
open NrfProxy.Runs NrfProxy.Delayable NrfProxy.ProxyCore NrfProxy.MainState
open NrfProxy.MainThreads NrfProxy.ThreadInvariant

/-- `relay_set(true)` is before its cancel, or between its cancel and its apply. -/
def enableCancels : RxPc → Bool
  | .relayCancel enable _ => enable
  | _ => false

def enableApplies : RxPc → Bool
  | .relayApply enable _ => enable
  | _ => false

/-- The link state is not cleared before the cancel of a RELAY enable, nor after
it with no release armed, and the armed release waits for the apply: its timer is
not refused, and its handler does not begin. -/
def Undisturbed (s : State) : Label → Prop
  | .host => s.host = .discLock → enableCancels s.rx = false ∧
      (enableApplies s.rx = true → s.main.relayGraceWork.pending = true)
  | .expire .relayGrace => enableApplies s.rx = true →
      s.main.encrypted = true ∨ (submit s.main.relayGraceWork).queued = true
  | .enter .relayGrace => enableApplies s.rx = true → s.main.encrypted = true
  | _ => True

instance (s : State) : ∀ a, Decidable (Undisturbed s a)
  | .host => inferInstanceAs (Decidable (_ → _))
  | .expire .relayGrace | .enter .relayGrace => inferInstanceAs (Decidable (_ → _))
  | .expire .securityTimeout | .enter .securityTimeout | .wait _ | .work _ | .connect _ | .security _ _
  | .disconnect | .recycle | .receive _ | .rx _ | .ready _ | .give | .writer _ _ => .isTrue trivial

structure Authorised (s : State) : Prop where
  cancels : enableCancels s.rx = true → s.main.encrypted = true
  applies : enableApplies s.rx = true →
    s.main.encrypted = true ∨ s.main.relayGraceWork.pending = true

theorem init_authorised (locked : Bool) : Authorised (init locked) :=
  ⟨by simp [init, enableCancels],by simp [init, enableApplies]⟩

variable {port : Bool} {s t : State} {a : Label}

theorem hostNext_encrypted {m n : Main} {p q : HostPc} (hp : connecting p = false)
    (h : hostNext m p = some (n,q)) (he : m.encrypted = true) :
    n.encrypted = true ∨ p = .discLock := by
  cases p with
  | idle => simp [hostNext] at h
  | connLock | connCancelSlow | connArmWatchdog => simp [connecting] at hp
  | discLock => exact Or.inr rfl
  | secLock =>
    obtain ⟨rfl,_⟩ := Prod.mk.inj (Option.some.inj h)
    simp only [Main.encrypted, Bool.and_eq_true] at he
    exact Or.inl (by simp [securedLock, Main.encrypted, he.1])
  | _ =>
    obtain ⟨rfl,_⟩ := Prod.mk.inj (Option.some.inj h)
    exact Or.inl he

theorem encrypted_kept (hw : Wf s) (hx : s.rx ≠ .idle) (h : step port s a = some t)
    (he : s.main.encrypted = true) (hd : a = .host → s.host ≠ .discLock) :
    t.main.encrypted = true := by
  by_cases ha : a = .host
  · subst ha
    obtain ⟨n,pc,hn,rfl⟩ := step_host.mp h
    exact (hostNext_encrypted (hw.rx_link hx).2 hn he).resolve_right (hd rfl)
  · rw [encrypted_frame h ha]
    exact he

theorem pending_kept (hw : Wf s) (hr : thread a ≠ .rx) (h : step port s a = some t)
    (hp : s.main.relayGraceWork.pending = true)
    (hx : a = .expire .relayGrace →
      s.main.encrypted = true ∨ (submit s.main.relayGraceWork).queued = true)
    (he : a = .enter .relayGrace → s.main.encrypted = true) :
    t.main.encrypted = true ∨ t.main.relayGraceWork.pending = true := by
  cases relay_cases h with
  | keep hs _ => exact Or.inr (hs.grace ▸ hp)
  | arm _ ht => subst ht; exact Or.inr rfl
  | cancel hh ht =>
    have hf := hw.host
    rw [hh] at hf
    subst ht
    exact Or.inl (by simp [cancelRelayGrace, Main.encrypted, hf.1, hf.2.2])
  | rxCancel | rxApply => simp [thread] at hr
  | expire hv ht =>
    subst ht
    exact (hx rfl).imp_right (fun hq => (expire_submitted hv).trans hq)
  | enter _ _ ht => subst ht; exact Or.inl (he rfl)
  | decide _ _ ht =>
    apply Or.inr
    rw [ht]
    unfold relayGraceDecide relayApply
    split <;> [split <;> exact hp; exact hp]

theorem enable_acting {p : RxPc} (h : enableCancels p = true ∨ enableApplies p = true) :
    acting p = true := by
  cases p with
  | relayCancel | relayApply => rfl
  | _ => simp [enableCancels, enableApplies] at h

theorem rx_authorised {err : ℤ} (hw : Wf s) (hs : Authorised s)
    (h : step port s (.rx err) = some t) : Authorised t := by
  have he := (stack_frame h (by simp [thread])).encrypted
  have hkey (hq : enableCancels t.rx = true ∨ enableApplies t.rx = true) :
      t.main.encrypted = true := by
    rw [he]
    obtain ⟨n,pc,hn,rfl⟩ := step_rx.mp h
    rcases rxNext_acting hn (enable_acting hq) with ⟨data,_,hl⟩ | ⟨enable,ack,hp,rfl⟩
    · simp [Main.encrypted, hl, hw.secure_conn hl]
    · simp only [enableCancels, enableApplies, Bool.false_eq_true, false_or] at hq
      exact hs.cancels (by simp [hp, enableCancels, hq])
  exact ⟨fun hq => hkey (Or.inl hq),fun hq => Or.inl (hkey (Or.inr hq))⟩

theorem step_authorised (hw : Wf s) (hs : Authorised s) (hu : Undisturbed s a)
    (h : step port s a = some t) : Authorised t := by
  by_cases hr : thread a = .rx
  · cases a with
    | receive data =>
      obtain ⟨_,_,_,_,rfl⟩ := step_receive.mp h
      exact ⟨by simp [enableCancels],by simp [enableApplies]⟩
    | rx err => exact rx_authorised hw hs h
    | _ => simp [thread] at hr
  refine ⟨?_,?_⟩ <;> rw [((step_frame h).rx hr).1] <;> intro hq
  · have hx : s.rx ≠ .idle := fun hx => by simp [hx, enableCancels] at hq
    apply encrypted_kept hw hx h (hs.cancels hq)
    rintro rfl hd
    simp [(hu hd).1] at hq
  · have hx : s.rx ≠ .idle := fun hx => by simp [hx, enableApplies] at hq
    have hpend (hp : s.main.relayGraceWork.pending = true) :
        t.main.encrypted = true ∨ t.main.relayGraceWork.pending = true :=
      pending_kept hw hr h hp (fun ha => by subst ha; exact hu hq) (fun ha => by subst ha; exact hu hq)
    rcases hs.applies hq with he | hp
    · by_cases hd : a = .host ∧ s.host = .discLock
      · obtain ⟨rfl,hd⟩ := hd
        exact hpend ((hu hd).2 hq)
      · exact Or.inl (encrypted_kept hw hx h he (fun ha hh => hd ⟨ha,hh⟩))
    · exact hpend hp

/-- A RELAY enable reaches the relay over the link it was written on, or with
the release armed, where no clear falls between the gate and the relay. -/
theorem relay_enable_authorised (port locked : Bool) (es : List Label) (s t : State) (err : ℤ)
    (h : run (step port) es (init locked) = some s)
    (hu : AllSteps (step port) Undisturbed es (init locked))
    (hx : enableApplies s.rx = true) (ht : step port s (.rx err) = some t) :
    (s.main.currentConn = true ∧ s.main.linkSecure = true ∧ s.link = some s.served) ∨
      t.main.relayGraceWork.pending = true := by
  obtain ⟨hw,ha⟩ : Wf s ∧ Authorised s := by
    refine invariant_of (I := fun s => Wf s ∧ Authorised s) ⟨init_wf locked,init_authorised locked⟩
      ?_ h hu
    rintro s a t ⟨hw,hs⟩ hu ht
    exact ⟨step_wf hw ht,step_authorised hw hs hu ht⟩
  have hlink : s.link = some s.served := (hw.rx_link (fun hi => by simp [hi, enableApplies] at hx)).1
  rcases ha.applies hx with he | hp
  · simp only [Main.encrypted, Bool.and_eq_true] at he
    exact Or.inl ⟨he.1,he.2,hlink⟩
  · apply Or.inr
    obtain ⟨n,pc,hn,rfl⟩ := step_rx.mp ht
    cases hr : s.rx with
    | relayApply enable ack =>
      rw [hr] at hn
      obtain ⟨rfl,_⟩ := Prod.mk.inj (Option.some.inj hn)
      unfold relayApply
      split <;> exact hp
    | _ => simp [hr, enableApplies] at hx

def enabling : State :=
  { init false with
    main := { boot false with
      currentConn := true
      connRefs := 1
      linkSecure := true
      rxDataReady := true }
    rx := .relayApply true (relayPacket true)
    link := some 0
    up := true
    links := 1 }

theorem relay_enable_on_link :
    (enabling.main.currentConn = true ∧ enabling.main.linkSecure = true ∧
      enabling.link = some enabling.served) ∨ enabling.main.relayGraceWork.pending = true :=
  relay_enable_authorised true false (secureLink++[.receive (relayPacket true), .rx 0, .rx 0])
    enabling
    { enabling with
      main := { enabling.main with relayEnabled := true }
      rx := .ackSend (relayPacket true) 0 } 0 (by decide) (by decide) rfl rfl

/-- The link drops between the gate and the relay. The relay was off when
`on_disconnected` looked, so that nothing is armed. -/
theorem drop_between_gate_and_relay :
    ∃ es s t, run (step true) es (init false) = some s ∧ enableApplies s.rx = true ∧
      step true s (.rx 0) = some t ∧ s.main.relayEnabled = false ∧ t.main.relayEnabled = true ∧
      s.main.currentConn = false ∧ t.main.relayGraceWork.pending = false := by
  let s : State :=
    { enabling with
      main := { boot false with rxDataReady := true }
      up := false }
  refine ⟨secureLink++[.receive (relayPacket true), .rx 0, .disconnect]++List.replicate 4 .host++
    [.rx 0],s,
    { s with
      main := { s.main with relayEnabled := true }
      rx := .ackSend (relayPacket true) 0 },?_⟩
  decide

end NrfProxy.RelayAuthorisation
