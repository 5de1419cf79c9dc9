import NrfProxy.ThreadInvariant

/-!
# The relay's fail-safe and its grace window

Callbacks and writes of one link come in order here, each finishing before the
next, while the handler of the grace item interleaves with them at any point.
-/

set_option autoImplicit false

namespace NrfProxy.RelayGrace
open NrfProxy.Runs NrfProxy.Delayable NrfProxy.ProxyCore NrfProxy.MainState
open NrfProxy.MainThreads NrfProxy.ThreadInvariant

/-- Callbacks and writes of a link start when none of them is running. -/
def InOrder (s : State) : Label → Prop
  | .connect _ | .security _ _ | .disconnect => s.rx = .idle
  | .receive _ => s.host = .idle ∧ s.up = true
  | _ => True

instance (s : State) : ∀ a, Decidable (InOrder s a)
  | .connect _ | .security _ _ | .disconnect => inferInstanceAs (Decidable (_ = _))
  | .receive _ => inferInstanceAs (Decidable (_ ∧ _))
  | .wait _ | .expire _ | .enter _ | .work _ | .host | .recycle | .rx _ | .ready _ | .give
  | .writer _ _ => .isTrue trivial

def Serial (s : State) : Prop := s.rx = .idle ∨ s.host = .idle ∧ s.up = true

/-- A RELAY command past the gate is served over an encrypted link. -/
def RxSecure (s : State) : Prop := onCommand s.rx = true → s.main.encrypted = true

structure Ordered (s : State) : Prop where
  wf : Wf s
  serial : Serial s
  rx_secure : RxSecure s

theorem init_ordered (locked : Bool) : Ordered (init locked) :=
  ⟨init_wf locked,Or.inl rfl,by simp [RxSecure, onCommand, init]⟩

variable {port : Bool} {s t : State} {a : Label}

theorem step_serial (hs : Serial s) (hi : InOrder s a) (h : step port s a = some t) : Serial t := by
  by_cases hr : thread a = .rx
  · have hf := stack_frame h (by simp [hr])
    rw [Serial, hf.host, hf.up]
    cases a with
    | receive data => exact Or.inr hi
    | rx err =>
      obtain ⟨n,pc,hn,_⟩ := step_rx.mp h
      have hx : s.rx ≠ .idle := fun hx => by simp [hx, rxNext] at hn
      exact Or.inr (hs.resolve_left hx)
    | _ => simp [thread] at hr
  · have hx := ((step_frame h).rx hr).1
    rw [Serial, hx]
    cases a with
    | connect | security | disconnect => exact Or.inl hi
    | host =>
      obtain ⟨n,pc,hn,_⟩ := step_host.mp h
      have hh : s.host ≠ .idle := fun hh => by simp [hh, hostNext] at hn
      exact Or.inl (hs.resolve_right (fun h => hh h.1))
    | recycle =>
      obtain ⟨_,_,_,_,hr,_⟩ := step_recycle.mp h
      exact Or.inl hr
    | _ =>
      have hf := stack_frame h (by simp [thread])
      rw [hf.host, hf.up]
      exact hs

theorem step_rxSecure (ho : Ordered s) (h : step port s a = some t) : RxSecure t := by
  by_cases hr : thread a = .rx
  · have hf := stack_frame h (by simp [hr])
    rw [RxSecure, hf.encrypted]
    intro hq
    cases a with
    | receive data =>
      obtain ⟨l,_,_,_,rfl⟩ := step_receive.mp h
      simp [onCommand] at hq
    | rx err =>
      obtain ⟨n,pc,hn,rfl⟩ := step_rx.mp h
      rcases rxNext_acting hn (onCommand_acting hq) with ⟨data,_,hl⟩ | ⟨enable,ack,hp,_⟩
      · simp [Main.encrypted, hl, ho.wf.secure_conn hl]
      · exact ho.rx_secure (by simp [hp, onCommand])
    | _ => simp [thread] at hr
  · rw [RxSecure, ((step_frame h).rx hr).1]
    intro hq
    by_cases ha : a = .host
    · subst ha
      obtain ⟨n,pc,hn,_⟩ := step_host.mp h
      have hh : s.host ≠ .idle := fun hh => by simp [hh, hostNext] at hn
      rw [ho.serial.resolve_right (fun h => hh h.1)] at hq
      contradiction
    · rw [encrypted_frame h ha]
      exact ho.rx_secure hq

theorem step_ordered (ho : Ordered s) (hi : InOrder s a) (h : step port s a = some t) : Ordered t :=
  ⟨step_wf ho.wf h,step_serial ho.serial hi h,step_rxSecure ho h⟩

/-- The release is still to come: the item is pending, or its handler has begun
and not yet decided. -/
def Due (s : State) : Prop := s.main.relayGraceWork.pending = true ∨ s.work = .graceDecide

instance (s : State) : Decidable (Due s) := inferInstanceAs (Decidable (_ ∨ _))

/-- `on_disconnected` is past `relay_grace_start` and has not cleared the state. -/
def clearing : HostPc → Bool
  | .discCancelWatchdog | .discLock => true
  | _ => false

/-- No handler decides over an enabled relay on the link `on_disconnected` is about to
clear, unless the item is pending again. -/
def Prompt (s : State) : Label → Prop
  | .work _ => s.work = .graceDecide → s.main.relayEnabled = true → clearing s.host = true →
      s.main.encrypted = true → s.main.relayGraceWork.pending = true
  | _ => True

instance (s : State) : ∀ a, Decidable (Prompt s a)
  | .work _ => inferInstanceAs (Decidable (_ → _))
  | .wait _ | .expire _ | .enter _ | .connect _ | .security _ _ | .disconnect | .host | .recycle
  | .receive _ | .rx _ | .ready _ | .give | .writer _ _ => .isTrue trivial

/-- The release has to be due where the link is gone or about to be cleared. -/
def Unheld (s : State) : Prop := s.main.encrypted = false ∨ clearing s.host = true

theorem hostNext_unheld {link : Option ℕ} {up : Bool} {m n : Main} {p q : HostPc}
    (hf : HostFits link up m.currentConn m.linkSecure p) (hr : m.relayEnabled = true)
    (h : hostNext m p = some (n,q)) (hu : n.encrypted = false ∨ clearing q = true) :
    m.encrypted = false ∨ clearing p = true ∨ p = .discArm := by
  cases p with
  | idle => simp [hostNext] at h
  | discArm => exact Or.inr (Or.inr rfl)
  | discCancelWatchdog | discLock => exact Or.inr (Or.inl rfl)
  | connLock err => simp [Main.encrypted, hf.1]
  | discGive => simp [Main.encrypted, hf.1]
  | discHeld =>
    obtain ⟨rfl,rfl⟩ := Prod.mk.inj (Option.some.inj h)
    simp only [hr, if_true, clearing, Bool.false_eq_true, or_false] at hu
    exact Or.inl hu
  | secEntry level err =>
    obtain ⟨rfl,rfl⟩ := Prod.mk.inj (Option.some.inj h)
    refine Or.inl (hu.resolve_right ?_)
    split <;> simp [clearing]
  | secLock =>
    obtain ⟨rfl,rfl⟩ := Prod.mk.inj (Option.some.inj h)
    simp [Main.encrypted, securedLock, hf.1, clearing] at hu
  | _ =>
    obtain ⟨rfl,rfl⟩ := Prod.mk.inj (Option.some.inj h)
    exact Or.inl (hu.resolve_right (by simp [clearing]))

theorem clearing_frame (h : step port s a = some t) (ha : a ≠ .host)
    (hc : clearing t.host = true) : clearing s.host = true := by
  cases a with
  | host => exact absurd rfl ha
  | connect err =>
    obtain ⟨_,_,rfl⟩ := step_connect.mp h
    split at hc <;> simp [clearing] at hc
  | security level err =>
    obtain ⟨_,_,rfl⟩ := step_security.mp h
    simp [clearing] at hc
  | disconnect =>
    obtain ⟨_,_,rfl⟩ := step_disconnect.mp h
    simp [clearing] at hc
  | recycle =>
    obtain ⟨_,_,_,_,_,rfl⟩ := step_recycle.mp h
    exact hc
  | _ => rwa [(stack_frame h (by simp [thread])).host] at hc

theorem keep_unheld (ho : Ordered s) (h : step port s a = some t) (hr : SameRelay s.main t.main)
    (ht : t.main.relayEnabled = true) (hu : Unheld t) :
    Unheld s ∨ s.main.relayGraceWork.pending = true := by
  rw [hr.enabled] at ht
  by_cases ha : a = .host
  · subst ha
    obtain ⟨n,pc,hn,rfl⟩ := step_host.mp h
    rcases hostNext_unheld ho.wf.host ht hn hu with he | hc | hh
    · exact Or.inl (Or.inl he)
    · exact Or.inl (Or.inr hc)
    · rw [hh] at hn
      obtain ⟨rfl,_⟩ := Prod.mk.inj (Option.some.inj hn)
      rw [← hr.grace]
      exact Or.inr rfl
  · rw [Unheld, encrypted_frame h ha] at hu
    exact Or.inl (hu.imp_right (clearing_frame h ha))

theorem command_held (ho : Ordered s) (hx : onCommand s.rx = true) : ¬Unheld s := by
  have hh : s.host = .idle := by
    rcases ho.serial with h | h
    · rw [h] at hx
      contradiction
    · exact h.1
  simp [Unheld, ho.rx_secure hx, hh, clearing]

def relayOn : List Label := .receive (relayPacket true)::List.replicate 4 (.rx 0)

def dropLink : List Label := .disconnect::List.replicate 5 .host

def afterDrop : State :=
  { init false with
    main := { boot false with
      relayEnabled := true
      rxDataReady := true
      relayGraceWork := ⟨some relayGraceMs,false,.returned⟩ }
    link := some 0
    links := 1 }

/-- A handler which finds a relay on without an encrypted link decides before its item
is armed again. -/
def Fresh (s : State) : Label → Prop
  | .work _ => s.work = .graceDecide → s.main.relayEnabled = true → s.main.encrypted = false →
      s.main.relayGraceWork.pending = false
  | _ => True

instance (s : State) : ∀ a, Decidable (Fresh s a)
  | .work _ => inferInstanceAs (Decidable (_ → _))
  | .wait _ | .expire _ | .enter _ | .connect _ | .security _ _ | .disconnect | .host | .recycle
  | .receive _ | .rx _ | .ready _ | .give | .writer _ _ => .isTrue trivial

/-- Neither the cancel of `on_security_changed` nor the clear is still to come. -/
def settled : HostPc → Bool
  | .secCancelWatchdog | .secCancelGrace | .discCancelWatchdog | .discLock => false
  | _ => true

/-- Over an encrypted link the item rests, and `on_disconnected` arms it only
for a relay that is on. -/
structure Calm (s : State) : Prop where
  rests : s.main.encrypted = true → settled s.host = true → s.main.relayGraceWork.pending = false
  armed : s.main.encrypted = true → s.host = .discArm → s.main.relayEnabled = true

theorem init_calm (locked : Bool) : Calm (init locked) :=
  ⟨fun _ _ => rfl,by simp [init]⟩

theorem hostNext_settled {link : Option ℕ} {up : Bool} {m n : Main} {p q : HostPc}
    (hf : HostFits link up m.currentConn m.linkSecure p) (h : hostNext m p = some (n,q))
    (he : n.encrypted = true) (hq : settled q = true) :
    p = .secCancelGrace ∨ m.encrypted = true ∧ settled p = true ∧
      (q = .discArm → p = .discHeld ∧ m.relayEnabled = true) := by
  cases p with
  | idle => simp [hostNext] at h
  | secCancelGrace => exact Or.inl rfl
  | secLock | discArm | secCancelWatchdog | discCancelWatchdog =>
    obtain ⟨_,rfl⟩ := Prod.mk.inj (Option.some.inj h)
    simp [settled] at hq
  | connLock err =>
    obtain ⟨rfl,_⟩ := Prod.mk.inj (Option.some.inj h)
    by_cases h0 : err = 0 <;> simp [Main.encrypted, connectedLock, h0, hf.1] at he
  | discLock =>
    obtain ⟨rfl,_⟩ := Prod.mk.inj (Option.some.inj h)
    simp [Main.encrypted, disconnectedLock, hf.1] at he
  | discHeld =>
    obtain ⟨rfl,rfl⟩ := Prod.mk.inj (Option.some.inj h)
    refine Or.inr ⟨he,rfl,?_⟩
    split <;> simp_all
  | secEntry level err =>
    obtain ⟨rfl,rfl⟩ := Prod.mk.inj (Option.some.inj h)
    refine Or.inr ⟨he,rfl,?_⟩
    split <;> simp
  | _ =>
    obtain ⟨rfl,rfl⟩ := Prod.mk.inj (Option.some.inj h)
    exact Or.inr ⟨he,rfl,by simp⟩

theorem settled_frame (h : step port s a = some t) (ha : a ≠ .host) :
    (settled t.host = true → settled s.host = true) ∧ (t.host = .discArm → s.host = .discArm) := by
  cases a with
  | host => exact absurd rfl ha
  | connect err =>
    obtain ⟨hh,_,rfl⟩ := step_connect.mp h
    split <;> simp [hh, settled]
  | security level err =>
    obtain ⟨hh,_,rfl⟩ := step_security.mp h
    simp [hh, settled]
  | disconnect =>
    obtain ⟨hh,_,rfl⟩ := step_disconnect.mp h
    simp [hh, settled]
  | recycle =>
    obtain ⟨_,_,_,_,_,rfl⟩ := step_recycle.mp h
    exact ⟨id,id⟩
  | _ =>
    rw [(stack_frame h (by simp [thread])).host]
    exact ⟨id,id⟩

theorem keep_calm (ho : Ordered s) (hc : Calm s) (h : step port s a = some t)
    (hr : SameRelay s.main t.main) : Calm t := by
  by_cases ha : a = .host
  · subst ha
    obtain ⟨n,pc,hn,rfl⟩ := step_host.mp h
    have hcancel (hp : s.host = .secCancelGrace) :
        n.relayGraceWork.pending = false ∧ pc ≠ .discArm := by
      rw [hp] at hn
      obtain ⟨rfl,rfl⟩ := Prod.mk.inj (Option.some.inj hn)
      simp [cancelRelayGrace]
    constructor
    · intro he hq
      rcases hostNext_settled ho.wf.host hn he hq with hp | ⟨he',hp,_⟩
      · exact (hcancel hp).1
      · rw [hr.grace]
        exact hc.rests he' hp
    · rintro he rfl
      rcases hostNext_settled ho.wf.host hn he rfl with hp | ⟨_,_,hd⟩
      · exact absurd rfl (hcancel hp).2
      · rw [hr.enabled]
        exact (hd rfl).2
  · have hs := settled_frame h ha
    refine ⟨?_,?_⟩ <;> rw [encrypted_frame h ha]
    · rw [hr.grace]
      exact fun he hq => hc.rests he (hs.1 hq)
    · rw [hr.enabled]
      exact fun he hq => hc.armed he (hs.2 hq)

theorem step_calm (ho : Ordered s) (hc : Calm s) (h : step port s a = some t) : Calm t := by
  cases relay_cases h with
  | keep hr _ => exact keep_calm ho hc h hr
  | arm _ ht => subst ht; exact ⟨by simp [settled],by simp⟩
  | cancel _ ht => subst ht; exact ⟨fun _ _ => rfl,by simp⟩
  | rxCancel _ ht => subst ht; exact ⟨fun _ _ => rfl,hc.armed⟩
  | rxApply hx ht =>
    have hs := stack_frame h (by simp [thread])
    have hh : s.host = .idle := by
      rcases ho.serial with hr | hh
      · simp [hx] at hr
      · exact hh.1
    refine ⟨?_,by simp [hs.host, hh]⟩
    rw [hs.encrypted, hs.host]
    intro he hq
    rw [← hc.rests he hq, ht]
    unfold relayApply
    split <;> rfl
  | expire hv ht =>
    subst ht
    refine ⟨?_,hc.armed⟩
    intro he hq
    have := hc.rests he hq
    rw [expire_was_pending hv] at this
    contradiction
  | enter _ hv ht =>
    subst ht
    refine ⟨?_,hc.armed⟩
    intro he hq
    have := hc.rests he hq
    simp [Work.pending, (take_some.mp hv).1] at this
  | decide _ _ ht =>
    have hs := stack_frame h (by simp [thread])
    have hk (he : s.main.encrypted = true) : t.main = finishRelayGrace s.main := by
      simp [ht, relayGraceDecide, he]
    refine ⟨?_,?_⟩ <;> rw [hs.encrypted, hs.host] <;> intro he <;> rw [hk he]
    · exact hc.rests he
    · exact hc.armed he

def RxKeeps : RxPc → Prop
  | .gate data => (proxyCmdParse data emptyCmd).kind ≠ .relayDisable
  | .relayCancel enable _ | .relayApply enable _ => enable = true
  | _ => True

def NoDisable (_ : State) : Label → Prop
  | .receive data => (proxyCmdParse data emptyCmd).kind ≠ .relayDisable
  | _ => True

instance (s : State) : ∀ a, Decidable (NoDisable s a)
  | .receive _ => inferInstanceAs (Decidable (_ ≠ _))
  | .wait _ | .expire _ | .enter _ | .work _ | .connect _ | .security _ _ | .disconnect | .host
  | .recycle | .rx _ | .ready _ | .give | .writer _ _ => .isTrue trivial

theorem rxNext_keeps {m n : Main} {err : ℤ} {p q : RxPc} (hk : RxKeeps p)
    (h : rxNext port m err p = some (n,q)) : RxKeeps q := by
  cases p with
  | idle => simp [rxNext] at h
  | gate data =>
    obtain ⟨_,rfl⟩ := Prod.mk.inj (Option.some.inj h)
    unfold dispatch
    split
    · dsimp only
      split
      · split <;> trivial
      all_goals trivial
    · trivial
  | relayCancel enable ack =>
    obtain ⟨_,rfl⟩ := Prod.mk.inj (Option.some.inj h)
    exact hk
  | setBaud baud ack =>
    obtain ⟨_,rfl⟩ := Prod.mk.inj (Option.some.inj h)
    split <;> trivial
  | ackSend ack tries =>
    obtain ⟨_,rfl⟩ := Prod.mk.inj (Option.some.inj h)
    split
    · cases proxySendResult err <;> trivial
    · trivial
  | _ =>
    obtain ⟨_,rfl⟩ := Prod.mk.inj (Option.some.inj h)
    trivial

theorem step_keeps (hk : RxKeeps s.rx) (hn : NoDisable s a) (h : step port s a = some t) :
    RxKeeps t.rx := by
  by_cases hr : thread a = .rx
  · cases a with
    | receive data =>
      obtain ⟨_,_,_,_,rfl⟩ := step_receive.mp h
      exact hn
    | rx err =>
      obtain ⟨n,pc,hn,rfl⟩ := step_rx.mp h
      exact rxNext_keeps hk hn
    | _ => simp [thread] at hr
  · rw [((step_frame h).rx hr).1]
    exact hk

/-- What holds of the relay for `relayGraceMs` from the arm at `d`. -/
structure Window (d : ℕ) (s : State) : Prop where
  since : d ≤ s.main.now
  enabled : s.main.relayEnabled = true
  timer : NotBefore (d+relayGraceMs) s.main.relayGraceWork
  due : Unheld s → s.main.relayGraceWork.pending = true

theorem step_window {d : ℕ} (ho : Ordered s) (hk : RxKeeps s.rx) (hw : Window d s)
    (hf : Fresh s a) (h : step port s a = some t) (hd : s.main.now < d+relayGraceMs) :
    Window d t := by
  have hnow := hw.since.trans (step_now h)
  cases relay_cases h with
  | keep hr _ =>
    have he := hr.enabled ▸ hw.enabled
    refine ⟨hnow,he,hr.grace ▸ hw.timer,?_⟩
    rw [hr.grace]
    intro hu
    exact (keep_unheld ho h hr he hu).elim hw.due id
  | arm _ ht =>
    subst ht
    refine ⟨hnow,hw.enabled,reschedule_notBefore hw.timer.1 ?_,fun _ => rfl⟩
    exact Nat.add_le_add_right hw.since relayGraceMs
  | cancel hh ht =>
    subst ht
    have hs := ho.wf.host
    rw [hh] at hs
    refine ⟨hnow,hw.enabled,cancel_notBefore _ _,?_⟩
    intro hu
    simp [Unheld, clearing, cancelRelayGrace, Main.encrypted, hs.1, hs.2.2] at hu
  | rxCancel hx ht =>
    have hs := stack_frame h (by simp [thread])
    have hno := command_held ho (by simp [hx, onCommand])
    subst ht
    refine ⟨hnow,hw.enabled,cancel_notBefore _ _,?_⟩
    rw [Unheld, hs.encrypted, hs.host]
    exact fun hu => absurd hu hno
  | rxApply hx ht =>
    subst ht
    rw [hx] at hk
    obtain rfl := hk
    unfold relayApply
    split
    · exact ⟨hw.since,rfl,hw.timer,hw.due⟩
    · exact ⟨hw.since,hw.enabled,hw.timer,hw.due⟩
  | expire hv _ => exact absurd (expire_notBefore hw.timer hv) (by omega)
  | enter _ hv _ => simp [take_notBefore hw.timer] at hv
  | decide hg _ ht =>
    have hs := stack_frame h (by simp [thread])
    have he : s.main.encrypted = true := by
      by_contra he
      have hp := hf hg hw.enabled (by simpa using he)
      rw [hw.due (Or.inl (by simpa using he))] at hp
      contradiction
    have hm : t.main = finishRelayGrace s.main := by simp [ht, relayGraceDecide, he]
    refine ⟨hnow,hm ▸ hw.enabled,hm ▸ hw.timer,?_⟩
    rw [Unheld, hs.host, hm]
    exact hw.due

theorem arm_window (ho : Ordered s) (hc : Calm s) (hh : s.host = .discArm)
    (hs : s.main.linkSecure = true) (h : step port s .host = some t) :
    Window s.main.now t ∧ RxKeeps t.rx := by
  have he : s.main.encrypted = true := by simp [Main.encrypted, hs, ho.wf.secure_conn hs]
  have hq : s.main.relayGraceWork.queued = false := by
    have := hc.rests he (by simp [hh, settled])
    simp_all [Work.pending]
  have hx : s.rx = .idle := by
    rcases ho.serial with hr | hi
    · exact hr
    · simp [hh] at hi
  obtain ⟨n,pc,hn,rfl⟩ := step_host.mp h
  rw [hh] at hn
  obtain ⟨rfl,rfl⟩ := Prod.mk.inj (Option.some.inj hn)
  exact ⟨⟨le_refl _,hc.armed he hh,reschedule_notBefore hq (le_refl _),fun _ => rfl⟩,
    by simp [hx, RxKeeps]⟩

/-- When `on_disconnected` arms the item for an encrypted link, the relay stays
on for `relayGraceMs` unless the phone disables it or an older handler decides
in the window. -/
theorem relay_held_through_grace (port locked : Bool) (es fs : List Label) (s s₁ s₂ : State)
    (h : run (step port) es (init locked) = some s)
    (hi : AllSteps (step port) InOrder es (init locked))
    (harm : s.host = .discArm) (hsec : s.main.linkSecure = true)
    (h₁ : step port s .host = some s₁) (h₂ : run (step port) fs s₁ = some s₂)
    (hi₂ : AllSteps (step port) InOrder fs s₁) (hf : AllSteps (step port) Fresh fs s₁)
    (hn : AllSteps (step port) NoDisable fs s₁)
    (hd : s₂.main.now < s.main.now+relayGraceMs) : s₂.main.relayEnabled = true := by
  obtain ⟨ho,hc⟩ : Ordered s ∧ Calm s := by
    refine invariant_of (I := fun s => Ordered s ∧ Calm s) ⟨init_ordered locked,init_calm locked⟩
      ?_ h hi
    rintro s a t ⟨ho,hc⟩ hi ht
    exact ⟨step_ordered ho hi ht,step_calm ho hc ht⟩
  have hw : Ordered s₂ ∧ RxKeeps s₂.rx ∧
      (s₂.main.now < s.main.now+relayGraceMs → Window s.main.now s₂) := by
    refine invariant_of (I := fun u => Ordered u ∧ RxKeeps u.rx ∧
      (u.main.now < s.main.now+relayGraceMs → Window s.main.now u)) ?_ ?_ h₂
      (allSteps_and hi₂ (allSteps_and hf hn))
    · obtain ⟨hw,hk⟩ := arm_window ho hc harm hsec h₁
      exact ⟨step_ordered (a := .host) ho trivial h₁,hk,fun _ => hw⟩
    · rintro u a v ⟨ho,hk,hw⟩ ⟨hi,hf,hn⟩ hv
      refine ⟨step_ordered ho hi hv,step_keeps hk hn hv,?_⟩
      intro hlt
      have hu := (step_now hv).trans_lt hlt
      exact step_window ho hk (hw hu) hf hv hu
  exact (hw.2.2 hd).enabled

def armed : State :=
  { init false with
    main := { boot false with
      currentConn := true
      connRefs := 1
      linkSecure := true
      relayEnabled := true
      rxDataReady := true }
    host := .discArm
    link := some 0
    links := 1 }

theorem relay_held_through_one_drop :
    { afterDrop with main := { afterDrop.main with now := 59999 } }.main.relayEnabled = true :=
  relay_held_through_grace true false (secureLink++relayOn++[.disconnect, .host])
    (List.replicate 3 .host++[.wait 59999]) armed
    { armed with
      main := { armed.main with relayGraceWork := ⟨some relayGraceMs,false,.returned⟩ }
      host := .discCancelWatchdog }
    { afterDrop with main := { afterDrop.main with now := 59999 } }
    (by decide) (by decide) rfl rfl (by decide) (by decide) (by decide) (by decide) (by decide)
    (by decide)

/-- A handler begun after the first drop decides after the second one. -/
def staleHandler : List Label :=
  secureLink++relayOn++dropLink++[.wait relayGraceMs, .expire .relayGrace, .enter .relayGrace,
    .recycle]++secureLink++[.disconnect, .host]

theorem stale_handler_cuts_relay :
    ∃ s s₁ s₂, run (step true) staleHandler (init false) = some s ∧
      AllSteps (step true) InOrder staleHandler (init false) ∧
      s.host = .discArm ∧ s.main.linkSecure = true ∧ step true s .host = some s₁ ∧
      run (step true) [.host, .host, .host, .work 0] s₁ = some s₂ ∧
      AllSteps (step true) InOrder [.host, .host, .host, .work 0] s₁ ∧
      AllSteps (step true) NoDisable [.host, .host, .host, .work 0] s₁ ∧
      s₂.main.now < s.main.now+relayGraceMs ∧ s₂.main.relayEnabled = false := by
  let s : State :=
    { armed with
      main := { armed.main with now := relayGraceMs, relayGraceWork := ⟨none,false,.canceling⟩ }
      work := .graceDecide
      link := some 1
      links := 2 }
  refine ⟨s,{ s with main := armRelayGrace s.main, host := .discCancelWatchdog },
    { afterDrop with
      main := { afterDrop.main with
        now := relayGraceMs
        relayEnabled := false
        relayGraceWork := ⟨some (relayGraceMs+relayGraceMs),false,.returned⟩ }
      link := some 1
      links := 2 },?_⟩
  decide

end NrfProxy.RelayGrace
