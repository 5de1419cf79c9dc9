import NrfProxy.MainThreads

/-!
# What the threads keep of the link state

Only the connection callbacks write `currentConn` and `linkSecure`. The other
threads have a frame lemma each, and the callbacks one fact for each place they
may stand at.
-/

set_option autoImplicit false

namespace NrfProxy.ThreadInvariant
open NrfProxy.Delayable NrfProxy.ProxyCore NrfProxy.MainState NrfProxy.MainThreads

structure SameLink (m n : Main) : Prop where
  conn : n.currentConn = m.currentConn
  secure : n.linkSecure = m.linkSecure
  clock : m.now ≤ n.now

structure SameRelay (m n : Main) : Prop where
  enabled : n.relayEnabled = m.relayEnabled
  grace : n.relayGraceWork = m.relayGraceWork

theorem SameLink.encrypted {m n : Main} (h : SameLink m n) : n.encrypted = m.encrypted := by
  simp [Main.encrypted, h.conn, h.secure]

theorem relayApply_main (port enable : Bool) (m : Main) :
    relayApply port enable m = m ∨ relayApply port enable m = { m with relayEnabled := enable } := by
  cases port with
  | false => exact Or.inl rfl
  | true => exact Or.inr rfl

theorem rxNext_main {port : Bool} {m n : Main} {err : ℤ} {p q : RxPc}
    (h : rxNext port m err p = some (n,q)) :
    n = m ∨ n = cancelRelayGrace m ∨ ∃ enable, n = { m with relayEnabled := enable } := by
  cases p with
  | idle => simp [rxNext] at h
  | relayCancel enable ack =>
    obtain ⟨rfl,_⟩ := Prod.mk.inj (Option.some.inj h)
    exact Or.inr (Or.inl rfl)
  | relayApply enable ack =>
    obtain ⟨rfl,_⟩ := Prod.mk.inj (Option.some.inj h)
    rcases relayApply_main port enable m with hm | hm
    · exact Or.inl hm
    · exact Or.inr (Or.inr ⟨enable,hm⟩)
  | _ =>
    obtain ⟨rfl,_⟩ := Prod.mk.inj (Option.some.inj h)
    exact Or.inl rfl

theorem workNext_main {port : Bool} {m n : Main} {p q : WorkPc}
    (h : workNext port m p = some (n,q)) :
    n = m ∨ n = refConn m ∨ n = unrefConn m ∨ n = finishSecurityTimeout m ∨
      n = finishRelayGrace m ∨ n = finishRelayGrace { m with relayEnabled := false } := by
  cases p with
  | idle => simp [workNext] at h
  | graceDecide =>
    obtain ⟨rfl,_⟩ := Prod.mk.inj (Option.some.inj h)
    unfold relayGraceDecide
    split
    · rcases relayApply_main port false m with hm | hm <;> rw [hm] <;> simp
    · simp
  | watchdogLock =>
    simp only [workNext] at h
    split at h <;> obtain ⟨rfl,_⟩ := Prod.mk.inj (Option.some.inj h) <;> simp
  | watchdogDisconnect | watchdogUnref | watchdogReturn =>
    obtain ⟨rfl,_⟩ := Prod.mk.inj (Option.some.inj h)
    simp

theorem writerNext_main {m n : Main} {q r : Stream} {k : ℕ} {err : ℤ} {p p' : WriterPc}
    (h : writerNext m q k err p = some (n,r,p')) :
    n = m ∨ p = .take ∧ n = { m with rxDataReady := false } ∨ n = refConn m ∨ n = unrefConn m := by
  cases writer_move h with
  | take => exact Or.inr (Or.inl ⟨rfl,rfl⟩)
  | forward => exact Or.inr (Or.inr (Or.inl rfl))
  | unref | loop => exact Or.inr (Or.inr (Or.inr rfl))
  | _ => exact Or.inl rfl

theorem setItem_link (m : Main) (v : Work) (w : Item) : SameLink m (setItem m v w) := by
  cases w <;> exact ⟨rfl,rfl,le_refl _⟩

theorem rxNext_link {port : Bool} {m n : Main} {err : ℤ} {p q : RxPc}
    (h : rxNext port m err p = some (n,q)) : SameLink m n := by
  rcases rxNext_main h with rfl | rfl | ⟨enable,rfl⟩ <;> exact ⟨rfl,rfl,le_refl _⟩

theorem workNext_link {port : Bool} {m n : Main} {p q : WorkPc}
    (h : workNext port m p = some (n,q)) : SameLink m n := by
  rcases workNext_main h with rfl | rfl | rfl | rfl | rfl | rfl <;> exact ⟨rfl,rfl,le_refl _⟩

structure WriterFrame (m n : Main) : Prop extends SameLink m n, SameRelay m n

theorem writerNext_frame {m n : Main} {q r : Stream} {k : ℕ} {err : ℤ} {p p' : WriterPc}
    (h : writerNext m q k err p = some (n,r,p')) : WriterFrame m n := by
  rcases writerNext_main h with rfl | ⟨_,rfl⟩ | rfl | rfl <;> exact ⟨⟨rfl,rfl,le_refl _⟩,⟨rfl,rfl⟩⟩

/-- What the running callback knows about the link. -/
def HostFits (link : Option ℕ) (up conn secure : Bool) : HostPc → Prop
  | .idle => conn = up
  | .connLock err => conn = false ∧ if err = 0 then up = true else up = false ∧ link = none
  | .connCancelSlow | .connArmWatchdog | .secEntry _ _ | .secLock => conn = true ∧ up = true
  | .secCancelWatchdog | .secCancelGrace | .secGive => conn = true ∧ up = true ∧ secure = true
  | .discHeld | .discArm | .discCancelWatchdog | .discLock => conn = true ∧ up = false
  | .discGive => conn = false ∧ up = false

theorem hostNext_fits {link : Option ℕ} {up : Bool} {m n : Main} {p q : HostPc}
    (hf : HostFits link up m.currentConn m.linkSecure p) (h : hostNext m p = some (n,q)) :
    HostFits link up n.currentConn n.linkSecure q := by
  cases p with
  | idle => simp [hostNext] at h
  | connLock err =>
    obtain ⟨rfl,rfl⟩ := Prod.mk.inj (Option.some.inj h)
    by_cases he : err = 0 <;> simp_all [HostFits, connectedLock]
  | secEntry level err =>
    obtain ⟨rfl,rfl⟩ := Prod.mk.inj (Option.some.inj h)
    split <;> simp_all [HostFits]
  | discHeld =>
    obtain ⟨rfl,rfl⟩ := Prod.mk.inj (Option.some.inj h)
    split <;> exact hf
  | discLock =>
    obtain ⟨rfl,rfl⟩ := Prod.mk.inj (Option.some.inj h)
    simp_all [HostFits, disconnectedLock]
  | _ =>
    obtain ⟨rfl,rfl⟩ := Prod.mk.inj (Option.some.inj h)
    simp_all [HostFits, cancelAdvSlow, armSecurityTimeout, securedLock, cancelSecurityTimeout,
      cancelRelayGrace, giveRxDataReady, armRelayGrace]

theorem hostNext_secure {link : Option ℕ} {up : Bool} {m n : Main} {p q : HostPc}
    (hf : HostFits link up m.currentConn m.linkSecure p)
    (hs : m.linkSecure = true → m.currentConn = true)
    (h : hostNext m p = some (n,q)) : n.linkSecure = true → n.currentConn = true := by
  cases p with
  | idle => simp [hostNext] at h
  | connLock err =>
    obtain ⟨rfl,_⟩ := Prod.mk.inj (Option.some.inj h)
    unfold connectedLock
    split
    · simp
    · exact hs
  | secLock =>
    obtain ⟨rfl,_⟩ := Prod.mk.inj (Option.some.inj h)
    exact fun _ => hf.1
  | discLock =>
    obtain ⟨rfl,_⟩ := Prod.mk.inj (Option.some.inj h)
    unfold disconnectedLock
    split <;> simp
  | _ =>
    obtain ⟨rfl,_⟩ := Prod.mk.inj (Option.some.inj h)
    exact hs

theorem hostNext_conn {link : Option ℕ} {up : Bool} {m n : Main} {p q : HostPc}
    (hf : HostFits link up m.currentConn m.linkSecure p) (h : hostNext m p = some (n,q)) :
    n.currentConn = true → m.currentConn = true ∨ up = true := by
  cases p with
  | idle => simp [hostNext] at h
  | connLock err =>
    obtain ⟨rfl,_⟩ := Prod.mk.inj (Option.some.inj h)
    by_cases he : err = 0 <;> simp_all [HostFits, connectedLock]
  | discLock =>
    obtain ⟨rfl,_⟩ := Prod.mk.inj (Option.some.inj h)
    intro _
    exact Or.inl hf.1
  | _ =>
    obtain ⟨rfl,_⟩ := Prod.mk.inj (Option.some.inj h)
    exact Or.inl

theorem hostNext_connecting {m n : Main} {p q : HostPc} (hp : connecting p = false)
    (h : hostNext m p = some (n,q)) : connecting q = false := by
  cases p with
  | idle => simp [hostNext] at h
  | connLock | connCancelSlow | connArmWatchdog => simp [connecting] at hp
  | secEntry | discHeld =>
    obtain ⟨_,rfl⟩ := Prod.mk.inj (Option.some.inj h)
    split <;> rfl
  | _ =>
    obtain ⟨_,rfl⟩ := Prod.mk.inj (Option.some.inj h)
    rfl

variable {port : Bool} {s t : State} {a : Label}

/-- What a step leaves as it was unless it is one of the thread's own. -/
structure Frame (s t : State) (a : Label) : Prop where
  rx : thread a ≠ .rx → t.rx = s.rx ∧ t.served = s.served
  writer : thread a ≠ .writer → t.writer = s.writer
  stream : thread a ≠ .writer → thread a ≠ .isr → t.stream = s.stream
  gives : thread a ≠ .isr → t.isrGives = s.isrGives
  work : thread a ≠ .queue → t.work = s.work
  stack : thread a ≠ .stack → t.host = s.host ∧ t.link = s.link ∧ t.up = s.up ∧ t.links = s.links

theorem step_frame (h : step port s a = some t) : Frame s t a := by
  cases a with
  | wait ms =>
    obtain rfl := step_wait.mp h
    constructor <;> simp
  | expire w =>
    obtain ⟨v,_,rfl⟩ := step_expire.mp h
    constructor <;> simp
  | enter w =>
    obtain ⟨_,v,_,rfl⟩ := step_enter.mp h
    constructor <;> simp [thread]
  | work err =>
    obtain ⟨n,pc,_,rfl⟩ := step_work.mp h
    constructor <;> simp [thread]
  | connect err =>
    obtain ⟨_,_,rfl⟩ := step_connect.mp h
    split <;> constructor <;> simp [thread]
  | security level err =>
    obtain ⟨_,_,rfl⟩ := step_security.mp h
    constructor <;> simp [thread]
  | disconnect =>
    obtain ⟨_,_,rfl⟩ := step_disconnect.mp h
    constructor <;> simp [thread]
  | host =>
    obtain ⟨n,pc,_,rfl⟩ := step_host.mp h
    constructor <;> simp [thread]
  | recycle =>
    obtain ⟨_,_,_,_,_,rfl⟩ := step_recycle.mp h
    constructor <;> simp [thread]
  | receive data =>
    obtain ⟨l,_,_,_,rfl⟩ := step_receive.mp h
    constructor <;> simp [thread]
  | rx err =>
    obtain ⟨n,pc,_,rfl⟩ := step_rx.mp h
    constructor <;> simp [thread]
  | ready data =>
    obtain ⟨_,_,rfl⟩ := step_ready.mp h
    constructor <;> simp [thread]
  | give =>
    obtain ⟨_,rfl⟩ := step_give.mp h
    constructor <;> simp [thread]
  | writer k err =>
    obtain ⟨n,q,pc,_,rfl⟩ := step_writer.mp h
    constructor <;> simp [thread]

inductive MainStep (port : Bool) (s t : State) : Label → Prop where
  | same {a : Label} (h : t.main = s.main) : MainStep port s t a
  | wait {ms : ℕ} (h : t.main = { s.main with now := s.main.now+ms }) : MainStep port s t (.wait ms)
  | item {a : Label} (w : Item) (v : Work) (ha : a = .expire w ∨ a = .enter w)
      (h : t.main = setItem s.main v w) : MainStep port s t a
  | work {err : ℤ} (h : workNext port s.main s.work = some (t.main,t.work)) :
      MainStep port s t (.work err)
  | host (h : hostNext s.main s.host = some (t.main,t.host)) : MainStep port s t .host
  | rx {err : ℤ} (h : rxNext port s.main err s.rx = some (t.main,t.rx)) :
      MainStep port s t (.rx err)
  | give (h : t.main = giveRxDataReady s.main) : MainStep port s t .give
  | writer {k : ℕ} {err : ℤ}
      (h : writerNext s.main s.stream k err s.writer = some (t.main,t.stream,t.writer)) :
      MainStep port s t (.writer k err)

theorem main_cases (h : step port s a = some t) : MainStep port s t a := by
  cases a with
  | wait ms =>
    obtain rfl := step_wait.mp h
    exact .wait rfl
  | expire w =>
    obtain ⟨v,_,rfl⟩ := step_expire.mp h
    exact .item w v (Or.inl rfl) rfl
  | enter w =>
    obtain ⟨_,v,_,rfl⟩ := step_enter.mp h
    exact .item w v (Or.inr rfl) rfl
  | work err =>
    obtain ⟨n,pc,hn,rfl⟩ := step_work.mp h
    exact .work hn
  | connect err =>
    obtain ⟨_,_,rfl⟩ := step_connect.mp h
    split <;> exact .same rfl
  | security level err =>
    obtain ⟨_,_,rfl⟩ := step_security.mp h
    exact .same rfl
  | disconnect =>
    obtain ⟨_,_,rfl⟩ := step_disconnect.mp h
    exact .same rfl
  | host =>
    obtain ⟨n,pc,hn,rfl⟩ := step_host.mp h
    exact .host hn
  | recycle =>
    obtain ⟨_,_,_,_,_,rfl⟩ := step_recycle.mp h
    exact .same rfl
  | receive data =>
    obtain ⟨_,_,_,_,rfl⟩ := step_receive.mp h
    exact .same rfl
  | rx err =>
    obtain ⟨n,pc,hn,rfl⟩ := step_rx.mp h
    exact .rx hn
  | ready data =>
    obtain ⟨_,_,rfl⟩ := step_ready.mp h
    exact .same rfl
  | give =>
    obtain ⟨_,rfl⟩ := step_give.mp h
    exact .give rfl
  | writer k err =>
    obtain ⟨n,q,pc,hn,rfl⟩ := step_writer.mp h
    exact .writer hn

/-- The link state is written by the statements of the callbacks alone. -/
theorem link_frame (h : step port s a = some t) (ha : a ≠ .host) : SameLink s.main t.main := by
  cases main_cases h with
  | host _ => exact absurd rfl ha
  | same hm =>
    rw [hm]
    exact ⟨rfl,rfl,le_refl _⟩
  | wait hm =>
    rw [hm]
    exact ⟨rfl,rfl,Nat.le_add_right _ _⟩
  | item w v _ hm =>
    rw [hm]
    exact setItem_link _ v w
  | work hn => exact workNext_link hn
  | rx hn => exact rxNext_link hn
  | writer hn => exact (writerNext_frame hn).toSameLink
  | give hm =>
    rw [hm]
    exact ⟨rfl,rfl,le_refl _⟩

theorem encrypted_frame (h : step port s a = some t) (ha : a ≠ .host) :
    t.main.encrypted = s.main.encrypted :=
  (link_frame h ha).encrypted

structure SameStack (s t : State) : Prop where
  conn : t.main.currentConn = s.main.currentConn
  secure : t.main.linkSecure = s.main.linkSecure
  host : t.host = s.host
  link : t.link = s.link
  up : t.up = s.up
  links : t.links = s.links

theorem SameStack.encrypted (h : SameStack s t) : t.main.encrypted = s.main.encrypted := by
  simp [Main.encrypted, h.conn, h.secure]

theorem stack_frame (h : step port s a = some t) (ha : thread a ≠ .stack) : SameStack s t := by
  have hm := link_frame h (fun hh => ha (by rw [hh]; rfl))
  obtain ⟨hhost,hlink,hup,hlinks⟩ := (step_frame h).stack ha
  exact ⟨hm.conn,hm.secure,hhost,hlink,hup,hlinks⟩

structure Wf (s : State) : Prop where
  host : HostFits s.link s.up s.main.currentConn s.main.linkSecure s.host
  secure_conn : s.main.linkSecure = true → s.main.currentConn = true
  conn_link : s.main.currentConn = true → s.link.isSome = true
  up_link : s.up = true → s.link.isSome = true
  rx_link : s.rx ≠ .idle → s.link = some s.served ∧ connecting s.host = false

theorem init_wf (locked : Bool) : Wf (init locked) :=
  ⟨rfl,by simp [init, boot],by simp [init, boot],by simp [init],by simp [init]⟩

theorem Wf.frame (hw : Wf s) (hs : SameStack s t)
    (hr : t.rx ≠ .idle → t.link = some t.served ∧ connecting t.host = false) : Wf t := by
  refine ⟨?_,?_,?_,?_,hr⟩
  · rw [hs.host, hs.conn, hs.secure, hs.up, hs.link]
    exact hw.host
  · rw [hs.conn, hs.secure]
    exact hw.secure_conn
  · rw [hs.conn, hs.link]
    exact hw.conn_link
  · rw [hs.up, hs.link]
    exact hw.up_link

theorem host_wf (hw : Wf s) (h : step port s .host = some t) : Wf t := by
  obtain ⟨n,pc,hn,rfl⟩ := step_host.mp h
  refine ⟨hostNext_fits hw.host hn,hostNext_secure hw.host hw.secure_conn hn,?_,hw.up_link,?_⟩
  · intro hc
    rcases hostNext_conn hw.host hn hc with h | h
    · exact hw.conn_link h
    · exact hw.up_link h
  · intro hr
    obtain ⟨hl,hc⟩ := hw.rx_link hr
    exact ⟨hl,hostNext_connecting hc hn⟩

theorem Wf.pooled (hw : Wf s) (hl : s.link = none) :
    s.main.currentConn = false ∧ s.up = false ∧ s.rx = .idle := by
  refine ⟨?_,?_,?_⟩
  · by_contra hc
    simpa [hl] using hw.conn_link (by simpa using hc)
  · by_contra hu
    simpa [hl] using hw.up_link (by simpa using hu)
  · by_contra hr
    simpa [hl] using (hw.rx_link hr).1

theorem Wf.idle_conn (hw : Wf s) (hh : s.host = .idle) : s.main.currentConn = s.up := by
  simpa [HostFits, hh] using hw.host

theorem connect_wf {err : ℕ} (hw : Wf s) (h : step port s (.connect err) = some t) : Wf t := by
  obtain ⟨hh,hl,rfl⟩ := step_connect.mp h
  obtain ⟨hconn,hup,hrx⟩ := hw.pooled hl
  split
  · rename_i he
    exact ⟨⟨hconn,by simp [he]⟩,hw.secure_conn,by simp,by simp,by simp [hrx]⟩
  · rename_i he
    exact ⟨⟨hconn,by simp [he, hup, hl]⟩,hw.secure_conn,hw.conn_link,hw.up_link,by simp [hrx]⟩

theorem stack_wf (hw : Wf s) (h : step port s a = some t) (ha : thread a = .stack) : Wf t := by
  cases a with
  | wait | expire | enter | work | receive | rx | ready | give | writer => simp [thread] at ha
  | host => exact host_wf hw h
  | connect err => exact connect_wf hw h
  | security level err =>
    obtain ⟨hh,hu,rfl⟩ := step_security.mp h
    exact ⟨⟨by simp [hw.idle_conn hh, hu],hu⟩,hw.secure_conn,hw.conn_link,hw.up_link,
      fun hr => ⟨(hw.rx_link hr).1,rfl⟩⟩
  | disconnect =>
    obtain ⟨hh,hu,rfl⟩ := step_disconnect.mp h
    exact ⟨⟨by simp [hw.idle_conn hh, hu],rfl⟩,hw.secure_conn,hw.conn_link,by simp,
      fun hr => ⟨(hw.rx_link hr).1,rfl⟩⟩
  | recycle =>
    obtain ⟨hh,_,hu,_,hr,rfl⟩ := step_recycle.mp h
    have hc := hw.idle_conn hh
    exact ⟨by simp [HostFits, hh, hc],hw.secure_conn,by simp [hc, hu],by simp [hu],by simp [hr]⟩

theorem step_wf (hw : Wf s) (h : step port s a = some t) : Wf t := by
  by_cases ha : thread a = .stack
  · exact stack_wf hw h ha
  have hs := stack_frame h ha
  apply hw.frame hs
  by_cases hr : thread a = .rx
  · cases a with
    | receive data =>
      obtain ⟨l,hl,_,hc,rfl⟩ := step_receive.mp h
      exact fun _ => ⟨hl,hc⟩
    | rx err =>
      obtain ⟨n,pc,hn,rfl⟩ := step_rx.mp h
      refine fun _ => hw.rx_link ?_
      intro hi
      simp [hi, rxNext] at hn
    | _ => simp [thread] at hr
  · obtain ⟨hx,hv⟩ := (step_frame h).rx hr
    rw [hx, hv, hs.link, hs.host]
    exact hw.rx_link

theorem step_now (h : step port s a = some t) : s.main.now ≤ t.main.now := by
  by_cases ha : a = .host
  · subst ha
    obtain ⟨n,pc,hn,rfl⟩ := step_host.mp h
    exact (hostNext_keeps hn).now.ge
  · exact (link_frame h ha).clock

/-- `nus_received` is between the gate and the relay. -/
def onCommand : RxPc → Bool
  | .relayCancel _ _ | .relayApply _ _ => true
  | _ => false

/-- `nus_received` is past the gate, before the call the write is for. -/
def acting : RxPc → Bool
  | .relayCancel _ _ | .relayApply _ _ | .setBaud _ _ | .forward _ => true
  | _ => false

theorem onCommand_acting {p : RxPc} (h : onCommand p = true) : acting p = true := by
  cases p with
  | relayCancel | relayApply => rfl
  | _ => simp [onCommand] at h

theorem rxNext_acting {port : Bool} {m n : Main} {err : ℤ} {p q : RxPc}
    (h : rxNext port m err p = some (n,q)) (hq : acting q = true) :
    (∃ data, p = .gate data ∧ m.linkSecure = true) ∨
      ∃ enable ack, p = .relayCancel enable ack ∧ q = .relayApply enable ack := by
  cases p with
  | idle => simp [rxNext] at h
  | gate data =>
    obtain ⟨_,rfl⟩ := Prod.mk.inj (Option.some.inj h)
    cases hl : m.linkSecure with
    | false => simp [hl, dispatch, acting] at hq
    | true => exact Or.inl ⟨data,rfl,rfl⟩
  | relayCancel enable ack =>
    obtain ⟨_,rfl⟩ := Prod.mk.inj (Option.some.inj h)
    exact Or.inr ⟨enable,ack,rfl,rfl⟩
  | setBaud baud ack =>
    obtain ⟨_,rfl⟩ := Prod.mk.inj (Option.some.inj h)
    split at hq <;> simp [acting] at hq
  | ackSend ack tries =>
    obtain ⟨_,rfl⟩ := Prod.mk.inj (Option.some.inj h)
    split at hq
    · cases hv : proxySendResult err <;> simp [hv, acting] at hq
    · simp [acting] at hq
  | _ =>
    obtain ⟨_,rfl⟩ := Prod.mk.inj (Option.some.inj h)
    simp [acting] at hq

inductive RelayStep (port : Bool) (s t : State) : Label → Prop where
  | keep {a : Label} (hr : SameRelay s.main t.main)
      (hw : t.work = .graceDecide ↔ s.work = .graceDecide) : RelayStep port s t a
  | arm (hh : s.host = .discArm)
      (ht : t = { s with main := armRelayGrace s.main, host := .discCancelWatchdog }) :
      RelayStep port s t .host
  | cancel (hh : s.host = .secCancelGrace)
      (ht : t = { s with main := cancelRelayGrace s.main, host := .secGive }) :
      RelayStep port s t .host
  | rxCancel {err : ℤ} {enable : Bool} {ack : List UInt8} (hx : s.rx = .relayCancel enable ack)
      (ht : t = { s with main := cancelRelayGrace s.main, rx := .relayApply enable ack }) :
      RelayStep port s t (.rx err)
  | rxApply {err : ℤ} {enable : Bool} {ack : List UInt8} (hx : s.rx = .relayApply enable ack)
      (ht : t = { s with main := relayApply port enable s.main, rx := .ackSend ack 0 }) :
      RelayStep port s t (.rx err)
  | expire {v : Work} (hv : expire s.main.now s.main.relayGraceWork = some v)
      (ht : t = { s with main := { s.main with relayGraceWork := v } }) :
      RelayStep port s t (.expire .relayGrace)
  | enter {v : Work} (hi : s.work = .idle) (hv : take s.main.relayGraceWork = some v)
      (ht : t = { s with main := { s.main with relayGraceWork := v }, work := .graceDecide }) :
      RelayStep port s t (.enter .relayGrace)
  | decide {err : ℤ} (hw : s.work = .graceDecide) (hi : t.work = .idle)
      (ht : t.main = finishRelayGrace (relayGraceDecide port s.main)) : RelayStep port s t (.work err)

theorem host_relay (h : step port s .host = some t) : RelayStep port s t .host := by
  obtain ⟨n,pc,hn,rfl⟩ := step_host.mp h
  cases hp : s.host <;> simp only [hp, hostNext, reduceCtorEq, Option.some.injEq, Prod.mk.injEq] at hn
  case discArm =>
    obtain ⟨rfl,rfl⟩ := hn
    exact .arm hp rfl
  case secCancelGrace =>
    obtain ⟨rfl,rfl⟩ := hn
    exact .cancel hp rfl
  case connLock err =>
    obtain ⟨rfl,rfl⟩ := hn
    refine .keep ?_ Iff.rfl
    unfold connectedLock
    split <;> exact ⟨rfl,rfl⟩
  case discLock =>
    obtain ⟨rfl,rfl⟩ := hn
    refine .keep ?_ Iff.rfl
    unfold disconnectedLock
    split <;> exact ⟨rfl,rfl⟩
  all_goals
    obtain ⟨rfl,rfl⟩ := hn
    exact .keep ⟨rfl,rfl⟩ Iff.rfl

theorem rx_relay {err : ℤ} (h : step port s (.rx err) = some t) : RelayStep port s t (.rx err) := by
  obtain ⟨n,pc,hn,rfl⟩ := step_rx.mp h
  cases hp : s.rx <;> simp only [hp, rxNext, reduceCtorEq, Option.some.injEq, Prod.mk.injEq] at hn <;>
    obtain ⟨rfl,rfl⟩ := hn
  case relayCancel enable ack => exact .rxCancel hp rfl
  case relayApply enable ack => exact .rxApply hp rfl
  all_goals exact .keep ⟨rfl,rfl⟩ Iff.rfl

theorem work_relay {err : ℤ} (h : step port s (.work err) = some t) :
    RelayStep port s t (.work err) := by
  obtain ⟨n,pc,hn,rfl⟩ := step_work.mp h
  cases hp : s.work <;> simp only [hp, workNext, reduceCtorEq, Option.some.injEq] at hn
  case graceDecide =>
    obtain ⟨rfl,rfl⟩ := Prod.mk.inj hn
    exact .decide hp rfl rfl
  case watchdogLock =>
    split at hn <;> obtain ⟨rfl,rfl⟩ := Prod.mk.inj hn <;> exact .keep ⟨rfl,rfl⟩ (by simp [hp])
  all_goals
    obtain ⟨rfl,rfl⟩ := Prod.mk.inj hn
    exact .keep ⟨rfl,rfl⟩ (by simp [hp])

theorem relay_cases (h : step port s a = some t) : RelayStep port s t a := by
  cases a with
  | host => exact host_relay h
  | rx err => exact rx_relay h
  | work err => exact work_relay h
  | expire w =>
    obtain ⟨v,hv,rfl⟩ := step_expire.mp h
    cases w with
    | relayGrace => exact .expire hv rfl
    | securityTimeout => exact .keep ⟨rfl,rfl⟩ Iff.rfl
  | enter w =>
    obtain ⟨hi,v,hv,rfl⟩ := step_enter.mp h
    cases w with
    | relayGrace => exact .enter hi hv rfl
    | securityTimeout => exact .keep ⟨rfl,rfl⟩ (by simp [hi, handler])
  | wait ms =>
    obtain rfl := step_wait.mp h
    exact .keep ⟨rfl,rfl⟩ Iff.rfl
  | connect err =>
    obtain ⟨_,_,rfl⟩ := step_connect.mp h
    split <;> exact .keep ⟨rfl,rfl⟩ Iff.rfl
  | security level err =>
    obtain ⟨_,_,rfl⟩ := step_security.mp h
    exact .keep ⟨rfl,rfl⟩ Iff.rfl
  | disconnect =>
    obtain ⟨_,_,rfl⟩ := step_disconnect.mp h
    exact .keep ⟨rfl,rfl⟩ Iff.rfl
  | recycle =>
    obtain ⟨_,_,_,_,_,rfl⟩ := step_recycle.mp h
    exact .keep ⟨rfl,rfl⟩ Iff.rfl
  | receive data =>
    obtain ⟨_,_,_,_,rfl⟩ := step_receive.mp h
    exact .keep ⟨rfl,rfl⟩ Iff.rfl
  | ready data =>
    obtain ⟨_,_,rfl⟩ := step_ready.mp h
    exact .keep ⟨rfl,rfl⟩ Iff.rfl
  | give =>
    obtain ⟨_,rfl⟩ := step_give.mp h
    exact .keep ⟨rfl,rfl⟩ Iff.rfl
  | writer k err =>
    obtain ⟨n,q,pc,hn,rfl⟩ := step_writer.mp h
    exact .keep (writerNext_frame hn).toSameRelay Iff.rfl

end NrfProxy.ThreadInvariant
