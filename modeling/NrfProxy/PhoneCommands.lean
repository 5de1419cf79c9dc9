import NrfProxy.DeviceProgress
import NrfProxy.PairingLock
import NrfProxy.PhoneStream

/-!
# What the phone makes the device do

The relay goes on, the baud rate changes and bytes come into the TX ring because of
one write each. The write has been received since the last attempt for a link, that
link has reported its encryption, and its peer is the owner where there is one.
-/

set_option autoImplicit false

namespace NrfProxy.PhoneCommands
open NrfProxy.Runs NrfProxy.ProxyCore NrfProxy.MainState NrfProxy.MainThreads
open NrfProxy.ThreadInvariant NrfProxy.Device NrfProxy.DeviceParts NrfProxy.PairingLock

def Serves (data : List UInt8) : RxPc → Prop
  | .gate d => d = data
  | .relayCancel enable _ | .relayApply enable _ =>
    (proxyCmdParse data emptyCmd).kind = if enable then .relayEnable else .relayDisable
  | .setBaud baud _ =>
    (proxyCmdParse data emptyCmd).kind = .setBaud ∧ (proxyCmdParse data emptyCmd).baud = baud
  | .forward out => (proxyCmdParse data emptyCmd).kind = .none ∧ out <+: data
  | .idle | .ackSend _ _ => True

variable {port : Bool} {data : List UInt8}

theorem dispatch_serves (secure : Bool) (data : List UInt8) : Serves data (dispatch secure data) := by
  unfold dispatch
  cases secure with
  | false => trivial
  | true =>
    cases hk : (proxyCmdParse data emptyCmd).kind with
    | none =>
      by_cases h0 : (onBleRx data procBufSize).length = 0
      · simp [hk, h0, Serves]
      · simp [hk, h0, Serves, PhoneStream.onBleRx_prefix]
    | _ => simp [hk, Serves]

theorem rxNext_serves {m n : Main} {err : ℤ} {p q : RxPc} (hs : Serves data p)
    (h : rxNext port m err p = some (n,q)) : Serves data q := by
  cases p with
  | idle => simp [rxNext] at h
  | gate d =>
    obtain ⟨_,rfl⟩ := Prod.mk.inj (Option.some.inj h)
    obtain rfl : d = data := hs
    exact dispatch_serves m.linkSecure d
  | relayCancel enable ack =>
    obtain ⟨_,rfl⟩ := Prod.mk.inj (Option.some.inj h)
    exact hs
  | setBaud baud ack =>
    obtain ⟨_,rfl⟩ := Prod.mk.inj (Option.some.inj h)
    split <;> trivial
  | ackSend ack tries =>
    obtain ⟨_,rfl⟩ := Prod.mk.inj (Option.some.inj h)
    split <;> [split; skip] <;> trivial
  | _ =>
    obtain ⟨_,rfl⟩ := Prod.mk.inj (Option.some.inj h)
    trivial

/-- The relay goes on, the rate changes, or bytes come into the TX ring. -/
def Affects (f g : Firmware.State) : Prop :=
  (f.main.main.relayEnabled = false ∧ g.main.main.relayEnabled = true) ∨
    g.uart.bridge.rate ≠ f.uart.bridge.rate ∨
    f.uart.bridge.txRing.length < g.uart.bridge.txRing.length

/-- The step is what this write asks for. -/
structure Meant (data : List UInt8) (f g : Firmware.State) : Prop where
  relay : f.main.main.relayEnabled = false → g.main.main.relayEnabled = true →
    (proxyCmdParse data emptyCmd).kind = .relayEnable
  rate : g.uart.bridge.rate ≠ f.uart.bridge.rate →
    (proxyCmdParse data emptyCmd).kind = .setBaud ∧
      (proxyCmdParse data emptyCmd).baud = g.uart.bridge.rate
  ring : f.uart.bridge.txRing.length < g.uart.bridge.txRing.length →
    (proxyCmdParse data emptyCmd).kind = .none ∧
      ∃ part, part <+: data ∧ g.uart.bridge.txRing = f.uart.bridge.txRing++part

structure SameQueue (b c : UartBridge.Bridge) : Prop where
  rate : c.rate = b.rate
  ring : c.txRing.length ≤ b.txRing.length

theorem SameQueue.trans {b c d : UartBridge.Bridge} (h : SameQueue b c) (k : SameQueue c d) :
    SameQueue b d :=
  ⟨k.rate.trans h.rate,k.ring.trans h.ring⟩

theorem txStage_queue {b c : UartBridge.Bridge} {len : ℕ}
    (h : UartBridge.txStage b = some (len,c)) : SameQueue b c := by
  obtain ⟨_,_,_,_,rfl⟩ := UartTransmit.txStage_some.mp h
  exact ⟨rfl,by simp⟩

theorem uartTx_queue (len : ℕ) (err : ℤ) (b : UartBridge.Bridge) :
    SameQueue b (UartBridge.uartTx len err b) := by
  unfold UartBridge.uartTx
  split <;> exact ⟨rfl,le_refl _⟩

theorem txIdle_queue (b : UartBridge.Bridge) : SameQueue b (UartBridge.txIdle b) := ⟨rfl,le_refl _⟩

theorem uartTxKick_queue (err : ℤ) (b : UartBridge.Bridge) :
    SameQueue b (UartBridge.uartTxKick err b) := by
  unfold UartBridge.uartTxKick
  split
  · exact ⟨rfl,le_refl _⟩
  · rename_i len c hc
    have hs := (txStage_queue hc).trans (uartTx_queue len err c)
    split
    · exact hs
    · exact hs.trans ⟨rfl,le_refl _⟩

theorem finishTx_queue {b c : UartBridge.Bridge} {chunk : List UInt8}
    (h : UartBridge.finishTx b = some (chunk,c)) : SameQueue b c := by
  cases hb : b.inFlight with
  | nil => simp [UartBridge.finishTx, hb] at h
  | cons x xs =>
    simp only [UartBridge.finishTx, hb, Option.some.injEq, Prod.mk.injEq] at h
    obtain ⟨_,rfl⟩ := h
    exact ⟨rfl,le_refl _⟩

theorem isr_queue {b c : UartBridge.Bridge} {e : UartBridge.Event}
    (h : UartBridge.uartCb b e = some c) : SameQueue b c := by
  cases UartBridge.isr_move h with
  | txDone hf => exact ((finishTx_queue hf).trans (txIdle_queue _)).trans (uartTxKick_queue _ _)
  | txAborted hf =>
    refine ((finishTx_queue hf).trans ?_).trans ((txIdle_queue _).trans (uartTxKick_queue _ _))
    split <;> exact ⟨rfl,le_refl _⟩
  | refill =>
    unfold UartBridge.uartRxBufRsp
    split <;> exact ⟨rfl,le_refl _⟩
  | _ => exact ⟨rfl,le_refl _⟩

theorem handler_queue {b c : UartBridge.Bridge} {err : ℤ} {p q : UartBridge.HandlerPc}
    (h : UartBridge.handlerNext b err p = some (c,q)) : SameQueue b c := by
  cases UartBridge.handler_move h <;> exact ⟨rfl,le_refl _⟩

theorem call_queue {b c : UartBridge.Bridge} {err : ℤ} {p q : UartBridge.CallPc}
    (h : UartBridge.callNext b err p = some (c,q)) :
    SameQueue b c ∨ (∃ baud, p = .configure baud ∧ c.rate = baud ∧ c.txRing = b.txRing) ∨
      ∃ d part, p = .put d ∧ part <+: d ∧ c.rate = b.rate ∧ c.txRing = b.txRing++part := by
  cases UartBridge.call_move h with
  | @put d =>
    exact Or.inr (Or.inr ⟨d,_,rfl,List.take_prefix _ _,rfl,rfl⟩)
  | @configure baud =>
    unfold UartBridge.uartConfigure
    split
    · exact Or.inr (Or.inl ⟨baud,rfl,rfl,rfl⟩)
    · exact Or.inl ⟨rfl,le_refl _⟩
  | alloc hd =>
    obtain ⟨_,_,_,rfl⟩ := UartBridge.slabAlloc_some.mp hd
    exact Or.inl ⟨rfl,le_refl _⟩
  | enabled hd | enableFailed hd =>
    rcases UartBridge.uartRxEnable_some.mp hd with ⟨_,_,rfl⟩ | ⟨_,_,rfl⟩ | ⟨_,rfl⟩ <;>
      exact Or.inl ⟨rfl,le_refl _⟩
  | staged hd => exact Or.inl (txStage_queue hd)
  | started | startFailed => exact Or.inl (uartTx_queue _ _ _)
  | disabled | wasOff | refused =>
    unfold UartBridge.uartRxDisable
    split <;> exact Or.inl ⟨rfl,le_refl _⟩
  | _ => exact Or.inl ⟨rfl,le_refl _⟩

variable {f g : Firmware.State} {b : Firmware.Label}

theorem not_affects (hr : f.main.main.relayEnabled = false → g.main.main.relayEnabled = false)
    (hq : SameQueue f.uart.bridge g.uart.bridge) : ¬Affects f g := by
  rintro (⟨h0,h1⟩ | hrate | hring)
  · simp [hr h0] at h1
  · exact hrate hq.rate
  · exact absurd hring (Nat.not_lt_of_le hq.ring)

theorem relay_on {x y : MainThreads.State} {c : MainThreads.Label}
    (h : MainThreads.step port x c = some y) (h0 : x.main.relayEnabled = false)
    (h1 : y.main.relayEnabled = true) : ∃ err ack, c = .rx err ∧ x.rx = .relayApply true ack := by
  cases relay_cases h with
  | keep hr => simp [hr.enabled, h0] at h1
  | arm hh ht | cancel hh ht => simp [ht, armRelayGrace, cancelRelayGrace, h0] at h1
  | rxCancel hx ht => simp [ht, cancelRelayGrace, h0] at h1
  | @rxApply err enable ack hx ht =>
    cases enable with
    | true => exact ⟨err,ack,rfl,hx⟩
    | false => cases port <;> simp [ht, MainState.relayApply, h0] at h1
  | expire hv ht | enter hi hv ht => simp [ht, h0] at h1
  | decide hw hi ht => simp [ht, finishRelayGrace, relayGraceDecide, h0] at h1

theorem afterCall_relay {err : ℤ} {l : UartBridge.Label} {u : UartBridge.State}
    (hl : Firmware.callLabel f err = some l) (h : Firmware.afterCall port f u = some g) :
    g.uart = u ∧ (f.main.main.relayEnabled = false → g.main.main.relayEnabled = false) := by
  rcases Firmware.afterCall_some h with ⟨_,rfl⟩ | ⟨_,m,hm,rfl⟩
  · exact ⟨rfl,id⟩
  · refine ⟨rfl,fun h0 => ?_⟩
    by_contra h1
    obtain ⟨_,_,_,hx⟩ := relay_on hm h0 (by simpa using h1)
    simp [Firmware.callLabel, hx, Firmware.callOf] at hl

theorem call_meant {err : ℤ} {l : UartBridge.Label} {u : UartBridge.State}
    (hs : Firmware.Serving f.uart.call f.main.rx) (hl : Firmware.callLabel f err = some l)
    (hu : UartBridge.step f.uart l = some u) (ht : Firmware.afterCall port f u = some g)
    (ha : Affects f g) (hd : Serves data f.main.rx) : Meant data f g := by
  obtain ⟨hg,hrelay⟩ := afterCall_relay hl ht
  have hkeep : ¬SameQueue f.uart.bridge u.bridge := fun hq => not_affects hrelay (hg ▸ hq) ha
  simp only [Firmware.callLabel, Option.map_eq_some_iff] at hl
  obtain ⟨k,hk,rfl⟩ := hl
  split at hu
  · cases hx : f.main.rx <;> simp only [hx, Firmware.callOf, reduceCtorEq, Option.some.injEq] at hk
    · obtain rfl := hk
      obtain ⟨_,rfl⟩ := UartBridge.step_setBaud.mp hu
      exact absurd ⟨rfl,le_refl _⟩ hkeep
    · obtain rfl := hk
      obtain ⟨_,rfl⟩ := UartBridge.step_send.mp hu
      exact absurd ⟨rfl,le_refl _⟩ hkeep
  obtain ⟨c,q,hn,rfl⟩ := UartBridge.step_call.mp hu
  have hno : ∀ {p : Prop}, f.main.main.relayEnabled = false → g.main.main.relayEnabled = true → p :=
    fun h0 h1 => by simp [hrelay h0] at h1
  rcases call_queue hn with hq | ⟨baud,hp,hrate,hring⟩ | ⟨d,part,hp,hpart,hrate,hring⟩
  · exact absurd hq hkeep
  · rw [hp] at hs
    cases hx : f.main.rx with
    | setBaud baud' ack =>
      rw [hx] at hs hd
      obtain rfl : baud = baud' := by simpa [Firmware.Serving, Firmware.inSetBaud] using hs
      exact ⟨hno,fun _ => ⟨hd.1,by rw [hg]; exact hd.2.trans hrate.symm⟩,
        fun hr => by simp [hg, hring] at hr⟩
    | _ => simp [hx, Firmware.Serving, Firmware.inSend] at hs
  · rw [hp] at hs
    cases hx : f.main.rx with
    | forward out =>
      rw [hx] at hs hd
      obtain rfl : d = out := by simpa [Firmware.Serving, Firmware.inSend] using hs
      exact ⟨hno,fun hr => absurd (by rw [hg]; exact hrate) hr,
        fun _ => ⟨hd.1,part,hpart.trans hd.2,by rw [hg]; exact hring⟩⟩
    | _ => simp [hx, Firmware.Serving, Firmware.inSetBaud] at hs

theorem affects_meant (hs : Firmware.Serving f.uart.call f.main.rx)
    (h : Firmware.step port f b = some g) (ha : Affects f g) :
    behindGate f.main.rx = true ∧ ∀ data, Serves data f.main.rx → Meant data f g := by
  cases b with
  | wait ms =>
    obtain ⟨m,u,hm,hu,rfl⟩ := Firmware.step_wait.mp h
    obtain rfl := MainThreads.step_wait.mp hm
    obtain rfl := UartBridge.step_wait.mp hu
    exact absurd ha (not_affects id ⟨rfl,le_refl _⟩)
  | main c =>
    obtain ⟨m,hm,rfl⟩ := main_step h
    rcases ha with ⟨h0,h1⟩ | hrate | hring
    · obtain ⟨err,ack,rfl,hx⟩ := relay_on hm h0 h1
      refine ⟨by rw [hx]; rfl,fun data hd => ⟨fun _ _ => ?_,fun hr => absurd rfl hr,
        fun hr => absurd hr (Nat.lt_irrefl _)⟩⟩
      rw [hx] at hd
      exact hd
    · exact absurd rfl hrate
    · exact absurd hring (Nat.lt_irrefl _)
  | uart c =>
    -- beside its callers the bridge only drains the ring, at the rate it has
    obtain ⟨ho,u,hu,rfl⟩ := Firmware.step_uart.mp h
    refine absurd ha (not_affects id ?_)
    cases c with
    | expire =>
      obtain ⟨w,_,rfl⟩ := UartBridge.step_expire.mp hu
      exact ⟨rfl,le_refl _⟩
    | enter =>
      obtain ⟨_,w,_,rfl⟩ := UartBridge.step_enter.mp hu
      exact ⟨rfl,le_refl _⟩
    | handler err =>
      obtain ⟨c,q,hn,rfl⟩ := UartBridge.step_handler.mp hu
      exact handler_queue hn
    | isr e =>
      obtain ⟨c,hc,rfl⟩ := UartBridge.step_isr.mp hu
      exact isr_queue hc
    | _ => simp [Firmware.ownsUart] at ho
  | call err =>
    obtain ⟨l,u,hl,hu,ht⟩ := Firmware.step_call.mp h
    refine ⟨?_,fun data hd => call_meant hs hl hu ht ha hd⟩
    cases hx : f.main.rx <;> simp [Firmware.callLabel, hx, Firmware.callOf, behindGate] at hl ⊢

variable {s t : Device.State} {a : Device.Label} {es : List Device.Label} {p : ℕ}

/-- The write was received since the last attempt, which was this peer's. -/
def ReceivedFrom (es : List Device.Label) (p : ℕ) (data : List UInt8) : Prop :=
  ∃ xs ys, es = xs++.attempt p::ys ∧ (∀ q, .attempt q ∉ ys) ∧ .fw (.main (.receive data)) ∈ ys

/-- The write and a report of encryption came since the last attempt, which was this
peer's. -/
def AskedBy (es : List Device.Label) (p : ℕ) (data : List UInt8) : Prop :=
  ∃ xs ys level, es = xs++.attempt p::ys ∧ (∀ q, .attempt q ∉ ys) ∧
    .fw (.main (.receive data)) ∈ ys ∧ .security level 0 ∈ ys ∧ btSecurityL2 ≤ level

theorem last_attempt {xs xs' ys ys' : List Device.Label} {q : ℕ}
    (h : xs++.attempt p::ys = xs'++.attempt q::ys') (hy : ∀ q, .attempt q ∉ ys)
    (hy' : ∀ q, .attempt q ∉ ys') : ys = ys' := by
  rcases List.append_eq_append_iff.mp h with ⟨l,_,hl⟩ | ⟨l,_,hl⟩
  · cases l with
    | nil => simpa using (List.cons.inj hl).2
    | cons b l =>
      refine absurd ?_ (hy q)
      rw [(List.cons.inj hl).2]
      simp
  · cases l with
    | nil => simpa using (List.cons.inj hl).2.symm
    | cons b l =>
      refine absurd ?_ (hy' p)
      rw [(List.cons.inj hl).2]
      simp

theorem secured_asked (hs : SecuredBy es p) (hr : ReceivedFrom es p data) : AskedBy es p data := by
  obtain ⟨xs,ys,level,rfl,hy,hsec,hl⟩ := hs
  obtain ⟨xs',ys',he,hy',hrec⟩ := hr
  obtain rfl := last_attempt he hy hy'
  exact ⟨xs,ys,level,rfl,hy,hrec,hsec,hl⟩

theorem ReceivedFrom.snoc (h : ReceivedFrom es p data) (ha : ∀ q, a ≠ .attempt q) :
    ReceivedFrom (es++[a]) p data := by
  obtain ⟨xs,ys,rfl,hy,hr⟩ := h
  refine ⟨xs,ys++[a],by simp,fun q hq => ?_,by simp [hr]⟩
  rcases List.mem_append.mp hq with hq | hq
  · exact hy q hq
  · exact ha q (List.mem_singleton.mp hq).symm

theorem attempt_received (h : AttemptBy es p) :
    ReceivedFrom (es++[.fw (.main (.receive data))]) p data := by
  obtain ⟨xs,ys,rfl,hy⟩ := h
  exact ⟨xs,ys++[.fw (.main (.receive data))],by simp,by simpa using hy,by simp⟩

def Serving (es : List Device.Label) (s : Device.State) : Prop :=
  s.fw.main.rx ≠ .idle → ∃ data, ReceivedFrom es s.peer data ∧ Serves data s.fw.main.rx

theorem fw_rx (h : Firmware.step port f b = some g) :
    g.main.rx = f.main.rx ∨ (∃ data, b = .main (.receive data) ∧ g.main.rx = .gate data) ∨
      ∃ m n err q, rxNext port m err f.main.rx = some (n,q) ∧ g.main.rx = q := by
  have hthread {x y : MainThreads.State} {c : MainThreads.Label} (hm : MainThreads.step port x c = some y) :
      y.rx = x.rx ∨ (∃ data, c = .receive data ∧ y.rx = .gate data) ∨
        ∃ m n err q, rxNext port m err x.rx = some (n,q) ∧ y.rx = q := by
    by_cases hc : thread c = .rx
    · cases c with
      | receive data =>
        obtain ⟨_,_,_,_,rfl⟩ := MainThreads.step_receive.mp hm
        exact Or.inr (Or.inl ⟨data,rfl,rfl⟩)
      | rx err =>
        obtain ⟨n,q,hn,rfl⟩ := MainThreads.step_rx.mp hm
        exact Or.inr (Or.inr ⟨_,n,err,q,hn,rfl⟩)
      | _ => simp [thread] at hc
    · exact Or.inl ((step_frame hm).rx hc).1
  cases b with
  | wait ms =>
    obtain ⟨m,u,hm,_,rfl⟩ := Firmware.step_wait.mp h
    obtain rfl := MainThreads.step_wait.mp hm
    exact Or.inl rfl
  | main c =>
    obtain ⟨m,hm,rfl⟩ := main_step h
    simpa using hthread hm
  | uart c =>
    obtain ⟨_,u,_,rfl⟩ := Firmware.step_uart.mp h
    exact Or.inl rfl
  | call err =>
    obtain ⟨l,u,_,_,ht⟩ := Firmware.step_call.mp h
    rcases Firmware.afterCall_some ht with ⟨_,rfl⟩ | ⟨_,m,hm,rfl⟩
    · exact Or.inl rfl
    · rcases hthread hm with hr | ⟨data,hc,_⟩ | hn
      · exact Or.inl hr
      · simp at hc
      · exact Or.inr (Or.inr hn)

theorem receive_label (h : .main (.receive data) ∈ fwLabels s a) : a = .fw (.main (.receive data)) := by
  cases a with
  | fw b =>
    obtain rfl := List.mem_singleton.mp h
    rfl
  | returned =>
    simp only [fwLabels] at h
    split at h <;> simp at h
  | _ => simp [fwLabels] at h

theorem step_serving (hs : Serving es s) (hses : Session es s) (hx : Grounded s.fw.main)
    (h : Device.step port s a = some t) : Serving (es++[a]) t := by
  intro hne
  by_cases ha : ∃ q, a = .attempt q
  · -- no write is served between two links
    obtain ⟨q,rfl⟩ := ha
    obtain ⟨slow,filtered,ho,_,rfl⟩ := Device.step_attempt.mp h
    have hlink := (hx.wf.rx_link hne).1
    have := hses.linked.link.mp (by rw [hlink]; rfl)
    simp [ho] at this
  have hna : ∀ q, a ≠ .attempt q := fun q hq => ha ⟨q,hq⟩
  obtain ⟨hp,_⟩ := peer_kept h hna
  obtain ⟨f,m,hf,_,ht⟩ := fw_part h
  have hrx : t.fw.main.rx = f.main.rx := by rw [ht]; rfl
  rw [hp]
  rw [hrx] at hne ⊢
  have hkeep (hr : f.main.rx = s.fw.main.rx) :
      ∃ data, ReceivedFrom (es++[a]) s.peer data ∧ Serves data f.main.rx := by
    obtain ⟨data,hd,hserve⟩ := hs (hr ▸ hne)
    exact ⟨data,hd.snoc hna,hr ▸ hserve⟩
  rcases fwLabels_one h with hb | ⟨b,hb,_⟩ <;> rw [hb] at hf
  · obtain rfl : s.fw = f := Option.some.inj hf
    exact hkeep rfl
  rcases fw_rx (show Firmware.step port s.fw b = some f by simpa [run] using hf) with
    hr | ⟨data,rfl,hr⟩ | ⟨m,n,err,q,hn,hr⟩
  · exact hkeep hr
  · obtain rfl := receive_label (hb ▸ List.mem_singleton_self _)
    obtain ⟨_,_,_,g,hg,rfl⟩ := Device.step_fw.mp h
    obtain ⟨m,hm,_⟩ := main_step hg
    obtain ⟨l,hl,_⟩ := MainThreads.step_receive.mp hm
    have hobj := hses.linked.link.mp (by rw [hl]; rfl)
    have htaken : taken s.obj = true := by rcases hobj with ho | ho <;> rw [ho] <;> rfl
    exact ⟨data,attempt_received (hses.attempt htaken),by rw [hr]; rfl⟩
  · have hbusy : s.fw.main.rx ≠ .idle := fun hi => by simp [hi, rxNext] at hn
    obtain ⟨data,hd,hserve⟩ := hs hbusy
    exact ⟨data,hd.snoc hna,by rw [hr]; exact rxNext_serves hserve hn⟩

theorem run_serving {bonds : List ℕ} {rate : UInt32}
    (h : run (Device.step port) es (Device.init bonds rate) = some s) : Serving es s :=
  history (C := fun _ _ => True) (I := Serving) (fun hne => absurd rfl hne)
    (fun _ _ _ _ hr hi _ ht => step_serving hi (run_session hr) (run_grounded hr) ht) h
    (allSteps_true _ _)

/-- Behind the gate, a write of the session's peer is served, who has reported
encryption and is the owner where there is one. -/
structure Asked (es : List Device.Label) (s : Device.State) (data : List UInt8) : Prop where
  write : AskedBy es s.peer data
  link : s.obj = .link ∨ s.obj = .dropped
  owner : ∀ o ∈ s.bonds, s.peer = o

theorem gate_asked {bonds : List ℕ} {rate : UInt32} (hb : bonds.length ≤ 1)
    (h : run (Device.step port) es (Device.init bonds rate) = some s)
    (hc : AllSteps (Device.step port) AcceptCalls es (Device.init bonds rate))
    (hg : behindGate s.fw.main.rx = true) : ∃ data, Asked es s data ∧ Serves data s.fw.main.rx := by
  have hses := run_session h
  have hgr : Granted s.fw.main := Or.inr (Or.inl hg)
  have hobj := Granted.linked hses.linked (run_grounded h) hgr
  obtain ⟨l,_,hl⟩ := (lock_part port).run (init_locking hb rate) h hc
  obtain ⟨data,hd,hserve⟩ := run_serving h (fun hi => by simp [hi, behindGate] at hg)
  refine ⟨data,⟨secured_asked (hses.secured hgr) hd,hobj,fun o ho => hl.peer ho ?_⟩,hserve⟩
  rcases hobj with hobj | hobj <;> rw [hobj] <;> rfl

theorem affects_part (h : Device.step port s a = some t) (ha : Affects s.fw t.fw) :
    ∃ b f, Firmware.step port s.fw b = some f ∧ Affects s.fw f ∧
      ∀ data, Meant data s.fw f → Meant data s.fw t.fw := by
  obtain ⟨f,m,hf,⟨_,_,_,_,rfl⟩,ht⟩ := fw_part h
  rw [ht] at ha ⊢
  rcases fwLabels_one h with hb | ⟨b,hb,_⟩ <;> rw [hb] at hf
  · obtain rfl : s.fw = f := Option.some.inj hf
    exact absurd ha (not_affects id ⟨rfl,le_refl _⟩)
  · exact ⟨b,f,by simpa [run] using hf,ha,fun data hm => ⟨hm.relay,hm.rate,hm.ring⟩⟩

theorem step_asked {bonds : List ℕ} {rate : UInt32} (hb : bonds.length ≤ 1)
    (h : run (Device.step port) es (Device.init bonds rate) = some s)
    (hc : AllSteps (Device.step port) AcceptCalls es (Device.init bonds rate))
    (hst : Device.step port s a = some t) (ha : Affects s.fw t.fw) :
    ∃ data, Asked es s data ∧ Meant data s.fw t.fw := by
  obtain ⟨b,f,hf,haf,hmeant⟩ := affects_part hst ha
  obtain ⟨hgate,hall⟩ := affects_meant (DeviceProgress.run_serving h) hf haf
  obtain ⟨data,hd,hserve⟩ := gate_asked hb h hc hgate
  exact ⟨data,hd,hmeant data (hall data hserve)⟩

def TurnedOn (port : Bool) (bonds : List ℕ) (rate : UInt32) (es : List Device.Label) : Prop :=
  ∃ xs ys u data, es = xs++ys ∧ run (Device.step port) xs (Device.init bonds rate) = some u ∧
    Asked xs u data ∧ (proxyCmdParse data emptyCmd).kind = .relayEnable

theorem run_turnedOn {bonds : List ℕ} {rate : UInt32} (hb : bonds.length ≤ 1)
    (h : run (Device.step port) es (Device.init bonds rate) = some s)
    (hc : AllSteps (Device.step port) AcceptCalls es (Device.init bonds rate))
    (hr : s.fw.main.main.relayEnabled = true) : TurnedOn port bonds rate es := by
  refine (history (C := AcceptCalls) (I := fun es s =>
    AllSteps (Device.step port) AcceptCalls es (Device.init bonds rate) ∧
      (s.fw.main.main.relayEnabled = true → TurnedOn port bonds rate es))
    ⟨trivial,fun h0 => by simp [Device.init, Firmware.init, MainThreads.init, boot] at h0⟩ ?_ h hc).2 hr
  rintro es s a t hs ⟨hcs,hi⟩ hca hst
  refine ⟨(allSteps_snoc _ _ _ _ _ hs).mpr ⟨hcs,hca⟩,fun h1 => ?_⟩
  cases h0 : s.fw.main.main.relayEnabled with
  | true =>
    obtain ⟨xs,ys,u,data,rfl,hu⟩ := hi h0
    exact ⟨xs,ys++[a],u,data,by simp,hu⟩
  | false =>
    obtain ⟨data,hd,hm⟩ := step_asked hb hs hcs hst (Or.inl ⟨h0,h1⟩)
    exact ⟨es,[a],s,data,rfl,hs,hd,hm.relay h0 h1⟩

/-- A step turns the relay on, changes the baud rate or puts bytes into the TX ring only
as a write asks which the peer of the session sent, encrypted, and as the owner. And
while the relay is on, such a write has turned it on. -/
theorem effects_asked (port : Bool) (bonds : List ℕ) (rate : UInt32) (es : List Device.Label)
    (s : Device.State) (hb : bonds.length ≤ 1)
    (h : run (Device.step port) es (Device.init bonds rate) = some s)
    (hc : AllSteps (Device.step port) AcceptCalls es (Device.init bonds rate)) :
    (∀ a t, Device.step port s a = some t → Affects s.fw t.fw →
      ∃ data, Asked es s data ∧ Meant data s.fw t.fw) ∧
    (s.fw.main.main.relayEnabled = true → TurnedOn port bonds rate es) :=
  ⟨fun _ _ hst ha => step_asked hb h hc hst ha,fun hr => run_turnedOn hb h hc hr⟩

def enabling : List Device.Label :=
  pairing++.fw (.main (.receive (relayPacket true)))::List.replicate 3 (.fw (.main (.rx 0)))

def enabledRelay : Device.State :=
  { paired with
    fw :=
      ⟨{ Firmware.secured with
          main := { Firmware.secured.main with relayEnabled := true }
          rx := .ackSend (relayPacket true) 0 },UartBridge.init 115200⟩ }

theorem effects_asked_relay : TurnedOn true [] 115200 enabling :=
  (effects_asked true [] 115200 enabling enabledRelay (by decide) (by decide) (by decide)).2 rfl

end NrfProxy.PhoneCommands
