import NrfProxy.AdvertiserProgress
import NrfProxy.PairingLock

/-!
# Every handler and callback comes to its end

Whatever the stack, the driver and the clock answer, a handler, a callback, a call
of the bridge or an `advertising_start` which has begun takes a bounded number of
steps, and none of them waits for ever: a thread which cannot go on waits for
`conn_mutex`, whose holder can go on, or for a deadline.
-/

set_option autoImplicit false

namespace NrfProxy.DeviceProgress
open NrfProxy.Runs NrfProxy.MainState NrfProxy.MainThreads NrfProxy.ThreadInvariant
open NrfProxy.Advertiser NrfProxy.LockedMode NrfProxy.Device NrfProxy.DeviceParts
open NrfProxy.AdvertiserProgress NrfProxy.PairingLock

def hostLeft : HostPc → ℕ
  | .idle => 0
  | .connLock _ => 3
  | .connCancelSlow => 2
  | .connArmWatchdog => 1
  | .secEntry _ _ => 5
  | .secLock => 4
  | .secCancelWatchdog => 3
  | .secCancelGrace => 2
  | .secGive => 1
  | .discHeld => 5
  | .discArm => 4
  | .discCancelWatchdog => 3
  | .discLock => 2
  | .discGive => 1

def workLeft : WorkPc → ℕ
  | .idle => 0
  | .graceDecide | .watchdogReturn => 1
  | .watchdogUnref => 2
  | .watchdogDisconnect => 3
  | .watchdogLock => 4

def handlerLeft : UartBridge.HandlerPc → ℕ
  | .idle => 0
  | .leave => 1
  | .clearLatch | .schedule => 2
  | .freeBusy _ | .warn => 3
  | .freeFailed _ => 4
  | .enable _ => 5
  | .alloc => 6
  | .entry => 7

/-- The one wait is for the deadline of the semaphore. -/
def callLeft (now : ℕ) : UartBridge.CallPc → ℕ
  | .idle => 0
  | .txIdle _ => 1
  | .keepErr _ _ => 2
  | .countDrop _ _ _ => 3
  | .tx _ _ => 4
  | .kick _ => 5
  | .put _ | .schedule _ => 6
  | .freeFailed _ _ => 7
  | .enable _ _ => 8
  | .alloc _ => 9
  | .clearFlag _ => 10
  | .configure _ => 11
  | .getConfig _ => 12
  | .takeSem _ deadline => 13+if deadline ≤ now then 0 else 1
  | .disableRx _ => 15
  | .resetSem _ => 16
  | .abortTx _ => 17
  | .setFlag _ => 18
  | .cancel _ => 19

def servedLeft (now : ℕ) (call : UartBridge.CallPc) : ℕ :=
  if call = .idle then 20 else callLeft now call

def rxLeft (now : ℕ) (call : UartBridge.CallPc) : RxPc → ℕ
  | .idle => 0
  | .gate _ => 30
  | .relayCancel _ _ => 8
  | .relayApply _ _ => 7
  | .setBaud _ _ => 6+servedLeft now call
  | .ackSend _ tries => 1+(ackTries-tries)
  | .forward _ => servedLeft now call

def mainLeft (f : Firmware.State) : ℕ :=
  hostLeft f.main.host+workLeft f.main.work+f.main.isrGives.toNat+
    rxLeft f.uart.bridge.now f.uart.call f.main.rx+handlerLeft f.uart.handler

def left (s : Device.State) : ℕ :=
  mainLeft s.fw+s.refresh.elim 0 (refreshLeft s.bonds)+threadsLeft s.bonds s.threads

theorem hostNext_left {m n : Main} {p q : HostPc} (h : hostNext m p = some (n,q)) :
    hostLeft q+1 ≤ hostLeft p := by
  cases p with
  | idle => simp [hostNext] at h
  | connLock | secEntry | discHeld =>
    obtain ⟨_,rfl⟩ := Prod.mk.inj (Option.some.inj h)
    split <;> simp [hostLeft]
  | _ =>
    obtain ⟨_,rfl⟩ := Prod.mk.inj (Option.some.inj h)
    simp [hostLeft]

theorem workNext_left {port : Bool} {m n : Main} {p q : WorkPc}
    (h : workNext port m p = some (n,q)) : workLeft q+1 ≤ workLeft p := by
  cases p with
  | idle => simp [workNext] at h
  | watchdogLock =>
    simp only [workNext] at h
    split at h <;> obtain ⟨_,rfl⟩ := Prod.mk.inj (Option.some.inj h) <;> simp [workLeft]
  | _ =>
    obtain ⟨_,rfl⟩ := Prod.mk.inj (Option.some.inj h)
    simp [workLeft]

theorem handlerNext_left {b c : UartBridge.Bridge} {err : ℤ} {p q : UartBridge.HandlerPc}
    (h : UartBridge.handlerNext b err p = some (c,q)) : handlerLeft q+1 ≤ handlerLeft p := by
  cases UartBridge.handler_move h <;> simp [handlerLeft]

theorem callNext_left {b c : UartBridge.Bridge} {err : ℤ} {p q : UartBridge.CallPc}
    (h : UartBridge.callNext b err p = some (c,q)) : callLeft c.now q+1 ≤ callLeft b.now p := by
  cases UartBridge.call_move h with
  | disabled =>
    simp only [callLeft]
    split <;> omega
  | timedOut =>
    simp only [callLeft]
    omega
  | _ => simp [callLeft]

theorem servedLeft_le (now : ℕ) (call : UartBridge.CallPc) : servedLeft now call ≤ 20 := by
  unfold servedLeft
  split
  · exact le_refl _
  · cases call with
    | takeSem baud deadline =>
      simp only [callLeft]
      split <;> omega
    | _ => simp [callLeft]

theorem dispatch_left (now : ℕ) (call : UartBridge.CallPc) (secure : Bool) (data : List UInt8) :
    rxLeft now call (dispatch secure data) ≤ 26 := by
  have hs := servedLeft_le now call
  unfold dispatch
  split
  · dsimp only
    split <;> first | split | skip
    all_goals
      simp only [rxLeft]
      omega
  · simp [rxLeft]

theorem rxNext_left {port : Bool} {m n : Main} {err : ℤ} {p q : RxPc} (now : ℕ)
    (call : UartBridge.CallPc) (hp : Firmware.callOf p = none)
    (h : rxNext port m err p = some (n,q)) : rxLeft now call q+1 ≤ rxLeft now call p := by
  cases p with
  | idle => simp [rxNext] at h
  | gate data =>
    obtain ⟨_,rfl⟩ := Prod.mk.inj (Option.some.inj h)
    calc rxLeft now call (dispatch m.linkSecure data)+1
        ≤ 26+1 := Nat.add_le_add_right (dispatch_left now call _ data) 1
      _ ≤ 30 := by decide
  | ackSend ack tries =>
    obtain ⟨_,rfl⟩ := Prod.mk.inj (Option.some.inj h)
    split <;> [split; skip] <;> simp [rxLeft]
    all_goals omega
  | relayCancel | relayApply =>
    obtain ⟨_,rfl⟩ := Prod.mk.inj (Option.some.inj h)
    simp [rxLeft, ackTries]
  | setBaud | forward => simp [Firmware.callOf] at hp

/-- The step begins a handler, a callback or a write, or brings bytes. -/
def begins : Device.Label → Bool
  | .fw (.main (.enter _)) | .fw (.main (.receive _)) | .fw (.main (.ready _))
  | .fw (.uart .enter) => true
  | .adv (.enter _) | .adv .recycled => true
  | .connected _ | .security _ _ | .pairingComplete | .disconnected => true
  | _ => false

/-- The step is one of a handler, a callback or a call which has begun. -/
def runs : Device.Label → Bool
  | .fw (.main (.work _)) | .fw (.main (.rx _)) | .fw (.main .give) | .fw (.uart (.handler _))
  | .fw (.call _) => true
  | .adv (.run _ _ _) => true
  | .host | .refresh _ => true
  | _ => false

variable {port : Bool} {s t : Device.State} {a : Device.Label}

theorem callOf_left {p : RxPc} {l : UartBridge.Label} (hp : Firmware.callOf p = some l) :
    ∃ c, (∀ now call, rxLeft now call p = c+servedLeft now call) ∧
      ∀ port m n err q, rxNext port m err p = some (n,q) → ∀ now call, rxLeft now call q ≤ c := by
  cases p with
  | setBaud baud ack =>
    refine ⟨6,fun _ _ => rfl,?_⟩
    intro port m n err q h now call
    obtain ⟨_,rfl⟩ := Prod.mk.inj (Option.some.inj h)
    split <;> simp [rxLeft, ackTries]
  | forward data =>
    refine ⟨0,fun _ _ => (Nat.zero_add _).symm,?_⟩
    intro port m n err q h now call
    obtain ⟨_,rfl⟩ := Prod.mk.inj (Option.some.inj h)
    simp [rxLeft]
  | _ => simp [Firmware.callOf] at hp

theorem bridge_left {u v : UartBridge.State} {k : UartBridge.Label} {err : ℤ} {p : RxPc}
    (hk : Firmware.callOf p = some k)
    (h : UartBridge.step u (if u.call = .idle then k else .call err) = some v) :
    v.handler = u.handler ∧
      if v.call = .idle then 1 ≤ servedLeft u.bridge.now u.call
      else servedLeft v.bridge.now v.call+1 ≤ servedLeft u.bridge.now u.call := by
  by_cases hi : u.call = .idle
  · rw [if_pos hi] at h
    cases p with
    | setBaud baud ack =>
      obtain rfl := Option.some.inj hk
      obtain ⟨_,rfl⟩ := UartBridge.step_setBaud.mp h
      simp [servedLeft, hi, callLeft]
    | forward data =>
      obtain rfl := Option.some.inj hk
      obtain ⟨_,rfl⟩ := UartBridge.step_send.mp h
      simp [servedLeft, hi, callLeft]
    | _ => simp [Firmware.callOf] at hk
  · rw [if_neg hi] at h
    obtain ⟨b,q,hn,rfl⟩ := UartBridge.step_call.mp h
    have hl := callNext_left hn
    refine ⟨rfl,?_⟩
    dsimp only
    split
    · simp only [servedLeft, if_neg hi]
      omega
    · rename_i hq
      simpa only [servedLeft, if_neg hi, if_neg hq] using hl

theorem call_left {f g : Firmware.State} {err : ℤ} (h : Firmware.step port f (.call err) = some g) :
    mainLeft g+1 ≤ mainLeft f := by
  obtain ⟨l,u,hl,hu,ht⟩ := Firmware.step_call.mp h
  simp only [Firmware.callLabel, Option.map_eq_some_iff] at hl
  obtain ⟨k,hk,rfl⟩ := hl
  obtain ⟨hhandler,hcall⟩ := bridge_left hk hu
  obtain ⟨c,hrx,hnext⟩ := callOf_left hk
  rcases Firmware.afterCall_some ht with ⟨hi,rfl⟩ | ⟨hi,m,hm,rfl⟩
  · rw [if_neg hi] at hcall
    simp only [mainLeft, hhandler, hrx]
    omega
  · rw [if_pos hi] at hcall
    obtain ⟨n,q,hn,rfl⟩ := MainThreads.step_rx.mp hm
    have hq := hnext _ _ _ _ _ hn u.bridge.now u.call
    simp only [mainLeft, hhandler, hrx]
    omega

theorem callLeft_wait (now ms : ℕ) (call : UartBridge.CallPc) :
    callLeft (now+ms) call ≤ callLeft now call := by
  cases call with
  | takeSem baud deadline =>
    simp only [callLeft]
    split <;> split <;> omega
  | _ => exact le_refl _

theorem rxLeft_wait (now ms : ℕ) (call : UartBridge.CallPc) (p : RxPc) :
    rxLeft (now+ms) call p ≤ rxLeft now call p := by
  have hs : servedLeft (now+ms) call ≤ servedLeft now call := by
    unfold servedLeft
    split
    · exact le_refl _
    · exact callLeft_wait now ms call
  cases p <;> simp only [rxLeft] <;> omega

theorem handlerNext_now {b c : UartBridge.Bridge} {err : ℤ} {p q : UartBridge.HandlerPc}
    (h : UartBridge.handlerNext b err p = some (c,q)) : c.now = b.now := by
  cases UartBridge.handler_move h <;> rfl

theorem uartTx_now (len : ℕ) (err : ℤ) (b : UartBridge.Bridge) :
    (UartBridge.uartTx len err b).now = b.now := by
  unfold UartBridge.uartTx
  split <;> rfl

theorem uartTxKick_now (err : ℤ) (b : UartBridge.Bridge) :
    (UartBridge.uartTxKick err b).now = b.now := by
  unfold UartBridge.uartTxKick
  split
  · rfl
  · rename_i len c hc
    have hnow : c.now = b.now := by
      simp only [UartBridge.txStage, Option.ite_none_left_eq_some, Option.some.injEq,
        Prod.mk.injEq] at hc
      obtain ⟨_,_,_,rfl⟩ := hc
      rfl
    split <;> exact (uartTx_now len err c).trans hnow

theorem finishTx_now {b c : UartBridge.Bridge} {chunk : List UInt8}
    (h : UartBridge.finishTx b = some (chunk,c)) : c.now = b.now := by
  unfold UartBridge.finishTx at h
  split at h
  · simp at h
  · obtain ⟨_,rfl⟩ := Prod.mk.inj (Option.some.inj h)
    rfl

theorem uartCb_now {b c : UartBridge.Bridge} {e : UartBridge.Event}
    (h : UartBridge.uartCb b e = some c) : c.now = b.now := by
  cases UartBridge.isr_move h with
  | txDone hd =>
    have hnow := finishTx_now hd
    rw [uartTxKick_now]
    exact hnow
  | txAborted hd =>
    have hnow := finishTx_now hd
    rw [uartTxKick_now]
    split <;> exact hnow
  | refill =>
    unfold UartBridge.uartRxBufRsp
    split <;> rfl
  | _ => rfl

theorem fw_left {f g : Firmware.State} {b : Firmware.Label} (ho : ownsFw b = true)
    (hb : begins (.fw b) = false) (h : Firmware.step port f b = some g) :
    (runs (.fw b)).toNat+mainLeft g ≤ mainLeft f := by
  cases b with
  | wait ms => simp [ownsFw] at ho
  | call err =>
    rw [Nat.add_comm]
    exact call_left h
  | uart c =>
    obtain ⟨ho,u,hu,rfl⟩ := Firmware.step_uart.mp h
    cases c with
    | expire =>
      obtain ⟨w,_,rfl⟩ := UartBridge.step_expire.mp hu
      simp [runs, mainLeft]
    | enter => simp [begins] at hb
    | handler err =>
      obtain ⟨b,q,hn,rfl⟩ := UartBridge.step_handler.mp hu
      have hl := handlerNext_left hn
      simp only [runs, mainLeft, Bool.toNat_true, handlerNext_now hn]
      omega
    | isr e =>
      obtain ⟨b,hn,rfl⟩ := UartBridge.step_isr.mp hu
      simp [runs, mainLeft, uartCb_now hn]
    | _ => simp [Firmware.ownsUart] at ho
  | main c =>
    obtain ⟨ho',m,hm,rfl⟩ := Firmware.step_main.mp h
    cases c with
    | work err =>
      obtain ⟨n,q,hn,rfl⟩ := MainThreads.step_work.mp hm
      have hl := workNext_left hn
      simp only [runs, mainLeft, Bool.toNat_true]
      omega
    | rx err =>
      obtain ⟨n,q,hn,rfl⟩ := MainThreads.step_rx.mp hm
      have hl := rxNext_left f.uart.bridge.now f.uart.call
        (by simpa [Firmware.ownsMain] using ho') hn
      simp only [runs, mainLeft, Bool.toNat_true]
      omega
    | give =>
      obtain ⟨hg,rfl⟩ := MainThreads.step_give.mp hm
      simp only [runs, mainLeft, hg, Bool.toNat_true, Bool.toNat_false]
      omega
    | expire w =>
      obtain ⟨v,_,rfl⟩ := MainThreads.step_expire.mp hm
      simp [runs, mainLeft]
    | writer k err =>
      obtain ⟨n,q,pc,_,rfl⟩ := MainThreads.step_writer.mp hm
      simp [runs, mainLeft]
    | enter | receive | ready => simp [begins] at hb
    | _ => simp [ownsFw] at ho

theorem refresh_left {err : ℤ} (h : Device.step port s (.refresh err) = some t) :
    1+left t ≤ left s := by
  obtain ⟨pc,hpc,rfl⟩ := step_refresh_some h
  have hl := refreshNext_left (advView s).radio err pc
  have hbonds : (refreshNext (advView s).radio err pc).1.bonds = s.bonds :=
    (LockedMode.refreshNext_kept (advView s).radio err pc).1
  have hmain (m : Main) : mainLeft (setMain s.fw m) = mainLeft s.fw := rfl
  cases hq : (refreshNext (advView s).radio err pc).2 with
  | none =>
    rw [hq] at hl
    simp only [left, setAdv, hmain, hbonds, hpc, Option.elim] at hl ⊢
    have hpos : 0+1 ≤ refreshLeft s.bonds pc := hl
    omega
  | some q =>
    rw [hq] at hl
    simp only [left, setAdv, hmain, hbonds, hpc, Option.elim] at hl ⊢
    have hlt : refreshLeft s.bonds q+1 ≤ refreshLeft s.bonds pc := hl
    omega

theorem adv_left {v w : Advertiser.State} {b : Advertiser.Label} (ho : ownsAdv b = true)
    (hb : begins (.adv b) = false) (h : Advertiser.step v b = some w) :
    w.radio.bonds = v.radio.bonds ∧ (runs (.adv b)).toNat+threadsLeft w.radio.bonds w.threads ≤
      threadsLeft v.radio.bonds v.threads := by
  cases b with
  | expire i =>
    obtain ⟨x,_,rfl⟩ := Advertiser.step_expire.mp h
    simp [runs]
  | run T err sync =>
    obtain ⟨pc,r,q,hT,_,hn,rfl⟩ := Advertiser.step_run.mp h
    have hl := pcNext_left hn
    have hset := threadsLeft_set v.radio.bonds v.threads T q
    have hbonds := pcNext_bonds hn
    rw [hT] at hset
    simp only [Option.elim_some] at hset
    refine ⟨hbonds,?_⟩
    simp only [hbonds, runs, Bool.toNat_true]
    omega
  | enter | recycled => simp [begins] at hb
  | _ => simp [ownsAdv] at ho

theorem step_left (h : Device.step port s a = some t) (ha : begins a = false) :
    (runs a).toNat+left t ≤ left s := by
  cases a with
  | wait ms =>
    obtain ⟨f,hf,rfl⟩ := Device.step_wait.mp h
    obtain ⟨m,u,hm,hu,rfl⟩ := Firmware.step_wait.mp hf
    obtain rfl := MainThreads.step_wait.mp hm
    obtain rfl := UartBridge.step_wait.mp hu
    have hrx := rxLeft_wait s.fw.uart.bridge.now ms s.fw.uart.call s.fw.main.rx
    simp only [runs, left, mainLeft, Bool.toNat_false]
    omega
  | fw b =>
    obtain ⟨ho,_,_,f,hf,rfl⟩ := Device.step_fw.mp h
    have hl := fw_left ho ha hf
    simp only [left]
    omega
  | adv b =>
    obtain ⟨ho,_,v,hv,rfl⟩ := Device.step_adv.mp h
    obtain ⟨hbonds,hl⟩ := adv_left ho ha hv
    have hmain : mainLeft (setAdv s v).fw = mainLeft s.fw := rfl
    have href := setAdv_refresh (adv_writes ho hv).2
    have hb : (setAdv s v).bonds = s.bonds := hbonds
    have hth : threadsLeft (setAdv s v).bonds (setAdv s v).threads =
      threadsLeft v.radio.bonds v.threads := rfl
    have hold : threadsLeft s.bonds s.threads =
      threadsLeft (advView s).radio.bonds (advView s).threads := rfl
    simp only [left, hmain, href, hold, hth]
    rw [hb]
    omega
  | attempt peer =>
    obtain ⟨_,_,_,_,rfl⟩ := Device.step_attempt.mp h
    simp [runs, left]
  | host =>
    obtain ⟨_,f,hf,rfl⟩ := Device.step_host.mp h
    obtain ⟨m,hm,rfl⟩ := main_step hf
    obtain ⟨n,q,hn,rfl⟩ := MainThreads.step_host.mp hm
    have hl := hostNext_left hn
    simp only [runs, left, mainLeft, Bool.toNat_true]
    omega
  | refresh err => exact refresh_left h
  | returned =>
    obtain ⟨_,ht⟩ := Device.step_returned.mp h
    rcases ht with ⟨_,rfl⟩ | ⟨_,f,hf,rfl⟩
    · simp [runs, left]
    · obtain ⟨m,hm,rfl⟩ := main_step hf
      obtain ⟨_,_,_,_,_,rfl⟩ := MainThreads.step_recycle.mp hm
      simp [runs, left, mainLeft]
  | connected | security | pairingComplete | disconnected => simp [begins] at ha

structure Resting (s : Device.State) : Prop where
  host : s.fw.main.host = .idle
  refresh : s.refresh = none
  work : s.fw.main.work = .idle
  gives : s.fw.main.isrGives = false
  rx : s.fw.main.rx = .idle
  call : s.fw.uart.call = .idle
  handler : s.fw.uart.handler = .idle
  threads : ∀ T, s.threads T = none

theorem Resting.task (hr : Resting s) : Device.task s = .callback .idle := by
  simp [Device.task, hr.refresh, hr.host]

theorem Resting.unlocked (hr : Resting s) : locked s.threads = false :=
  locked_false.mpr (fun T pc hT => by simp [hr.threads T] at hT)

theorem hostNext_total (m : Main) {p : HostPc} (hp : p ≠ .idle) :
    ∃ n q, hostNext m p = some (n,q) := by
  cases p <;> simp_all [hostNext]

theorem workNext_total (port : Bool) (m : Main) {p : WorkPc} (hp : p ≠ .idle) :
    ∃ n q, workNext port m p = some (n,q) := by
  cases p with
  | idle => contradiction
  | _ => exact ⟨_,_,rfl⟩

theorem rxNext_total (port : Bool) (m : Main) (err : ℤ) {p : RxPc} (hp : p ≠ .idle) :
    ∃ n q, rxNext port m err p = some (n,q) := by
  cases p <;> simp_all [rxNext]

theorem uartRxEnable_fails (buf : UartBridge.Buf) (b : UartBridge.Bridge) :
    UartBridge.uartRxEnable buf 1 b = some b :=
  UartBridge.uartRxEnable_some.mpr (Or.inr (Or.inr ⟨by decide,rfl⟩))

theorem handlerNext_total (b : UartBridge.Bridge) {p : UartBridge.HandlerPc} (hp : p ≠ .idle) :
    ∃ c q, UartBridge.handlerNext b 1 p = some (c,q) := by
  cases p with
  | idle => contradiction
  | alloc =>
    simp only [UartBridge.handlerNext]
    split <;> exact ⟨_,_,rfl⟩
  | enable buf => exact ⟨_,_,by rw [UartBridge.handlerNext, uartRxEnable_fails, Option.map_some]⟩
  | _ => exact ⟨_,_,rfl⟩

theorem callNext_total (b : UartBridge.Bridge) {p : UartBridge.CallPc} (hp : p ≠ .idle) :
    (∃ c q, UartBridge.callNext b 1 p = some (c,q)) ∨
      ∃ baud deadline, p = .takeSem baud deadline ∧ b.now < deadline := by
  cases p with
  | idle => contradiction
  | takeSem baud deadline =>
    by_cases hd : deadline ≤ b.now
    · exact Or.inl ⟨_,_,by rw [UartBridge.callNext, if_neg (by decide), if_pos hd]⟩
    · exact Or.inr ⟨baud,deadline,rfl,Nat.lt_of_not_le hd⟩
  | alloc ret =>
    left
    simp only [UartBridge.callNext]
    split <;> exact ⟨_,_,rfl⟩
  | enable buf ret =>
    exact Or.inl ⟨_,_,by rw [UartBridge.callNext, uartRxEnable_fails, Option.map_some]⟩
  | kick ret =>
    left
    simp only [UartBridge.callNext]
    split <;> exact ⟨_,_,rfl⟩
  | _ => exact Or.inl ⟨_,_,rfl⟩

theorem pcNext_total (r : Radio) (sync : Bool) (pc : Pc) :
    ∃ err c q, (atRefresh callsAcceptList (some pc) = true → err = 0) ∧
      pcNext r err sync pc = some (c,q) := by
  cases pc with
  | refresh pc => exact ⟨0,_,_,fun _ => rfl,rfl⟩
  | start pc =>
    obtain ⟨c,q,hc⟩ := startNext_total r pc
    exact ⟨1,c,_,by simp [atRefresh],by rw [pcNext, hc, Option.map_some]⟩
  | slow pc =>
    obtain ⟨c,q,hc⟩ := slowNext_total r sync pc
    exact ⟨1,c,_,by simp [atRefresh],by rw [pcNext, hc, Option.map_some]⟩

/-- The step only carries on with what has begun: whose the object is stays, and the
accept list takes what it is told. -/
structure Onward (s : Device.State) (a : Device.Label) : Prop where
  begun : begins a = false
  lock : lockEvents s a = []
  accept : AcceptCalls s a

theorem onward_of_answer (hb : begins a = false) (hl : lockEvents s a = [])
    (ha : ∀ b ∈ radioLabels s a, acceptCall (advView s) b = true → answer b = 0) : Onward s a :=
  ⟨hb,hl,fun b hb hcall _ => ha b hb hcall⟩

theorem thread_steps {T : Advertiser.Thread} {pc : Pc} (hT : s.threads T = some pc)
    (hl : Advertiser.locks pc = true → locked s.threads = false) :
    ∃ a t, runs a = true ∧ Onward s a ∧ Device.step port s a = some t := by
  obtain ⟨err,r,q,herr,hn⟩ := pcNext_total (advView s).radio false pc
  have hcall : acceptCall (advView s) (.run T err false) = true →
      answer (.run T err false) = 0 := by
    show atRefresh callsAcceptList (s.threads T) = true → err = 0
    rw [hT]
    exact herr
  exact ⟨.adv (.run T err false),_,rfl,
    onward_of_answer rfl rfl (by simpa [radioLabels] using hcall),
    Device.step_adv.mpr ⟨rfl,by simp [Advertiser.enters],_,
      Advertiser.step_run.mpr ⟨pc,r,q,hT,hl,hn,rfl⟩,rfl⟩⟩

theorem fw_steps {b : Firmware.Label} {f : Firmware.State} (hl : locked s.threads = false)
    (ho : ownsFw b = true) (hr : runs (.fw b) = true) (hb : begins (.fw b) = false)
    (he : Device.enters b = false) (h : Firmware.step port s.fw b = some f) :
    ∃ a t, runs a = true ∧ Onward s a ∧ Device.step port s a = some t :=
  ⟨.fw b,_,hr,onward_of_answer hb rfl (by simp [radioLabels]),
    Device.step_fw.mpr ⟨ho,by simp [he],fun _ => hl,f,h,rfl⟩⟩

theorem afterCall_total (port : Bool) {f : Firmware.State} {u : UartBridge.State}
    (hrx : f.main.rx ≠ .idle) :
    ∃ g, Firmware.afterCall port f u = some g := by
  unfold Firmware.afterCall
  split
  · obtain ⟨n,q,hn⟩ := rxNext_total port f.main.main (Firmware.retOf f.uart.call) hrx
    exact ⟨_,by rw [MainThreads.step_rx.mpr ⟨n,q,hn,rfl⟩, Option.map_some]⟩
  · exact ⟨_,rfl⟩

theorem bridge_total {u : UartBridge.State} {k : UartBridge.Label} {p : RxPc}
    (hk : Firmware.callOf p = some k) :
    (∃ v, UartBridge.step u (if u.call = .idle then k else .call 1) = some v) ∨
      ∃ baud deadline, u.call = .takeSem baud deadline ∧ u.bridge.now < deadline := by
  by_cases hi : u.call = .idle
  · rw [if_pos hi]
    cases p with
    | setBaud baud ack =>
      obtain rfl := Option.some.inj hk
      exact Or.inl ⟨_,UartBridge.step_setBaud.mpr ⟨hi,rfl⟩⟩
    | forward data =>
      obtain rfl := Option.some.inj hk
      exact Or.inl ⟨_,UartBridge.step_send.mpr ⟨hi,rfl⟩⟩
    | _ => simp [Firmware.callOf] at hk
  · rw [if_neg hi]
    rcases callNext_total u.bridge hi with ⟨c,q,hn⟩ | hw
    · exact Or.inl ⟨_,UartBridge.step_call.mpr ⟨c,q,hn,rfl⟩⟩
    · exact Or.inr hw

theorem call_steps (port : Bool) {k : UartBridge.Label} (hl : locked s.threads = false)
    (hk : Firmware.callOf s.fw.main.rx = some k) :
    (∃ a t, runs a = true ∧ Onward s a ∧ Device.step port s a = some t) ∨
      ∃ baud deadline, s.fw.uart.call = .takeSem baud deadline ∧
        s.fw.uart.bridge.now < deadline := by
  have hrx : s.fw.main.rx ≠ .idle := by
    intro hi
    simp [hi, Firmware.callOf] at hk
  refine (bridge_total hk).imp_left ?_
  rintro ⟨u,hu⟩
  obtain ⟨g,hg⟩ := afterCall_total port (f := s.fw) (u := u) hrx
  refine fw_steps (b := .call 1) (f := g) hl rfl rfl rfl rfl ?_
  exact Firmware.step_call.mpr ⟨_,u,by rw [Firmware.callLabel, hk, Option.map_some],hu,hg⟩

theorem wait_left (port : Bool) {baud : UInt32} {deadline : ℕ}
    (hc : s.fw.uart.call = .takeSem baud deadline)
    (hd : s.fw.uart.bridge.now < deadline) (hrx : (Firmware.callOf s.fw.main.rx).isSome = true) :
    ∃ t, Onward s (.wait deadline) ∧ Device.step port s (.wait deadline) = some t ∧
      left t < left s := by
  refine ⟨_,onward_of_answer rfl rfl (by simp [radioLabels, answer]),
    Device.step_wait.mpr ⟨_,Firmware.step_wait.mpr
      ⟨_,_,MainThreads.step_wait.mpr rfl,UartBridge.step_wait.mpr rfl,rfl⟩,rfl⟩,?_⟩
  have hlt : rxLeft (s.fw.uart.bridge.now+deadline) s.fw.uart.call s.fw.main.rx <
      rxLeft s.fw.uart.bridge.now s.fw.uart.call s.fw.main.rx := by
    have hnow : ¬deadline ≤ s.fw.uart.bridge.now := Nat.not_le_of_lt hd
    rw [hc]
    cases hp : s.fw.main.rx <;> simp [hp, Firmware.callOf] at hrx <;>
      simp [rxLeft, servedLeft, callLeft, hnow]
  simp only [left, mainLeft]
  omega

theorem runs_lower (h : ∃ a t, runs a = true ∧ Onward s a ∧ Device.step port s a = some t) :
    ∃ a t, Onward s a ∧ Device.step port s a = some t ∧ left t < left s := by
  obtain ⟨a,t,ha,hon,hst⟩ := h
  have hl := step_left hst hon.begun
  rw [ha, Bool.toNat_true] at hl
  exact ⟨a,t,hon,hst,by omega⟩

theorem call_lowers (port : Bool) {k : UartBridge.Label} (hl : locked s.threads = false)
    (hk : Firmware.callOf s.fw.main.rx = some k) :
    ∃ a t, Onward s a ∧ Device.step port s a = some t ∧ left t < left s := by
  rcases call_steps port hl hk with hc | ⟨baud,deadline,hc,hd⟩
  · exact runs_lower hc
  · exact ⟨_,wait_left port hc hd (by simp [hk])⟩

theorem holder_steps (port : Bool) (hl : locked s.threads = true) :
    ∃ a t, runs a = true ∧ Onward s a ∧ Device.step port s a = some t := by
  have hsome : ∃ T pc, s.threads T = some pc ∧ inside pc = true := by
    by_contra hno
    have : locked s.threads = false := locked_false.mpr (fun T pc hT => by
      by_contra hi
      exact hno ⟨T,pc,hT,by simpa using hi⟩)
    simp [this] at hl
  obtain ⟨T,pc,hT,hi⟩ := hsome
  exact thread_steps hT (fun hp => by simp [inside_unlocks hi] at hp)

theorem host_steps (port : Bool) (hl : locked s.threads = false) (hh : s.fw.main.host ≠ .idle) :
    ∃ a t, runs a = true ∧ Onward s a ∧ Device.step port s a = some t := by
  obtain ⟨n,q,hn⟩ := hostNext_total s.fw.main.main hh
  exact ⟨.host,_,rfl,onward_of_answer rfl rfl (by simp [radioLabels, answer]),
    Device.step_host.mpr ⟨fun _ => hl,_,
      Firmware.step_main.mpr ⟨rfl,_,MainThreads.step_host.mpr ⟨n,q,hn,rfl⟩,rfl⟩,rfl⟩⟩

theorem refresh_steps (port : Bool) (hr : s.refresh ≠ none) :
    ∃ a t, runs a = true ∧ Onward s a ∧ Device.step port s a = some t := by
  obtain ⟨pc,hpc⟩ := Option.ne_none_iff_exists'.mp hr
  have hhost : (advView s).host = .refresh pc := by simp [advView, task, hpc]
  exact ⟨.refresh 0,_,rfl,onward_of_answer rfl rfl (by simp [radioLabels, answer]),
    Device.step_refresh.mpr ⟨by simp [hpc],_,
      Advertiser.step_host.mpr ⟨by simp [hhost, hostLocks],_,_,by rw [hhost]; rfl,rfl⟩,rfl⟩⟩

theorem progress (port : Bool) (hs : Firmware.Serving s.fw.uart.call s.fw.main.rx)
    (hr : ¬Resting s) :
    ∃ a t, Onward s a ∧ Device.step port s a = some t ∧ left t < left s := by
  by_cases hl : locked s.threads = true
  · exact runs_lower (holder_steps port hl)
  -- with the mutex free whoever runs goes on, but for a call before its deadline
  have hfree : locked s.threads = false := by simpa using hl
  by_contra hno
  have hstop : ¬∃ a t, runs a = true ∧ Onward s a ∧ Device.step port s a = some t :=
    fun h => hno (runs_lower h)
  apply hr
  constructor
  · by_contra hh
    exact hstop (host_steps port hfree hh)
  · by_contra hh
    exact hstop (refresh_steps port hh)
  · by_contra hh
    obtain ⟨n,q,hn⟩ := workNext_total port s.fw.main.main hh
    exact hstop (fw_steps (b := .main (.work 0)) hfree rfl rfl rfl rfl
      (Firmware.step_main.mpr ⟨rfl,_,MainThreads.step_work.mpr ⟨n,q,hn,rfl⟩,rfl⟩))
  · by_contra hh
    exact hstop (fw_steps (b := .main .give) hfree rfl rfl rfl rfl
      (Firmware.step_main.mpr ⟨rfl,_,MainThreads.step_give.mpr ⟨by simpa using hh,rfl⟩,rfl⟩))
  · by_contra hh
    cases hk : Firmware.callOf s.fw.main.rx with
    | none =>
      obtain ⟨n,q,hn⟩ := rxNext_total port s.fw.main.main 0 hh
      exact hstop (fw_steps (b := .main (.rx 0)) hfree rfl rfl rfl rfl
        (Firmware.step_main.mpr ⟨by simp [Firmware.ownsMain, hk],_,
          MainThreads.step_rx.mpr ⟨n,q,hn,rfl⟩,rfl⟩))
    | some k => exact hno (call_lowers port hfree hk)
  · by_contra hh
    cases hk : Firmware.callOf s.fw.main.rx with
    | none => exact hh (hs.idle hk)
    | some k => exact hno (call_lowers port hfree hk)
  · by_contra hh
    obtain ⟨c,q,hn⟩ := handlerNext_total s.fw.uart.bridge hh
    exact hstop (fw_steps (b := .uart (.handler 1)) hfree rfl rfl rfl rfl
      (Firmware.step_uart.mpr ⟨rfl,_,UartBridge.step_handler.mpr ⟨c,q,hn,rfl⟩,rfl⟩))
  · intro T
    by_contra hh
    obtain ⟨pc,hpc⟩ := Option.ne_none_iff_exists'.mp hh
    exact hstop (thread_steps hpc (fun _ => hfree))

theorem run_serving {bonds : List ℕ} {rate : UInt32} {es : List Device.Label}
    (h : run (Device.step port) es (Device.init bonds rate) = some s) :
    Firmware.Serving s.fw.uart.call s.fw.main.rx :=
  fw_invariant (I := fun f => Firmware.Serving f.uart.call f.main.rx) (Firmware.serving_idle _)
    (fun _ _ _ hi hs => Firmware.step_serving hi hs) (fun _ _ hi _ => hi) h

/-- From every state the device can be brought to rest without anything new, and
however it goes on, what has begun takes no more than `left` steps to end. -/
theorem device_comes_to_rest (port : Bool) (bonds : List ℕ) (rate : UInt32)
    (es : List Device.Label) (s : Device.State)
    (h : run (Device.step port) es (Device.init bonds rate) = some s) :
    (∃ as t, (∀ a ∈ as, begins a = false) ∧ run (Device.step port) as s = some t ∧ Resting t) ∧
      ∀ as t, (∀ a ∈ as, begins a = false) → run (Device.step port) as s = some t →
        as.countP runs ≤ left s := by
  constructor
  · have hrest : ∃ as t, (∀ a ∈ as, begins a = false) ∧ run (Device.step port) as s = some t ∧
        (∃ es, run (Device.step port) es (Device.init bonds rate) = some t) ∧ Resting t := by
      refine exists_rest left ?_ ⟨es,h⟩
      rintro r ⟨xs,hxs⟩ hr
      obtain ⟨a,t,hon,hst,hlt⟩ := progress port (run_serving hxs) hr
      exact ⟨a,t,hon.begun,hst,⟨xs++[a],by rw [run_snoc, hxs]; exact hst⟩,hlt⟩
    obtain ⟨as,t,hq,ht,_,hrest⟩ := hrest
    exact ⟨as,t,hq,ht,hrest⟩
  · intro as t hq ht
    have hpay : (as.map (fun a => (runs a).toNat)).sum+left t ≤ left s :=
      run_potential (P := fun _ => True) left
        (fun _ _ _ _ hq hst => ⟨trivial,step_left hst hq⟩) trivial (allSteps_label s hq) ht
    rw [countP_eq_sum]
    omega

def busy : List Device.Label :=
  List.flatten [List.replicate 7 (.adv (.run .boot 0 false)), [.attempt 7, .connected 0],
    List.replicate 3 .host, [.fw (.main (.receive [1])), .disconnected]]

theorem device_comes_to_rest_busy : ∃ as t, (∀ a ∈ as, begins a = false) ∧
    run (Device.step true) as
      ((run (Device.step true) busy (Device.init [] 115200)).getD (Device.init [] 115200)) =
        some t ∧ Resting t :=
  (device_comes_to_rest true [] 115200 busy _ (by decide)).1

end NrfProxy.DeviceProgress
