import NrfProxy.ThreadInvariant
import NrfProxy.UartBridge

/-!
# main.c on top of uart_bridge.c

`nus_received` is the one caller of the bridge after boot. While it is in
`uart_bridge_send` or `uart_bridge_set_baud` the steps of the receive callback
are those of the bridge's call, and the value the call returns is what the
callback goes on with. Everything else interleaves. The RX ring is in the
threads' part, the TX ring and the driver in the bridge's.
-/

set_option autoImplicit false

namespace NrfProxy.Firmware
open NrfProxy.Runs NrfProxy.MainThreads NrfProxy.ThreadInvariant

structure State where
  main : MainThreads.State
  uart : UartBridge.State
  deriving DecidableEq, Repr

def init (locked : Bool) (rate : UInt32) : State := ⟨MainThreads.init locked,UartBridge.init rate⟩

/-- `err` is what the driver answers to the step of the call. -/
inductive Label where
  | wait (ms : ℕ)
  | main (a : MainThreads.Label)
  | uart (a : UartBridge.Label)
  | call (err : ℤ)
  deriving DecidableEq, Repr

def callOf : RxPc → Option UartBridge.Label
  | .setBaud baud _ => some (.setBaud baud)
  | .forward data => some (.send data)
  | _ => none

/-- What the call returns when its last step was this one. -/
def retOf : UartBridge.CallPc → ℤ
  | .kick (some ret) | .tx _ (some ret) | .txIdle (some ret) => ret
  | _ => 0

def ownsMain (s : MainThreads.State) : MainThreads.Label → Bool
  | .wait _ => false
  | .rx _ => (callOf s.rx).isNone
  | _ => true

def ownsUart : UartBridge.Label → Bool
  | .expire | .enter | .handler _ | .isr _ => true
  | _ => false

def callLabel (s : State) (err : ℤ) : Option UartBridge.Label :=
  (callOf s.main.rx).map (fun l => if s.uart.call = .idle then l else .call err)

def afterCall (port : Bool) (s : State) (u : UartBridge.State) : Option State :=
  if u.call = .idle then
    (MainThreads.step port s.main (.rx (retOf s.uart.call))).map (fun m => ⟨m,u⟩)
  else some { s with uart := u }

def step (port : Bool) (s : State) : Label → Option State
  | .wait ms =>
    (MainThreads.step port s.main (.wait ms)).bind (fun m =>
      (UartBridge.step s.uart (.wait ms)).map (fun u => ⟨m,u⟩))
  | .main a =>
    if ownsMain s.main a then (MainThreads.step port s.main a).map (fun m => { s with main := m })
    else none
  | .uart a =>
    if ownsUart a then (UartBridge.step s.uart a).map (fun u => { s with uart := u }) else none
  | .call err =>
    (callLabel s err).bind (fun l => (UartBridge.step s.uart l).bind (afterCall port s))

def linked : List Label := MainThreads.secureLink.map .main

def secured : MainThreads.State :=
  { MainThreads.init false with
    main :=
      { MainState.boot false with
        currentConn := true
        connRefs := 1
        linkSecure := true
        rxDataReady := true }
    link := some 0
    up := true
    links := 1 }

example : run (step true) linked (init false 115200) = some ⟨secured,UartBridge.init 115200⟩ := by
  decide

section Steps

variable {port : Bool} {s t : State}

theorem step_wait {ms : ℕ} : step port s (.wait ms) = some t ↔
    ∃ m u, MainThreads.step port s.main (.wait ms) = some m ∧
      UartBridge.step s.uart (.wait ms) = some u ∧ t = ⟨m,u⟩ := by
  simp [step, Option.bind_eq_some_iff, @eq_comm _ t]

theorem step_main {a : MainThreads.Label} : step port s (.main a) = some t ↔
    ownsMain s.main a = true ∧ ∃ m, MainThreads.step port s.main a = some m ∧
      t = { s with main := m } := by
  simp [step, @eq_comm _ t]

theorem step_uart {a : UartBridge.Label} : step port s (.uart a) = some t ↔
    ownsUart a = true ∧ ∃ u, UartBridge.step s.uart a = some u ∧ t = { s with uart := u } := by
  simp [step, @eq_comm _ t]

theorem step_call {err : ℤ} : step port s (.call err) = some t ↔
    ∃ l u, callLabel s err = some l ∧ UartBridge.step s.uart l = some u ∧
      afterCall port s u = some t := by
  simp [step, Option.bind_eq_some_iff]

theorem afterCall_some {u : UartBridge.State} (h : afterCall port s u = some t) :
    u.call ≠ .idle ∧ t = { s with uart := u } ∨
    u.call = .idle ∧ ∃ m, MainThreads.step port s.main (.rx (retOf s.uart.call)) = some m ∧
      t = ⟨m,u⟩ := by
  unfold afterCall at h
  split at h
  · rename_i hi
    obtain ⟨m,hm,rfl⟩ := Option.map_eq_some_iff.mp h
    exact Or.inr ⟨hi,m,hm,rfl⟩
  · rename_i hi
    exact Or.inl ⟨hi,(Option.some.inj h).symm⟩

end Steps

def mainLabels (s : State) : Label → List MainThreads.Label
  | .wait ms => [.wait ms]
  | .main a => [a]
  | .uart _ => []
  | .call err =>
    match (callLabel s err).bind (UartBridge.step s.uart) with
    | some u => if u.call = .idle then [.rx (retOf s.uart.call)] else []
    | none => []

def uartLabels (s : State) : Label → List UartBridge.Label
  | .wait ms => [.wait ms]
  | .main _ => []
  | .uart a => [a]
  | .call err => (callLabel s err).toList

theorem main_part (port : Bool) (s : State) (a : Label) (t : State) (h : step port s a = some t) :
    run (MainThreads.step port) (mainLabels s a) s.main = some t.main := by
  cases a with
  | wait ms =>
    obtain ⟨m,u,hm,_,rfl⟩ := step_wait.mp h
    simp [mainLabels, run, hm]
  | main a =>
    obtain ⟨_,m,hm,rfl⟩ := step_main.mp h
    simp [mainLabels, run, hm]
  | uart a =>
    obtain ⟨_,u,_,rfl⟩ := step_uart.mp h
    rfl
  | call err =>
    obtain ⟨l,u,hl,hu,ht⟩ := step_call.mp h
    rcases afterCall_some ht with ⟨hi,rfl⟩ | ⟨hi,m,hm,rfl⟩
    · simp [mainLabels, hl, hu, hi, run]
    · simp [mainLabels, hl, hu, hi, run, hm]

theorem uart_part (port : Bool) (s : State) (a : Label) (t : State) (h : step port s a = some t) :
    run UartBridge.step (uartLabels s a) s.uart = some t.uart := by
  cases a with
  | wait ms =>
    obtain ⟨m,u,_,hu,rfl⟩ := step_wait.mp h
    simp [uartLabels, run, hu]
  | main a =>
    obtain ⟨_,m,_,rfl⟩ := step_main.mp h
    rfl
  | uart a =>
    obtain ⟨_,u,hu,rfl⟩ := step_uart.mp h
    simp [uartLabels, run, hu]
  | call err =>
    obtain ⟨l,u,hl,hu,ht⟩ := step_call.mp h
    rcases afterCall_some ht with ⟨_,rfl⟩ | ⟨_,m,_,rfl⟩ <;> simp [uartLabels, hl, run, hu]

variable (port locked : Bool) (rate : UInt32)

def uartRun (es : List Label) : List UartBridge.Label :=
  trace (step port) uartLabels es (init locked rate)

variable {port locked rate}

theorem run_uart {es : List Label} {s : State} (h : run (step port) es (init locked rate) = some s) :
    run UartBridge.step (uartRun port locked rate es) (UartBridge.init rate) = some s.uart :=
  run_part (uart_part port) h

def inSend (data : List UInt8) : UartBridge.CallPc → Bool
  | .idle => true
  | .put d => d == data
  | .kick ret | .tx _ ret | .countDrop _ _ ret | .keepErr _ ret | .txIdle ret => ret.isNone
  | _ => false

def inSetBaud (baud : UInt32) : UartBridge.CallPc → Bool
  | .idle => true
  | .cancel b | .setFlag b | .abortTx b | .resetSem b | .disableRx b | .takeSem b _
  | .getConfig b | .configure b => b == baud
  | .clearFlag _ | .alloc _ | .enable _ _ | .freeFailed _ _ | .schedule _ => true
  | .kick ret | .tx _ ret | .countDrop _ _ ret | .keepErr _ ret | .txIdle ret => ret.isSome
  | .put _ => false

/-- The running call is the one the receive callback is at. -/
def Serving (call : UartBridge.CallPc) : RxPc → Prop
  | .forward data => inSend data call = true
  | .setBaud baud _ => inSetBaud baud call = true
  | _ => call = .idle

section Serving

variable {b c : UartBridge.Bridge} {err : ℤ} {p q : UartBridge.CallPc}

theorem callNext_send {data : List UInt8} (hp : inSend data p = true)
    (h : UartBridge.callNext b err p = some (c,q)) :
    inSend data q = true ∧ ∀ d, q ≠ .put d := by
  cases UartBridge.call_move h with
  | put | nothing | started | txIdle => simp [inSend]
  | staged | startFailed | countDrop | keepErr => exact ⟨hp,by simp⟩
  | _ => simp [inSend] at hp

theorem callNext_setBaud {baud : UInt32} (hp : inSetBaud baud p = true)
    (h : UartBridge.callNext b err p = some (c,q)) : inSetBaud baud q = true := by
  cases UartBridge.call_move h with
  | put => simp [inSetBaud] at hp
  | cancel | setFlag | abortTx | resetSem | disabled | wasOff | quiesced | getConfig | staged
  | startFailed | countDrop | keepErr => exact hp
  | _ => rfl

variable {port locked : Bool} {rate : UInt32} {s t : State} {a : Label}

theorem uart_call {a : UartBridge.Label} {u v : UartBridge.State} (ha : ownsUart a = true)
    (h : UartBridge.step u a = some v) : v.call = u.call := by
  cases a with
  | expire =>
    obtain ⟨w,_,rfl⟩ := UartBridge.step_expire.mp h
    rfl
  | enter =>
    obtain ⟨_,w,_,rfl⟩ := UartBridge.step_enter.mp h
    rfl
  | handler err =>
    obtain ⟨b,pc,_,rfl⟩ := UartBridge.step_handler.mp h
    rfl
  | isr e =>
    obtain ⟨b,_,rfl⟩ := UartBridge.step_isr.mp h
    rfl
  | _ => simp [ownsUart] at ha

theorem serving_idle (rx : RxPc) : Serving .idle rx := by
  cases rx <;> rfl

theorem Serving.idle {call : UartBridge.CallPc} {rx : RxPc} (hs : Serving call rx)
    (hr : callOf rx = none) : call = .idle := by
  cases rx with
  | forward | setBaud => simp [callOf] at hr
  | _ => exact hs

theorem call_serving {l : UartBridge.Label} {u : UartBridge.State}
    (hs : Serving s.uart.call s.main.rx) (hl : callLabel s err = some l)
    (hu : UartBridge.step s.uart l = some u) : Serving u.call s.main.rx := by
  simp only [callLabel, Option.map_eq_some_iff] at hl
  obtain ⟨k,hk,rfl⟩ := hl
  cases hrx : s.main.rx with
  | forward data =>
    rw [hrx] at hs hk
    obtain rfl := Option.some.inj hk
    split at hu
    · obtain ⟨_,rfl⟩ := UartBridge.step_send.mp hu
      exact beq_self_eq_true data
    · obtain ⟨b,pc,hn,rfl⟩ := UartBridge.step_call.mp hu
      exact (callNext_send hs hn).1
  | setBaud baud ack =>
    rw [hrx] at hs hk
    obtain rfl := Option.some.inj hk
    split at hu
    · obtain ⟨_,rfl⟩ := UartBridge.step_setBaud.mp hu
      exact beq_self_eq_true baud
    · obtain ⟨b,pc,hn,rfl⟩ := UartBridge.step_call.mp hu
      exact callNext_setBaud hs hn
  | _ => simp [hrx, callOf] at hk

theorem step_serving (hs : Serving s.uart.call s.main.rx) (h : step port s a = some t) :
    Serving t.uart.call t.main.rx := by
  cases a with
  | wait ms =>
    obtain ⟨m,u,hm,hu,rfl⟩ := step_wait.mp h
    obtain rfl := MainThreads.step_wait.mp hm
    obtain rfl := UartBridge.step_wait.mp hu
    exact hs
  | main a =>
    obtain ⟨ho,m,hm,rfl⟩ := step_main.mp h
    by_cases hx : thread a = .rx
    · have hi : s.uart.call = .idle := by
        apply hs.idle
        cases a with
        | receive data =>
          obtain ⟨l,_,hr,_⟩ := MainThreads.step_receive.mp hm
          rw [hr]
          rfl
        | rx err => simpa [ownsMain] using ho
        | _ => simp [thread] at hx
      show Serving s.uart.call m.rx
      rw [hi]
      exact serving_idle m.rx
    · show Serving s.uart.call m.rx
      rw [((step_frame hm).rx hx).1]
      exact hs
  | uart a =>
    obtain ⟨ho,u,hu,rfl⟩ := step_uart.mp h
    show Serving u.call s.main.rx
    rw [uart_call ho hu]
    exact hs
  | call err =>
    obtain ⟨l,u,hl,hu,ht⟩ := step_call.mp h
    have hu' := call_serving hs hl hu
    rcases afterCall_some ht with ⟨_,rfl⟩ | ⟨hi,m,_,rfl⟩
    · exact hu'
    · show Serving u.call m.rx
      rw [hi]
      exact serving_idle m.rx

theorem run_serving {es : List Label} (h : run (step port) es (init locked rate) = some s) :
    Serving s.uart.call s.main.rx :=
  invariant (I := fun s => Serving s.uart.call s.main.rx) (serving_idle _)
    (fun _ _ _ hs ht => step_serving hs ht) h

end Serving

end NrfProxy.Firmware
