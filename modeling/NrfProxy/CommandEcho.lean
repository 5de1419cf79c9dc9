import NrfProxy.CommandGrammar
import NrfProxy.Firmware

/-!
# The echo of a command

What `nus_received` does with one write, from the gate to its return, is
compared with what it sends back. A command is acted on first, and the echo is
tried a few times and given up. A board without the relay ignores a RELAY
command and acknowledges it all the same.
-/

set_option autoImplicit false

namespace NrfProxy.CommandEcho
open NrfProxy.Runs NrfProxy.ProxyCore NrfProxy.CommandGrammar NrfProxy.Firmware
open NrfProxy.MainThreads (RxPc dispatch rxNext thread ackTries)
open NrfProxy.ThreadInvariant (step_frame)

def sends (s : State) : Label → List (List UInt8 × ℤ)
  | .main (.rx err) =>
    match s.main.rx with
    | .ackSend ack tries => if tries < ackTries then [(ack,err)] else []
    | _ => []
  | _ => []

/-- The state `relay_apply` is asked for, and `relay_enabled` behind it. -/
def relays (port : Bool) (s : State) : Label → List (Bool × Bool)
  | .main (.rx _) =>
    match s.main.rx with
    | .relayApply enable _ =>
      [(enable,(MainState.relayApply port enable s.main.main).relayEnabled)]
    | _ => []
  | _ => []

def configuring (err : ℤ) : UartBridge.CallPc → List (UInt32 × ℤ)
  | .configure baud => [(baud,err)]
  | _ => []

def configures (s : State) : Label → List (UInt32 × ℤ)
  | .call err => configuring err s.uart.call
  | _ => []

def delivered (xs : List (List UInt8 × ℤ)) : List (List UInt8) :=
  (xs.filter (fun x => x.2 = 0)).map Prod.fst

/-- The command took effect. -/
def Took (cmd : Cmd) (rs : List (Bool × Bool)) (cs : List (UInt32 × ℤ)) : Prop :=
  match cmd.kind with
  | .relayEnable => (true,true) ∈ rs
  | .relayDisable => (false,false) ∈ rs
  | .setBaud => (cmd.baud,0) ∈ cs
  | .none | .invalid => False

def Ignored (port : Bool) (cmd : Cmd) : Prop :=
  port = false ∧ (cmd.kind = .relayEnable ∨ cmd.kind = .relayDisable)

/-- The packet is sent up to five times, again only where the stack was short of
buffers, and given up early only where it was not. -/
structure Tried (packet : List UInt8) (xs : List (List UInt8 × ℤ)) : Prop where
  same : ∀ x ∈ xs, x.1 = packet
  bound : xs.length ≤ ackTries
  retried : ∀ x ∈ xs.dropLast, proxySendResult x.2 = .retry
  settled : xs.length = ackTries ∨ ∃ x, xs.getLast? = some x ∧ proxySendResult x.2 ≠ .retry

structure Echoed (port : Bool) (data : List UInt8) (rs : List (Bool × Bool))
    (cs : List (UInt32 × ℤ)) (xs : List (List UInt8 × ℤ)) : Prop where
  tried : Took (proxyCmdParse data emptyCmd) rs cs ∨ Ignored port (proxyCmdParse data emptyCmd) →
    Tried data xs
  silent : ¬(Took (proxyCmdParse data emptyCmd) rs cs ∨
    Ignored port (proxyCmdParse data emptyCmd)) → xs = []
  once : delivered xs = if ∃ x ∈ xs, x.2 = 0 then [data] else []

theorem delivered_append (xs ys : List (List UInt8 × ℤ)) :
    delivered (xs++ys) = delivered xs++delivered ys := by
  simp [delivered]

theorem delivered_retried {xs : List (List UInt8 × ℤ)}
    (h : ∀ x ∈ xs, proxySendResult x.2 = .retry) : delivered xs = [] := by
  rw [delivered, List.map_eq_nil_iff, List.filter_eq_nil_iff]
  intro x hx h0
  have hr := h x hx
  rw [decide_eq_true_eq.mp h0] at hr
  simp [proxySendResult] at hr

theorem Tried.once {data : List UInt8} {xs : List (List UInt8 × ℤ)} (h : Tried data xs) :
    delivered xs = if ∃ x ∈ xs, x.2 = 0 then [data] else [] := by
  induction xs using List.reverseRecOn with
  | nil => simp [delivered]
  | append_singleton xs x _ =>
    have hret := h.retried
    rw [List.dropLast_concat] at hret
    have hx := h.same x (by simp)
    rw [delivered_append, delivered_retried hret, List.nil_append]
    by_cases h0 : x.2 = 0
    · rw [if_pos ⟨x,by simp,h0⟩]
      simp [delivered, h0, hx]
    · rw [if_neg]
      · simp [delivered, h0]
      · rintro ⟨y,hy,hy0⟩
        rcases List.mem_append.mp hy with hy | hy
        · have hr := hret y hy
          rw [hy0] at hr
          simp [proxySendResult] at hr
        · rw [List.mem_singleton.mp hy] at hy0
          exact h0 hy0

def result : UartBridge.CallPc → Option ℤ
  | .clearFlag ret | .alloc ret | .enable _ ret | .freeFailed _ ret | .schedule ret => some ret
  | .kick ret | .tx _ ret | .countDrop _ _ ret | .keepErr _ ret | .txIdle ret => ret
  | _ => none

/-- The call has configured the rate exactly where it will return 0. -/
def Configured (baud : UInt32) (cs : List (UInt32 × ℤ)) (call : UartBridge.CallPc) : Prop :=
  match result call with
  | none => cs = []
  | some ret => (baud,0) ∈ cs ↔ ret = 0

theorem configured_failed {baud : UInt32} {cs : List (UInt32 × ℤ)} {ret : ℤ} (hc : cs = [])
    (hr : ret ≠ 0) : Configured baud cs (.clearFlag ret) := by
  show (baud,0) ∈ cs ↔ ret = 0
  simp [hc, hr]

theorem callNext_result {baud : UInt32} {cs : List (UInt32 × ℤ)} {b c : UartBridge.Bridge} {err : ℤ}
    {p q : UartBridge.CallPc} (hp : inSetBaud baud p = true) (hc : Configured baud cs p)
    (h : UartBridge.callNext b err p = some (c,q)) :
    (q ≠ .idle → Configured baud (cs++configuring err p) q) ∧
    (q = .idle → configuring err p = [] ∧ ((baud,0) ∈ cs ↔ retOf p = 0)) := by
  cases UartBridge.call_move h with
  | put => simp [inSetBaud] at hp
  | refused h0 | unknown h0 =>
    simp only [configuring, List.append_nil]
    exact ⟨fun _ => configured_failed hc h0,by simp⟩
  | timedOut =>
    simp only [configuring, List.append_nil]
    exact ⟨fun _ => configured_failed hc (by decide),by simp⟩
  | @configure d =>
    obtain rfl : d = baud := by simpa [inSetBaud] using hp
    obtain rfl : cs = [] := hc
    refine ⟨fun _ => ?_,by simp⟩
    show (d,0) ∈ [(d,err)] ↔ err = 0
    simp [@eq_comm _ err]
  | nothing | started | txIdle =>
    obtain ⟨ret,rfl⟩ := Option.isSome_iff_exists.mp hp
    exact ⟨fun hne => absurd rfl hne,fun _ => ⟨rfl,hc⟩⟩
  | _ =>
    simp only [configuring, List.append_nil]
    exact ⟨fun _ => hc,by simp⟩

/-- How far the callback is with the write: `rs`, `cs` and `xs` are what it has
done so far. -/
def Progress (port : Bool) (data : List UInt8) (rs : List (Bool × Bool)) (cs : List (UInt32 × ℤ))
    (xs : List (List UInt8 × ℤ)) (call : UartBridge.CallPc) : RxPc → Prop
  | .gate _ => False
  | .relayCancel enable ack | .relayApply enable ack =>
    (proxyCmdParse data emptyCmd).kind = (if enable then .relayEnable else .relayDisable) ∧
      ack = data ∧ rs = [] ∧ xs = []
  | .setBaud baud ack =>
    (proxyCmdParse data emptyCmd).kind = .setBaud ∧ (proxyCmdParse data emptyCmd).baud = baud ∧
      ack = data ∧ xs = [] ∧ Configured baud cs call
  | .ackSend ack tries =>
    (Took (proxyCmdParse data emptyCmd) rs cs ∨ Ignored port (proxyCmdParse data emptyCmd)) ∧
      ack = data ∧ xs.length = tries ∧ tries ≤ ackTries ∧
      ∀ x ∈ xs, x.1 = data ∧ proxySendResult x.2 = .retry
  | .forward _ => (proxyCmdParse data emptyCmd).kind = .none ∧ xs = []
  | .idle => Echoed port data rs cs xs

variable {port : Bool} {data : List UInt8} {rs : List (Bool × Bool)} {cs : List (UInt32 × ℤ)}
  {xs : List (List UInt8 × ℤ)} {s t : State} {a : Label}

theorem echoed_silent (h : ¬(Took (proxyCmdParse data emptyCmd) rs cs ∨
    Ignored port (proxyCmdParse data emptyCmd))) : Echoed port data rs cs [] :=
  ⟨fun hx => absurd hx h,fun _ => rfl,by simp [delivered]⟩

theorem echoed_tried (h : Took (proxyCmdParse data emptyCmd) rs cs ∨
    Ignored port (proxyCmdParse data emptyCmd)) (ht : Tried data xs) :
    Echoed port data rs cs xs :=
  ⟨fun _ => ht,fun hx => absurd h hx,ht.once⟩

/-- A packet that is acted on is its own echo. -/
theorem parse_ack (h : actionable (proxyCmdParse data emptyCmd).kind = true) :
    (proxyCmdParse data emptyCmd).ack = data := by
  obtain ⟨hf,hok⟩ := (parse_actionable data emptyCmd).mp h
  obtain ⟨_,_,hack,_⟩ := parse_framed emptyCmd hf
  exact (hack hok).1

theorem dispatch_progress (port : Bool) (data : List UInt8) :
    Progress port data [] [] [] .idle (dispatch true data) := by
  have hack (h : actionable (proxyCmdParse data emptyCmd).kind = true) := parse_ack h
  unfold dispatch
  cases hk : (proxyCmdParse data emptyCmd).kind with
  | none =>
    by_cases h0 : (onBleRx data procBufSize).length = 0
    · simp only [hk, h0, if_true]
      exact echoed_silent (by simp [Took, Ignored, hk])
    · simp only [hk, h0, if_true, if_false]
      exact ⟨hk,rfl⟩
  | invalid =>
    simp only [hk, if_true]
    exact echoed_silent (by simp [Took, Ignored, hk])
  | relayEnable =>
    simp only [hk, if_true]
    exact ⟨hk,hack (by rw [hk]; rfl),rfl,rfl⟩
  | relayDisable =>
    simp only [hk, if_true]
    exact ⟨hk,hack (by rw [hk]; rfl),rfl,rfl⟩
  | setBaud =>
    simp only [hk, if_true]
    exact ⟨hk,rfl,hack (by rw [hk]; rfl),rfl,rfl⟩

theorem ackSend_progress {ack : List UInt8} {tries : ℕ} {m n : MainState.Main} {err : ℤ} {q : RxPc}
    {call : UartBridge.CallPc} (hp : Progress port data rs cs xs call (.ackSend ack tries))
    (h : rxNext port m err (.ackSend ack tries) = some (n,q)) :
    Progress port data rs cs (xs++if tries < ackTries then [(ack,err)] else []) call q := by
  obtain ⟨hacted,rfl,hlen,hle,hall⟩ := hp
  obtain ⟨_,rfl⟩ := Prod.mk.inj (Option.some.inj h)
  by_cases ht : tries < ackTries
  · rw [if_pos ht, if_pos ht]
    have hnew (hv : proxySendResult err ≠ .retry) : Tried ack (xs++[(ack,err)]) := by
      constructor
      · intro x hx
        rcases List.mem_append.mp hx with hx | hx
        · exact (hall x hx).1
        · rw [List.mem_singleton.mp hx]
      · simp only [List.length_append, List.length_singleton]
        omega
      · rw [List.dropLast_concat]
        exact fun x hx => (hall x hx).2
      · exact Or.inr ⟨(ack,err),by simp,hv⟩
    cases hv : proxySendResult err with
    | consumed => exact echoed_tried hacted (hnew (by simp [hv]))
    | drop => exact echoed_tried hacted (hnew (by simp [hv]))
    | retry =>
      refine ⟨hacted,rfl,by simp [hlen],ht,?_⟩
      intro x hx
      rcases List.mem_append.mp hx with hx | hx
      · exact hall x hx
      · rw [List.mem_singleton.mp hx]
        exact ⟨rfl,hv⟩
  · rw [if_neg ht, if_neg ht, List.append_nil]
    apply echoed_tried hacted
    constructor
    · exact fun x hx => (hall x hx).1
    · omega
    · exact fun x hx => (hall x (List.dropLast_subset xs hx)).2
    · exact Or.inl (by omega)

theorem rx_progress {err : ℤ} {m : MainThreads.State}
    (hp : Progress port data rs cs xs s.uart.call s.main.rx) (ho : callOf s.main.rx = none)
    (h : MainThreads.step port s.main (.rx err) = some m) :
    Progress port data (rs++relays port s (.main (.rx err))) cs (xs++sends s (.main (.rx err)))
      s.uart.call m.rx := by
  obtain ⟨n,q,hn,rfl⟩ := MainThreads.step_rx.mp h
  cases hr : s.main.rx with
  | idle => simp [hr, rxNext] at hn
  | gate d => simp [hr, Progress] at hp
  | forward d => simp [hr, callOf] at ho
  | setBaud baud ack => simp [hr, callOf] at ho
  | relayCancel enable ack =>
    rw [hr] at hp hn
    obtain ⟨_,rfl⟩ := Prod.mk.inj (Option.some.inj hn)
    simp only [relays, sends, hr, List.append_nil]
    exact hp
  | relayApply enable ack =>
    rw [hr] at hp hn
    obtain ⟨hk,rfl,rfl,rfl⟩ := hp
    obtain ⟨_,rfl⟩ := Prod.mk.inj (Option.some.inj hn)
    simp only [relays, sends, hr, List.append_nil]
    refine ⟨?_,rfl,rfl,by simp,by simp⟩
    cases port with
    | false =>
      apply Or.inr
      cases enable <;> simp at hk <;> simp [Ignored, hk]
    | true =>
      apply Or.inl
      cases enable <;> simp at hk <;> simp [Took, hk, MainState.relayApply]
  | ackSend ack tries =>
    rw [hr] at hp hn
    simp only [relays, sends, hr, List.append_nil]
    exact ackSend_progress hp hn

theorem call_progress {err : ℤ} (hs : Serving s.uart.call s.main.rx)
    (hp : Progress port data rs cs xs s.uart.call s.main.rx) (h : step port s (.call err) = some t) :
    Progress port data rs (cs++configures s (.call err)) xs t.uart.call t.main.rx := by
  obtain ⟨l,u,hl,hu,ht⟩ := step_call.mp h
  simp only [callLabel, Option.map_eq_some_iff] at hl
  obtain ⟨k,hk,rfl⟩ := hl
  cases hr : s.main.rx with
  | forward d =>
    rw [hr] at hp
    rcases afterCall_some ht with ⟨_,rfl⟩ | ⟨hi,m,hm,rfl⟩
    · rw [hr]
      exact hp
    · obtain ⟨n,q,hn,rfl⟩ := MainThreads.step_rx.mp hm
      rw [hr] at hn
      obtain ⟨_,rfl⟩ := Prod.mk.inj (Option.some.inj hn)
      obtain ⟨hkind,rfl⟩ := hp
      exact echoed_silent (by simp [Took, Ignored, hkind])
  | setBaud baud ack =>
    rw [hr] at hs hp hk
    obtain rfl := Option.some.inj hk
    obtain ⟨hkind,hbaud,rfl,rfl,hc⟩ := hp
    by_cases hi : s.uart.call = .idle
    · rw [if_pos hi] at hu
      obtain ⟨_,rfl⟩ := UartBridge.step_setBaud.mp hu
      rcases afterCall_some ht with ⟨_,rfl⟩ | ⟨hx,_⟩
      · rw [hr]
        simp only [configures, hi, configuring, List.append_nil]
        rw [hi] at hc
        exact ⟨hkind,hbaud,rfl,rfl,hc⟩
      · simp at hx
    · rw [if_neg hi] at hu
      obtain ⟨b,q,hn,rfl⟩ := UartBridge.step_call.mp hu
      obtain ⟨hgo,hret⟩ := callNext_result hs hc hn
      rcases afterCall_some ht with ⟨hne,rfl⟩ | ⟨hx,m,hm,rfl⟩
      · rw [hr]
        exact ⟨hkind,hbaud,rfl,rfl,hgo hne⟩
      · obtain ⟨hnone,hiff⟩ := hret hx
        obtain ⟨n,q,hn,rfl⟩ := MainThreads.step_rx.mp hm
        rw [hr] at hn
        obtain ⟨_,rfl⟩ := Prod.mk.inj (Option.some.inj hn)
        simp only [configures, hnone, List.append_nil]
        by_cases h0 : retOf s.uart.call = 0
        · rw [if_pos h0]
          refine ⟨Or.inl ?_,rfl,rfl,by simp,by simp⟩
          simpa [Took, hkind, hbaud] using hiff.mpr h0
        · rw [if_neg h0]
          apply echoed_silent
          have hno := fun hx => h0 (hiff.mp hx)
          simpa [Took, Ignored, hkind, hbaud] using hno
  | _ => simp [hr, callOf] at hk

theorem step_progress (hs : Serving s.uart.call s.main.rx)
    (hp : Progress port data rs cs xs s.uart.call s.main.rx) (hne : s.main.rx ≠ .idle)
    (h : step port s a = some t) :
    Progress port data (rs++relays port s a) (cs++configures s a) (xs++sends s a) t.uart.call
      t.main.rx := by
  cases a with
  | wait ms =>
    obtain ⟨m,u,hm,hu,rfl⟩ := step_wait.mp h
    obtain rfl := MainThreads.step_wait.mp hm
    obtain rfl := UartBridge.step_wait.mp hu
    simp only [relays, configures, sends, List.append_nil]
    exact hp
  | main a =>
    obtain ⟨ho,m,hm,rfl⟩ := step_main.mp h
    by_cases hx : thread a = .rx
    · cases a with
      | receive d =>
        obtain ⟨l,_,hr,_⟩ := MainThreads.step_receive.mp hm
        exact absurd hr hne
      | rx err =>
        simp only [configures, List.append_nil]
        exact rx_progress hp (by simpa [ownsMain] using ho) hm
      | _ => simp [thread] at hx
    · have hp' : Progress port data rs cs xs s.uart.call m.rx := by
        rw [((step_frame hm).rx hx).1]
        exact hp
      cases a with
      | receive | rx => simp [thread] at hx
      | _ => simpa only [relays, configures, sends, List.append_nil] using hp'
  | uart a =>
    obtain ⟨ho,u,hu,rfl⟩ := step_uart.mp h
    simp only [relays, configures, sends, List.append_nil]
    show Progress port data rs cs xs u.call s.main.rx
    rw [uart_call ho hu]
    exact hp
  | call err =>
    simp only [relays, sends, List.append_nil]
    exact call_progress hs hp h

theorem run_progress {es : List Label} (hs : Serving s.uart.call s.main.rx)
    (hp : Progress port data [] [] [] s.uart.call s.main.rx) (h : run (step port) es s = some t)
    (hb : AllSteps (step port) (fun s _ => s.main.rx ≠ .idle) es s) :
    Progress port data (trace (step port) (relays port) es s) (trace (step port) configures es s)
      (trace (step port) sends es s) t.uart.call t.main.rx := by
  apply (history (I := fun es t => Serving t.uart.call t.main.rx ∧
    Progress port data (trace (step port) (relays port) es s) (trace (step port) configures es s)
      (trace (step port) sends es s) t.uart.call t.main.rx) _ _ h hb).2
  · exact ⟨hs,hp⟩
  · intro es r a u hr hp hne hu
    rw [trace_snoc _ es a _ r hr, trace_snoc _ es a _ r hr, trace_snoc _ es a _ r hr]
    exact ⟨step_serving hp.1 hu,step_progress hp.1 hp.2 hne hu⟩

/-- What the callback does with a write it finds an encrypted link for, from the
gate to its return. The other threads, the driver and the stack's answers are
arbitrary. -/
theorem echo_means_acted (port locked : Bool) (rate : UInt32) (es₀ es : List Label) (s₀ s : State)
    (data : List UInt8) (err : ℤ) (h₀ : run (step port) es₀ (init locked rate) = some s₀)
    (hg : s₀.main.rx = .gate data) (hsec : s₀.main.main.linkSecure = true)
    (h : run (step port) (.main (.rx err)::es) s₀ = some s)
    (hb : AllSteps (step port) (fun s _ => s.main.rx ≠ .idle) (.main (.rx err)::es) s₀)
    (hi : s.main.rx = .idle) :
    Echoed port data (trace (step port) (relays port) (.main (.rx err)::es) s₀)
      (trace (step port) configures (.main (.rx err)::es) s₀)
      (trace (step port) sends (.main (.rx err)::es) s₀) := by
  obtain ⟨s₁,h₁,hrun⟩ := Option.bind_eq_some_iff.mp h
  have hb' : AllSteps (step port) (fun s _ => s.main.rx ≠ .idle) es s₁ := by
    simpa [h₁] using hb.2
  have hs := step_serving (run_serving h₀) h₁
  -- the first step is the gate's
  have hgate : Progress port data [] [] [] s₁.uart.call s₁.main.rx := by
    have hcall : s₀.uart.call = .idle := (run_serving h₀).idle (by rw [hg]; rfl)
    obtain ⟨_,m,hm,rfl⟩ := step_main.mp h₁
    obtain ⟨n,q,hn,rfl⟩ := MainThreads.step_rx.mp hm
    rw [hg] at hn
    obtain ⟨_,rfl⟩ := Prod.mk.inj (Option.some.inj hn)
    show Progress port data [] [] [] s₀.uart.call (dispatch s₀.main.main.linkSecure data)
    rw [hcall, hsec]
    exact dispatch_progress port data
  have hfirst : relays port s₀ (.main (.rx err)) = [] ∧ sends s₀ (.main (.rx err)) = [] := by
    simp [relays, sends, hg]
  have hp := run_progress hs hgate hrun hb'
  rw [hi] at hp
  simp only [trace, h₁, hfirst.1, hfirst.2, configures, Option.elim_some, List.nil_append]
  exact hp

def baudPacket : List UInt8 := encode (.baud ⟨9600,by decide⟩)

def newRate : List Label :=
  List.flatten [List.replicate 6 (.call 0),
    [.uart (.isr (.rxBufReleased UartBridge.slab.head?)), .uart (.isr (.rxDisabled 0 0))],
    List.replicate 7 (.call 0), [.main (.rx (-ENOMEM)), .main (.rx 0)]]

theorem echo_means_acted_baud :
    delivered (trace (step true) sends (.main (.rx 0)::newRate)
      ⟨{ secured with rx := .gate baudPacket },UartBridge.init 115200⟩) = [baudPacket] := by
  have he := echo_means_acted true false 115200 (linked++[.main (.receive baudPacket)]) newRate
    ⟨{ secured with rx := .gate baudPacket },UartBridge.init 115200⟩
    ⟨secured,UartBridge.init 9600⟩ baudPacket 0 (by decide) rfl rfl (by decide) (by decide) rfl
  rw [he.once, if_pos (by decide)]

def EchoedIffTook (data : List UInt8) (rs : List (Bool × Bool)) (cs : List (UInt32 × ℤ))
    (xs : List (List UInt8 × ℤ)) : Prop :=
  (Took (proxyCmdParse data emptyCmd) rs cs → delivered xs = [data]) ∧
    (¬Took (proxyCmdParse data emptyCmd) rs cs → delivered xs = [])

/-- A RELAY command, and what the stack answers to the attempts of its echo. -/
def relayCommand (answers : List ℤ) : List Label :=
  linked++.main (.receive (relayPacket true))::List.replicate 3 (.main (.rx 0))++
    answers.map (fun err => .main (.rx err))

/-- A board without the relay echoes an enable, and one with the relay has no
echo when the stack is out of buffers five times. -/
theorem echo_without_effect :
    (run (step false) (relayCommand [0]) (init false 115200)).map
      (fun s => (s.main.rx,s.main.main.relayEnabled)) = some (.idle,false) ∧
    ¬EchoedIffTook (relayPacket true)
      (trace (step false) (relays false) (relayCommand [0]) (init false 115200))
      (trace (step false) configures (relayCommand [0]) (init false 115200))
      (trace (step false) sends (relayCommand [0]) (init false 115200)) ∧
    (run (step true) (relayCommand (List.replicate 6 (-ENOMEM))) (init false 115200)).map
      (fun s => (s.main.rx,s.main.main.relayEnabled)) = some (.idle,true) ∧
    ¬EchoedIffTook (relayPacket true)
      (trace (step true) (relays true) (relayCommand (List.replicate 6 (-ENOMEM)))
        (init false 115200))
      (trace (step true) configures (relayCommand (List.replicate 6 (-ENOMEM))) (init false 115200))
      (trace (step true) sends (relayCommand (List.replicate 6 (-ENOMEM))) (init false 115200)) := by
  have hrelays : trace (step false) (relays false) (relayCommand [0]) (init false 115200) =
      [(true,false)] := by decide
  have hsends : delivered (trace (step false) sends (relayCommand [0]) (init false 115200)) =
      [relayPacket true] := by decide
  have hrelays' : trace (step true) (relays true) (relayCommand (List.replicate 6 (-ENOMEM)))
      (init false 115200) = [(true,true)] := by decide
  have hsends' : delivered (trace (step true) sends (relayCommand (List.replicate 6 (-ENOMEM)))
      (init false 115200)) = [] := by decide
  refine ⟨by decide,?_,by decide,?_⟩
  · intro h
    have hnone := h.2 (by
      show ¬(true,true) ∈ _
      rw [hrelays]
      decide)
    rw [hsends] at hnone
    simp at hnone
  · intro h
    have hone := h.1 (by
      show (true,true) ∈ _
      rw [hrelays']
      decide)
    rw [hsends'] at hone
    simp at hone

end NrfProxy.CommandEcho
