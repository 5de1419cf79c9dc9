import NrfProxy.CommandGrammar
import NrfProxy.Firmware
import NrfProxy.UartTransmit

/-!
# From the phone to the serial line

The TX pump passes on what the ring accepts. Here it is the firmware's: the
ring is fed by `nus_received`, from the writes which are no commands and reach
the callback over an encrypted link. A write the ring has no room for is cut.
-/

set_option autoImplicit false

namespace NrfProxy.PhoneStream
open NrfProxy.Runs NrfProxy.ProxyCore NrfProxy.UartTransmit NrfProxy.Firmware
open NrfProxy.MainThreads (RxPc dispatch rxNext thread)
open NrfProxy.ThreadInvariant (step_frame)

def writes : Label → List (List UInt8)
  | .main (.receive data) => [data]
  | _ => []

/-- The writes the gate lets through and the parser takes for plain data. -/
def plains (s : State) : Label → List (List UInt8)
  | .main (.rx _) =>
    match s.main.rx with
    | .gate data =>
      if s.main.main.linkSecure = true ∧ (proxyCmdParse data emptyCmd).kind = .none then [data]
      else []
    | _ => []
  | _ => []

/-- The bytes are a prefix of each write, one after the other. -/
def Carries (ws : List (List UInt8)) (bytes : List UInt8) : Prop :=
  ∃ parts, List.Forall₂ (fun part w => part <+: w) parts ws ∧ bytes = parts.flatten

def atGate : RxPc → List (List UInt8)
  | .gate data => [data]
  | _ => []

/-- What `uart_bridge_send` has been or will be called with, until the ring takes it. -/
def unput (call : UartBridge.CallPc) : RxPc → Option (List UInt8)
  | .forward out =>
    match call with
    | .idle | .put _ => some out
    | _ => none
  | _ => none

/-- The ring has been fed from the plain writes, all but one still to be put. -/
structure Fed (ws ps : List (List UInt8)) (bytes : List UInt8) (s : State) : Prop where
  serving : Serving s.uart.call s.main.rx
  gated : (ps++atGate s.main.rx).Sublist ws
  carries : Carries ps bytes
  pending : ∀ out, unput s.uart.call s.main.rx = some out →
    ∃ qs w, ps = qs++[w] ∧ out <+: w ∧ Carries qs bytes

variable {ws ps : List (List UInt8)} {bytes : List UInt8} {port : Bool} {s t : State} {a : Label}

theorem Carries.snoc {part w : List UInt8} (h : Carries ps bytes) (hp : part <+: w) :
    Carries (ps++[w]) (bytes++part) := by
  obtain ⟨parts,hf,rfl⟩ := h
  refine ⟨parts++[part],?_,by simp⟩
  exact List.rel_append hf (List.Forall₂.cons hp List.Forall₂.nil)

theorem onBleRx_prefix (inp : List UInt8) (n : ℕ) : onBleRx inp n <+: inp := List.take_prefix _ _

theorem dispatch_forward (secure : Bool) (data : List UInt8) :
    atGate (dispatch secure data) = [] ∧
    ∀ out, unput .idle (dispatch secure data) = some out →
      secure = true ∧ (proxyCmdParse data emptyCmd).kind = .none ∧ out <+: data := by
  unfold dispatch
  cases secure with
  | false => simp [atGate, unput]
  | true =>
    cases hk : (proxyCmdParse data emptyCmd).kind with
    | none =>
      by_cases h0 : (onBleRx data procBufSize).length = 0
      · simp [hk, h0, atGate, unput]
      · simp [hk, h0, atGate, unput, onBleRx_prefix]
    | _ => simp [hk, atGate, unput]

theorem rxNext_behind {m n : MainState.Main} {err : ℤ} {p q : RxPc} (hp : atGate p = [])
    (h : rxNext port m err p = some (n,q)) : atGate q = [] ∧ unput .idle q = none := by
  cases p with
  | idle => simp [rxNext] at h
  | gate data => simp [atGate] at hp
  | setBaud baud ack =>
    obtain ⟨_,rfl⟩ := Prod.mk.inj (Option.some.inj h)
    split <;> exact ⟨rfl,rfl⟩
  | ackSend ack tries =>
    obtain ⟨_,rfl⟩ := Prod.mk.inj (Option.some.inj h)
    split <;> [split; skip] <;> exact ⟨rfl,rfl⟩
  | _ =>
    obtain ⟨_,rfl⟩ := Prod.mk.inj (Option.some.inj h)
    exact ⟨rfl,rfl⟩

theorem Fed.same (hs : Fed ws ps bytes s) (hr : t.main.rx = s.main.rx)
    (hc : t.uart.call = s.uart.call) : Fed ws ps bytes t := by
  constructor
  · rw [hr, hc]
    exact hs.serving
  · rw [hr]
    exact hs.gated
  · exact hs.carries
  · rw [hr, hc]
    exact hs.pending

theorem fed_behind (hi : s.uart.call = .idle) (hq : atGate s.main.rx = [])
    (hu : unput .idle s.main.rx = none) (hg : ps.Sublist ws) (hc : Carries ps bytes) :
    Fed ws ps bytes s := by
  constructor
  · rw [hi]
    exact serving_idle _
  · rw [hq, List.append_nil]
    exact hg
  · exact hc
  · intro out hout
    rw [hi, hu] at hout
    exact absurd hout (by simp)

theorem receive_fed {data : List UInt8} {m : MainThreads.State} (hs : Fed ws ps bytes s)
    (h : MainThreads.step port s.main (.receive data) = some m) :
    Fed (ws++[data]) ps bytes { s with main := m } := by
  obtain ⟨l,_,hr,_,rfl⟩ := MainThreads.step_receive.mp h
  have hi : s.uart.call = .idle := hs.serving.idle (by rw [hr]; rfl)
  have hg := hs.gated
  rw [hr] at hg
  constructor
  · exact hi
  · simp only [atGate, List.append_nil] at hg
    exact hg.append (List.Sublist.refl [data])
  · exact hs.carries
  · simp [unput]

theorem gate_fed {data : List UInt8} {err : ℤ} {m : MainThreads.State} (hs : Fed ws ps bytes s)
    (hd : s.main.rx = .gate data) (h : MainThreads.step port s.main (.rx err) = some m) :
    Fed ws (ps++plains s (.main (.rx err))) bytes { s with main := m } := by
  obtain ⟨n,pc,hn,rfl⟩ := MainThreads.step_rx.mp h
  have hi : s.uart.call = .idle := hs.serving.idle (by rw [hd]; rfl)
  have hg := hs.gated
  rw [hd] at hn hg
  obtain ⟨rfl,rfl⟩ := Prod.mk.inj (Option.some.inj hn)
  obtain ⟨hpast,hplain⟩ := dispatch_forward s.main.main.linkSecure data
  simp only [plains, hd]
  constructor
  · show Serving s.uart.call _
    rw [hi]
    exact serving_idle _
  · show (_++atGate (dispatch _ data)).Sublist ws
    rw [hpast, List.append_nil]
    split
    · exact hg
    · rw [List.append_nil]
      exact (List.sublist_append_left ps _).trans hg
  · split
    · have hc := hs.carries.snoc (w := data) List.nil_prefix
      rwa [List.append_nil] at hc
    · rw [List.append_nil]
      exact hs.carries
  · intro out hout
    dsimp only at hout
    rw [hi] at hout
    obtain ⟨hsec,hkind,hle⟩ := hplain out hout
    rw [if_pos ⟨hsec,hkind⟩]
    exact ⟨ps,data,rfl,hle,hs.carries⟩

theorem rx_fed {err : ℤ} {m : MainThreads.State} (hs : Fed ws ps bytes s)
    (ho : callOf s.main.rx = none) (h : MainThreads.step port s.main (.rx err) = some m) :
    Fed ws (ps++plains s (.main (.rx err))) bytes { s with main := m } := by
  by_cases hx : ∃ data, s.main.rx = .gate data
  · obtain ⟨data,hd⟩ := hx
    exact gate_fed hs hd h
  · obtain ⟨n,pc,hn,rfl⟩ := MainThreads.step_rx.mp h
    have hgate : atGate s.main.rx = [] := by
      cases hr : s.main.rx with
      | gate data => exact absurd ⟨data,hr⟩ hx
      | _ => rfl
    have hnone : plains s (.main (.rx err)) = [] := by
      simp only [plains]
      split
      · rename_i data hr
        exact absurd ⟨data,hr⟩ hx
      · rfl
    obtain ⟨hq,hu⟩ := rxNext_behind hgate hn
    have hg := hs.gated
    rw [hgate, List.append_nil] at hg
    rw [hnone, List.append_nil]
    exact fed_behind (hs.serving.idle ho) hq hu hg hs.carries

theorem accepts_nil {u : UartBridge.State} {l : UartBridge.Label}
    (h : ∀ err data, l = .call err → u.call ≠ .put data) : accepts u l = [] := by
  cases l with
  | call err =>
    simp only [accepts]
    split
    · rename_i data hd
      exact absurd hd (h err data rfl)
    · rfl
  | _ => rfl

theorem bridge_fed {err : ℤ} {l : UartBridge.Label} {u : UartBridge.State}
    (hs : Fed ws ps bytes s) (hl : callLabel s err = some l)
    (hu : UartBridge.step s.uart l = some u) :
    Carries ps (bytes++accepts s.uart l) ∧
    (u.call ≠ .idle → ∀ out, unput u.call s.main.rx = some out →
      ∃ qs w, ps = qs++[w] ∧ out <+: w ∧ Carries qs (bytes++accepts s.uart l)) := by
  have hin := hs.serving
  simp only [callLabel, Option.map_eq_some_iff] at hl
  obtain ⟨k,hk,rfl⟩ := hl
  cases hrx : s.main.rx with
  | forward out =>
    rw [hrx] at hk hin
    obtain rfl := Option.some.inj hk
    by_cases hi : s.uart.call = .idle
    · rw [if_pos hi] at hu ⊢
      obtain ⟨_,rfl⟩ := UartBridge.step_send.mp hu
      simp only [accepts, List.append_nil]
      refine ⟨hs.carries,?_⟩
      intro _ d hd
      exact hs.pending d (by rwa [hrx, hi])
    · rw [if_neg hi] at hu ⊢
      obtain ⟨b,q,hn,rfl⟩ := UartBridge.step_call.mp hu
      obtain ⟨_,hq⟩ := callNext_send hin hn
      -- the put is behind it
      have hnone (hne : q ≠ .idle) : unput q (.forward out) = none := by
        cases q with
        | idle => exact absurd rfl hne
        | put d => exact absurd rfl (hq d)
        | _ => rfl
      refine ⟨?_,fun hne d hd => absurd hd (by simp [hnone hne])⟩
      by_cases hput : ∃ data, s.uart.call = .put data
      · obtain ⟨data,hd⟩ := hput
        rw [hd] at hin
        obtain rfl : data = out := by simpa [Serving, inSend] using hin
        obtain ⟨qs,w,rfl,hle,hc⟩ := hs.pending data (by rw [hrx, hd]; rfl)
        simp only [accepts, hd]
        exact hc.snoc ((List.take_prefix _ _).trans hle)
      · rw [accepts_nil (fun _ data _ hd => hput ⟨data,hd⟩), List.append_nil]
        exact hs.carries
  | setBaud baud ack =>
    rw [hrx] at hk hin
    obtain rfl := Option.some.inj hk
    rw [accepts_nil, List.append_nil]
    · exact ⟨hs.carries,by simp [unput]⟩
    · intro err data _ hd
      simp [Serving, hd, inSetBaud] at hin
  | _ => simp [hrx, callOf] at hk

theorem step_fed (hs : Fed ws ps bytes s) (h : step port s a = some t) :
    Fed (ws++writes a) (ps++plains s a)
      (bytes++trace UartBridge.step accepts (uartLabels s a) s.uart) t := by
  cases a with
  | wait ms =>
    obtain ⟨m,u,hm,hu,rfl⟩ := step_wait.mp h
    obtain rfl := MainThreads.step_wait.mp hm
    obtain rfl := UartBridge.step_wait.mp hu
    simp only [writes, plains, uartLabels, trace_singleton, accepts, List.append_nil]
    exact hs.same rfl rfl
  | main a =>
    obtain ⟨ho,m,hm,rfl⟩ := step_main.mp h
    simp only [uartLabels, trace, List.append_nil]
    by_cases hx : thread a = .rx
    · cases a with
      | receive data =>
        simp only [writes, plains, List.append_nil]
        exact receive_fed hs hm
      | rx err =>
        simp only [writes, List.append_nil]
        exact rx_fed hs (by simpa [ownsMain] using ho) hm
      | _ => simp [thread] at hx
    · have hr := ((step_frame hm).rx hx).1
      have hs' : Fed ws ps bytes { s with main := m } := hs.same hr rfl
      cases a with
      | receive | rx => simp [thread] at hx
      | _ => simpa only [writes, plains, List.append_nil] using hs'
  | uart a =>
    obtain ⟨ho,u,hu,rfl⟩ := step_uart.mp h
    have hacc : accepts s.uart a = [] := by
      apply accepts_nil
      rintro err data rfl
      simp [ownsUart] at ho
    simp only [writes, plains, uartLabels, trace_singleton, hacc, List.append_nil]
    exact hs.same rfl (uart_call ho hu)
  | call err =>
    obtain ⟨l,u,hl,hu,ht⟩ := step_call.mp h
    have hserv := step_serving hs.serving h
    obtain ⟨hc,hpend⟩ := bridge_fed hs hl hu
    simp only [writes, plains, uartLabels, hl, Option.toList_some, trace_singleton,
      List.append_nil]
    rcases afterCall_some ht with ⟨hne,rfl⟩ | ⟨hi,m,hm,rfl⟩
    · exact ⟨hserv,hs.gated,hc,hpend hne⟩
    · have hgate : atGate s.main.rx = [] := by
        cases hrx : s.main.rx with
        | gate data => simp [callLabel, callOf, hrx] at hl
        | _ => rfl
      obtain ⟨n,pc,hn,rfl⟩ := MainThreads.step_rx.mp hm
      obtain ⟨hq,hnone⟩ := rxNext_behind hgate hn
      have hg := hs.gated
      rw [hgate, List.append_nil] at hg
      exact fed_behind hi hq hnone hg hc

section Runs

variable (port locked : Bool) (rate : UInt32)

def written (es : List Label) : List (List UInt8) :=
  trace (step port) (fun _ => writes) es (init locked rate)

def plain (es : List Label) : List (List UInt8) := trace (step port) plains es (init locked rate)

variable {port locked rate}

theorem init_fed : Fed [] [] [] (init locked rate) :=
  ⟨rfl,List.Sublist.refl [],⟨[],List.Forall₂.nil,rfl⟩,by simp [unput, init, MainThreads.init]⟩

theorem run_fed {es : List Label} (h : run (step port) es (init locked rate) = some s) :
    Fed (written port locked rate es) (plain port locked rate es)
      (accepted rate (uartRun port locked rate es)) s := by
  have hacc : accepted rate (uartRun port locked rate es) = trace (step port)
      (fun s a => trace UartBridge.step accepts (uartLabels s a) s.uart) es (init locked rate) :=
    trace_part accepts (uart_part port) h
  rw [hacc]
  apply history (I := fun es s => Fed (written port locked rate es) (plain port locked rate es)
    (trace (step port) (fun s a => trace UartBridge.step accepts (uartLabels s a) s.uart) es
      (init locked rate)) s) init_fed _ h (allSteps_true es _)
  intro es s a t hr hs _ ht
  unfold written plain
  rw [trace_snoc _ es a _ s hr, trace_snoc _ es a _ s hr, trace_snoc _ es a _ s hr]
  exact step_fed hs ht

/-- What passes the parser as plain data has no valid framing. -/
theorem plains_unframed {w : List UInt8} (h : w ∈ plains s a) :
    (proxyCmdParse w emptyCmd).kind = .none ∧ framed w = false := by
  cases a with
  | main a =>
    cases a with
    | rx err =>
      simp only [plains] at h
      split at h
      · rename_i data _
        split at h
        · rename_i hk
          obtain rfl := List.mem_singleton.mp h
          refine ⟨hk.2,?_⟩
          by_contra hf
          have hparse := CommandGrammar.parse_framed emptyCmd (by simpa using hf)
          exact CommandGrammar.decode_kind w (hparse.1.symm.trans hk.2)
        · simp at h
      · simp at h
    | _ => simp [plains] at h
  | _ => simp [plains] at h

theorem plain_unframed {es : List Label} {w : List UInt8} (h : w ∈ plain port locked rate es) :
    (proxyCmdParse w emptyCmd).kind = .none ∧ framed w = false := by
  obtain ⟨s,a,ha⟩ := trace_mem h
  exact plains_unframed ha

def completes : Label → Bool
  | .uart (.isr e) => isTx e
  | _ => false

theorem uartLabels_completes {e : UartBridge.Event} (ha : completes a = false)
    (h : .isr e ∈ uartLabels s a) : isTx e = false := by
  cases a with
  | uart a =>
    obtain rfl := List.mem_singleton.mp h
    exact ha
  | call err =>
    simp only [uartLabels, callLabel, Option.mem_toList, Option.map_eq_some_iff] at h
    obtain ⟨k,hk,hl⟩ := h
    split at hl
    · subst hl
      cases hrx : s.main.rx <;> simp [hrx, callOf] at hk
    · simp at hl
  | _ => simp [uartLabels] at h

theorem step_transfer {ins : List UInt8} {calls : List (List UInt8 × ℤ)} {sents : List ℕ}
    (hs : Pumping ins calls sents s.uart) (hne : s.uart.bridge.inFlight ≠ [])
    (ha : completes a = false) (h : step port s a = some t) :
    t.uart.bridge.txBuf = s.uart.bridge.txBuf ∧
      t.uart.bridge.inFlight = s.uart.bridge.inFlight := by
  have hpart := uart_part port s a t h
  have hlab := fun e => uartLabels_completes (e := e) (s := s) ha
  cases hl : uartLabels s a with
  | nil =>
    rw [hl] at hpart
    obtain hu := Option.some.inj hpart
    rw [hu]
    exact ⟨rfl,rfl⟩
  | cons l ls =>
    have hls : ls = [] := by
      cases a with
      | call err =>
        cases hc : callLabel s err <;> simp [uartLabels, hc] at hl
        exact hl.2
      | _ => simp [uartLabels] at hl <;> exact hl.2
    subst hls
    rw [hl] at hpart hlab
    have hstep : UartBridge.step s.uart l = some t.uart := by simpa [run] using hpart
    exact transfer_kept hs.flow hne (fun e he => hlab e (by simp [he])) hstep

/-- What the serial line is sent is what the ring has accepted, in order, and
that comes from the plain writes. The driver has at most the staging buffer,
which is its own until it reports, and no byte is lost uncounted. -/
theorem phone_stream (port locked : Bool) (rate : UInt32) (es : List Label) (s : State)
    (h : run (step port) es (init locked rate) = some s) :
    let bridge := uartRun port locked rate es
    let b := s.uart.bridge
    passed (started rate bridge) <+: accepted rate bridge ∧
    Carries (plain port locked rate es) (accepted rate bridge) ∧
    (plain port locked rate es).Sublist (written port locked rate es) ∧
    (∀ w ∈ plain port locked rate es,
      (proxyCmdParse w emptyCmd).kind = .none ∧ framed w = false) ∧
    (b.inFlight = [] ∨ b.inFlight = [b.txBuf]) ∧
    (∀ a t, step port s a = some t → b.inFlight ≠ [] → completes a = false →
      t.uart.bridge.txBuf = b.txBuf ∧ t.uart.bridge.inFlight = b.inFlight) ∧
    (s.uart.call = .idle → UInt32.ofNat (accepted rate bridge).length =
      UInt32.ofNat (b.txRing.length+(b.inFlight.map List.length).sum+
        (reported rate bridge).sum)+b.dropsUartTx) := by
  dsimp only
  have hp := run_pumping (run_uart h)
  have hf := run_fed h
  refine ⟨?_,hf.carries,?_,fun w hw => plain_unframed hw,?_,?_,?_⟩
  · rw [hp.flow.order, List.append_assoc]
    exact List.prefix_append _ _
  · exact (List.sublist_append_left _ _).trans hf.gated
  · by_cases hne : s.uart.bridge.inFlight = []
    · exact Or.inl hne
    · exact Or.inr (hp.flow.transfer hne).2.1
  · exact fun a t ht hne ha => step_transfer hp hne ha ht
  · intro hi
    obtain ⟨dropped,hd,hc⟩ := hp.flow.count
    have horder := congrArg List.length hp.flow.order
    have hplain : starting s.uart.call = false := by rw [hi]; rfl
    rw [pendingDrop_plain hplain] at hc
    rw [staged_plain hplain, List.append_nil, List.length_append] at horder
    rw [hd, ← UInt32.ofNat_add]
    congr 1
    omega

def twoWrites : List Label :=
  linked++[.main (.receive (relayPacket true)), .main (.rx 0), .main (.rx 0), .main (.rx 0),
    .main (.rx 0), .main (.receive [1, 2]), .main (.rx 0), .call 0,
    .call 0, .call 0, .call 0, .main (.receive [3]), .main (.rx 0), .call 0, .call 0, .call 0]

def queuedBehind : State where
  main := { secured with main := { secured.main with relayEnabled := true } }
  uart :=
    { UartBridge.init 115200 with
      bridge :=
        { (UartBridge.init 115200).bridge with
          txRing := [3]
          txBuf := [1, 2]
          txInProgress := true
          txLen := 2
          inFlight := [[1, 2]] } }

theorem phone_stream_two_writes :
    Carries [[1, 2], [3]] (accepted 115200 (uartRun true false 115200 twoWrites)) ∧
    [[1, 2], [3]].Sublist [relayPacket true, [1, 2], [3]] ∧
    UInt32.ofNat (accepted 115200 (uartRun true false 115200 twoWrites)).length = 3 := by
  have hs := phone_stream true false 115200 twoWrites queuedBehind (by decide)
  exact ⟨hs.2.1,hs.2.2.1,hs.2.2.2.2.2.2 rfl⟩

end Runs

end NrfProxy.PhoneStream
