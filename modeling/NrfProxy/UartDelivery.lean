import NrfProxy.UartTransmit

/-!
# What is in the TX ring goes out

Outside a change of the baud rate, and with a driver which takes each transfer and
finishes it, the pump hands the transfer, the staged chunk and the ring to the UART in
order, and what is written meanwhile behind them. When the last transfer is done, with
no call running, nothing is left.
-/

set_option autoImplicit false

namespace NrfProxy.UartDelivery
open NrfProxy.Runs NrfProxy.UartBridge NrfProxy.UartReception NrfProxy.UartTransmit

/-- `uart_bridge_set_baud` holds the pump back, or is about to. -/
def changing : CallPc → Bool
  | .cancel _ | .setFlag _ => true
  | pc => owns pc

def outgoing (s : State) : List UInt8 :=
  s.bridge.inFlight.flatten++staged s.bridge s.call++s.bridge.txRing

def finished (s : State) : Label → List (List UInt8)
  | .isr (.txDone _) => s.bridge.inFlight.head?.toList
  | _ => []

/-- No change of the rate, no abort, and `uart_tx` takes what it is given. -/
def Carries (s : State) : Label → Prop
  | .setBaud _ => False
  | .isr (.txAborted _ _) => False
  | .isr (.txDone txErr) => txErr = 0
  | .call err => ∀ len ret, s.call = .tx len ret → err = 0
  | _ => True

def toStart : CallPc → ℕ
  | .tx _ _ => 1
  | _ => 0

def left (s : State) : ℕ := s.bridge.inFlight.length+toStart s.call+s.bridge.txRing.length

def callLeft : CallPc → ℕ
  | .put data => 3+2*data.length
  | .alloc _ => 6
  | .enable _ _ => 5
  | .freeFailed _ _ => 4
  | .schedule _ => 3
  | .kick _ => 2
  | .tx _ _ => 1
  | _ => 0

def effort (s : State) : ℕ := callLeft s.call+2*left s

structure Delivering (s : State) : Prop where
  still : changing s.call = false
  pumping : ∃ ins calls sents, Pumping ins calls sents s ∧ ¬LastFailed calls

variable {s t : State} {a : Label} {b c : Bridge}

theorem kick_moves (b : Bridge) :
    (uartTxKick 0 b).inFlight.flatten++(uartTxKick 0 b).txRing = b.inFlight.flatten++b.txRing ∧
      (uartTxKick 0 b).inFlight.length+(uartTxKick 0 b).txRing.length ≤
        b.inFlight.length+b.txRing.length := by
  unfold uartTxKick
  split
  · exact ⟨rfl,le_refl _⟩
  · rename_i len c hc
    obtain ⟨_,_,hlen,hne,rfl⟩ := txStage_some.mp hc
    simp only [uartTx, if_true, List.take_take, Nat.min_self, List.flatten_append,
      List.flatten_singleton, List.append_assoc, List.take_append_drop, true_and,
      List.length_append, List.length_cons, List.length_nil, List.length_drop]
    omega

theorem toStart_plain {p : CallPc} (h : starting p = false) : toStart p = 0 := by
  cases p with
  | tx => simp [starting] at h
  | _ => rfl

theorem done_moves (ha : s.bridge.inFlight = [s.bridge.txBuf]) (hp : starting s.call = false)
    (h : step s (.isr (.txDone 0)) = some t) :
    (finished s (.isr (.txDone 0))).flatten++outgoing t = outgoing s ∧
      (finished s (.isr (.txDone 0))).length+left t ≤ left s := by
  obtain ⟨b,hb,rfl⟩ := step_isr.mp h
  simp only [uartCb, finishTx_transfer ha, Option.map_some, Option.some.injEq] at hb
  obtain ⟨hm,hl⟩ := kick_moves (txIdle { s.bridge with inFlight := [] })
  rw [hb] at hm hl
  have hm' : b.inFlight.flatten++b.txRing = s.bridge.txRing := hm
  have hl' : b.inFlight.length+b.txRing.length ≤ s.bridge.txRing.length := by
    simpa [txIdle] using hl
  constructor
  · simp [outgoing, finished, staged_plain hp, ha, hm']
  · simp only [left, finished, toStart_plain hp, ha, List.head?_cons, Option.toList_some,
      List.length_cons, List.length_nil]
    omega

theorem same_moves (hr : SameTx s.bridge t.bridge) (hc : t.call = s.call) :
    outgoing t = outgoing s ∧ left t = left s := by
  have hstaged : staged t.bridge s.call = staged s.bridge s.call := by
    cases s.call with
    | tx => exact hr.buf
    | _ => rfl
  simp only [outgoing, left, hc, hstaged, hr.inFlight, hr.ring, and_self]

theorem call_moves {ins : List UInt8} {calls : List (List UInt8 × ℤ)} {sents : List ℕ} {err : ℤ}
    (hp : Pumping ins calls sents s) (hl : ¬LastFailed calls) (hch : changing s.call = false)
    (he : ∀ len ret, s.call = .tx len ret → err = 0) (h : step s (.call err) = some t) :
    outgoing t = outgoing s++accepts s (.call err) ∧
      left t ≤ left s+(accepts s (.call err)).length ∧ changing t.call = false ∧
        effort t < effort s := by
  obtain ⟨b,q,hn,rfl⟩ := step_call.mp h
  have hpump := hp.flow.pump
  obtain ⟨b0,hpc,p⟩ := s
  cases call_move hn with
  | @put data =>
    have hlen := List.length_take_le (txRingSize-b0.txRing.length) data
    refine ⟨by simp [outgoing, accepts, staged, txPut],?_,rfl,?_⟩
    · simp only [left, accepts, toStart, txPut, List.length_append]
      omega
    · simp only [effort, left, callLeft, toStart, txPut, List.length_append, List.length_take]
      omega
  | nothing =>
    exact ⟨by simp [outgoing, accepts, staged],by simp [left, accepts, toStart],rfl,
      by simp [effort, left, callLeft, toStart]⟩
  | staged hd =>
    obtain ⟨_,_,hlen,hne,rfl⟩ := txStage_some.mp hd
    dsimp only at hlen
    refine ⟨by simp [outgoing, accepts, staged],?_,rfl,?_⟩
    · simp only [left, accepts, toStart, List.length_drop, List.length_nil]
      omega
    · simp only [effort, left, callLeft, toStart, List.length_drop]
      omega
  | @started len ret h0 =>
    subst h0
    obtain ⟨_,_,_,hlen⟩ := hpump
    refine ⟨?_,by simp [left, accepts, toStart, uartTx],rfl,
      by simp [effort, left, callLeft, toStart, uartTx]⟩
    simp [outgoing, accepts, staged, uartTx, hlen]
  | startFailed h0 => exact absurd (he _ _ rfl) h0
  | countDrop | keepErr | txIdle => exact absurd hpump.2.2 hl
  | cancel | setFlag | abortTx | resetSem | disabled | wasOff | refused | quiesced | timedOut
  | getConfig | unknown | configure | clearFlag => simp [changing, owns] at hch
  | _ =>
    obtain ⟨htx,_,_⟩ := callNext_tx (by simp) (by simp) rfl hn
    refine ⟨?_,?_,rfl,?_⟩
    · simp [outgoing, accepts, staged, htx.inFlight, htx.ring]
    · simp [left, accepts, toStart, htx.inFlight, htx.ring]
    · simp [effort, left, callLeft, toStart, htx.inFlight, htx.ring]

theorem starts_taken (hc : Carries s a) : ∀ x ∈ starts s a, x.2 = 0 := by
  cases a with
  | call err =>
    obtain ⟨b,hpc,p⟩ := s
    cases p with
    | tx len ret => simp [starts, hc len ret rfl]
    | _ => simp [starts]
  | isr e =>
    cases e with
    | txDone txErr =>
      obtain rfl : txErr = 0 := hc
      simp only [starts]
      cases hcomp : completed s.bridge (.txDone 0) with
      | none => simp
      | some b =>
        simp only [Option.elim_some, kickStarts]
        split <;> simp
    | txAborted => exact absurd hc (by simp [Carries])
    | _ => simp [starts]
  | _ => simp [starts]

theorem taken_not_failed {calls xs : List (List UInt8 × ℤ)} (h : ¬LastFailed calls)
    (hx : ∀ x ∈ xs, x.2 = 0) : ¬LastFailed (calls++xs) := by
  rintro ⟨y,hy,hne⟩
  rcases List.eq_nil_or_concat xs with rfl | ⟨zs,z,rfl⟩
  · exact h ⟨y,by simpa using hy,hne⟩
  · obtain rfl : z = y := by simpa using hy
    exact hne (hx z (by simp))

theorem step_moves (hs : Delivering s) (hc : Carries s a) (h : step s a = some t) :
    Delivering t ∧ (finished s a).flatten++outgoing t = outgoing s++accepts s a ∧
      (finished s a).length+left t ≤ left s+(accepts s a).length := by
  obtain ⟨hstill,ins,calls,sents,hp,hl⟩ := hs
  have hp' := step_pumping hp h
  have hl' := taken_not_failed hl (starts_taken hc)
  suffices hm : changing t.call = false ∧
      (finished s a).flatten++outgoing t = outgoing s++accepts s a ∧
      (finished s a).length+left t ≤ left s+(accepts s a).length from
    ⟨⟨hm.1,_,_,_,hp',hl'⟩,hm.2⟩
  have hsame (hr : SameTx s.bridge t.bridge) (hcall : t.call = s.call) (hf : finished s a = [])
      (hacc : accepts s a = []) : changing t.call = false ∧
      (finished s a).flatten++outgoing t = outgoing s++accepts s a ∧
      (finished s a).length+left t ≤ left s+(accepts s a).length := by
    obtain ⟨ho,hleft⟩ := same_moves hr hcall
    rw [hcall, hf, hacc, ho, hleft]
    exact ⟨hstill,by simp,by simp⟩
  cases a with
  | wait ms =>
    obtain rfl := step_wait.mp h
    exact hsame ⟨rfl,rfl,rfl,rfl,rfl,rfl⟩ rfl rfl rfl
  | expire =>
    obtain ⟨w,_,rfl⟩ := step_expire.mp h
    exact hsame ⟨rfl,rfl,rfl,rfl,rfl,rfl⟩ rfl rfl rfl
  | enter =>
    obtain ⟨_,w,_,rfl⟩ := step_enter.mp h
    exact hsame ⟨rfl,rfl,rfl,rfl,rfl,rfl⟩ rfl rfl rfl
  | handler err =>
    obtain ⟨b,pc,hn,rfl⟩ := step_handler.mp h
    exact hsame (handlerNext_tx hn) rfl rfl rfl
  | send data =>
    obtain ⟨hi,rfl⟩ := step_send.mp h
    refine ⟨rfl,?_,?_⟩
    · simp [outgoing, finished, accepts, staged, hi]
    · simp [left, finished, accepts, toStart, hi]
  | setBaud baud => exact absurd hc (by simp [Carries])
  | call err =>
    obtain ⟨hout,hleft,hch,_⟩ := call_moves hp hl hstill hc h
    exact ⟨hch,hout,by simpa [finished] using hleft⟩
  | isr e =>
    cases e with
    | txDone txErr =>
      obtain rfl : txErr = 0 := hc
      have hne : s.bridge.inFlight ≠ [] := by
        obtain ⟨b,hb,_⟩ := step_isr.mp h
        intro hnil
        simp [uartCb, finishTx, hnil] at hb
      obtain ⟨hst,hin,_⟩ := hp.flow.transfer hne
      obtain ⟨hout,hleft⟩ := done_moves hin hst h
      obtain ⟨b,_,rfl⟩ := step_isr.mp h
      exact ⟨hstill,by simpa [accepts] using hout,by simpa [accepts] using hleft⟩
    | txAborted => exact absurd hc (by simp [Carries])
    | _ =>
      obtain ⟨b,hb,rfl⟩ := step_isr.mp h
      exact hsame (uartCb_tx rfl hb) rfl rfl rfl

theorem run_moves {as : List Label} (hs : Delivering s) (hc : AllSteps step Carries as s)
    (h : run step as s = some t) :
    Delivering t ∧
      (trace step finished as s).flatten++outgoing t = outgoing s++trace step accepts as s ∧
      (trace step finished as s).length+left t ≤ left s+(trace step accepts as s).length := by
  refine history (I := fun as t => Delivering t ∧
      (trace step finished as s).flatten++outgoing t = outgoing s++trace step accepts as s ∧
      (trace step finished as s).length+left t ≤ left s+(trace step accepts as s).length)
    ⟨hs,by simp [trace],by simp [trace]⟩ ?_ h hc
  rintro as r a u hr ⟨hd,hout,hleft⟩ hca hu
  obtain ⟨hd',hout',hleft'⟩ := step_moves hd hca hu
  rw [trace_snoc _ as a _ r hr, trace_snoc _ as a _ r hr]
  refine ⟨hd',?_,?_⟩
  · rw [List.flatten_append, List.append_assoc, hout', ← List.append_assoc, hout, List.append_assoc]
  · simp only [List.length_append]
    omega

def Done (s : State) : Prop := s.call = .idle ∧ s.bridge.inFlight = []

theorem Delivering.nothing_left (hs : Delivering s) (hd : Done s) : outgoing s = [] := by
  obtain ⟨hi,hin⟩ := hd
  obtain ⟨_,ins,calls,sents,hp,hl⟩ := hs
  have hring : s.bridge.txRing = [] := by
    by_contra hne
    rcases hp.flow.primed hne with hx | hx | hx
    · rcases (pump_plain (by rw [hi]; rfl)).mp hp.flow.pump with ⟨_,hin',_⟩ | ⟨hoff,_⟩
      · simp [hin] at hin'
      · simp [hx] at hoff
    · simp [hi, kicks] at hx
    · exact hl hx
  simp [outgoing, hi, hin, hring, staged]

def goOn (b : Bridge) : CallPc → ℤ
  | .enable _ _ => if b.reception = .off then 0 else -EBUSY
  | _ => 0

theorem goOn_total (b : Bridge) {p : CallPc} (hi : p ≠ .idle) (hch : changing p = false) :
    ∃ c q, callNext b (goOn b p) p = some (c,q) := by
  cases p with
  | idle => contradiction
  | takeSem => simp [changing, owns] at hch
  | alloc ret =>
    simp only [callNext]
    split <;> exact ⟨_,_,rfl⟩
  | enable buf ret =>
    by_cases hr : b.reception = .off <;> simp [callNext, goOn, uartRxEnable, hr, EBUSY]
  | kick ret =>
    simp only [callNext]
    split <;> exact ⟨_,_,rfl⟩
  | _ => exact ⟨_,_,rfl⟩

theorem delivering_progress (hs : Delivering s) (hd : ¬Done s) :
    ∃ a t, Carries s a ∧ step s a = some t ∧ effort t < effort s := by
  obtain ⟨hstill,ins,calls,sents,hp,hl⟩ := hs
  by_cases hi : s.call = .idle
  · have hne : s.bridge.inFlight ≠ [] := fun hin => hd ⟨hi,hin⟩
    obtain ⟨hst,hin,_⟩ := hp.flow.transfer hne
    obtain ⟨t,ht⟩ : ∃ t, step s (.isr (.txDone 0)) = some t :=
      ⟨_,step_isr.mpr ⟨_,by rw [uartCb, finishTx_transfer hin, Option.map_some],rfl⟩⟩
    obtain ⟨_,hleft⟩ := done_moves hin hst ht
    have hone : (finished s (.isr (.txDone 0))).length = 1 := by simp [finished, hin]
    have hcall : t.call = s.call := by
      obtain ⟨b,_,rfl⟩ := step_isr.mp ht
      rfl
    refine ⟨.isr (.txDone 0),t,rfl,ht,?_⟩
    simp only [effort, hcall]
    omega
  · obtain ⟨c,q,hn⟩ := goOn_total s.bridge hi hstill
    have hc : Carries s (.call (goOn s.bridge s.call)) := by
      intro len ret htx
      rw [htx]
      rfl
    have hstep := step_call.mpr ⟨c,q,hn,rfl⟩
    exact ⟨_,_,hc,hstep,(call_moves hp hl hstill hc hstep).2.2.2⟩

theorem run_delivering {rate : UInt32} {es : List Label} (h : run step es (init rate) = some s)
    (hc : changing s.call = false) (hl : ¬LastFailed (started rate es)) : Delivering s :=
  ⟨hc,_,_,_,run_pumping h,hl⟩

/-- Outside a change of the baud rate and after a start which has not failed, however the
bridge goes on with a driver that takes and finishes its transfers, what the UART gets
is what was on its way and then what is written, in order and without a byte missing,
in no more transfers than there are bytes; and where the last is done nothing is left.
The pump can always get that far. -/
theorem ring_reaches_uart (rate : UInt32) (es : List Label) (s : State)
    (h : run step es (init rate) = some s) (hc : changing s.call = false)
    (hl : ¬LastFailed (started rate es)) :
    (∀ as t, AllSteps step Carries as s → run step as s = some t →
      (trace step finished as s).flatten++outgoing t = outgoing s++trace step accepts as s ∧
      (trace step finished as s).length ≤ left s+(trace step accepts as s).length ∧
      (Done t → (trace step finished as s).flatten = outgoing s++trace step accepts as s)) ∧
    ∃ as t, AllSteps step Carries as s ∧ run step as s = some t ∧ Done t ∧
      (trace step finished as s).flatten = outgoing s++trace step accepts as s := by
  have hs := run_delivering h hc hl
  have hdone {as : List Label} {t : State} (hcs : AllSteps step Carries as s)
      (ht : run step as s = some t) (hd : Done t) :
      (trace step finished as s).flatten = outgoing s++trace step accepts as s := by
    obtain ⟨hdel,hout,_⟩ := run_moves hs hcs ht
    rw [hdel.nothing_left hd, List.append_nil] at hout
    exact hout
  constructor
  · intro as t hcs ht
    obtain ⟨_,hout,hleft⟩ := run_moves hs hcs ht
    exact ⟨hout,by omega,hdone hcs ht⟩
  · obtain ⟨as,t,hcs,ht,_,hd⟩ := exists_rest_along (P := Delivering) (C := Carries) effort
      (fun r hr hd => by
        obtain ⟨a,u,hca,hu,hlt⟩ := delivering_progress hr hd
        exact ⟨a,u,hca,hu,(step_moves hr hca hu).1,hlt⟩) hs
    exact ⟨as,t,hcs,ht,hd,hdone hcs ht hd⟩

theorem ring_reaches_uart_waiting : ∃ as t, AllSteps step Carries as waiting ∧
    run step as waiting = some t ∧ Done t ∧
      (trace step finished as waiting).flatten = [0x55, 0x55, 1, 2]++trace step accepts as waiting := by
  refine (ring_reaches_uart 115200 abortedChunk waiting (by decide) rfl ?_).2
  have hlast : (started 115200 abortedChunk).getLast? = some ([0x55, 0x55],0) := by decide
  rintro ⟨x,hx,hne⟩
  rw [hlast] at hx
  obtain rfl := Option.some.inj hx
  exact hne rfl

end NrfProxy.UartDelivery
