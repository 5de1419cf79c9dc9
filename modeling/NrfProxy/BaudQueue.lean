import NrfProxy.UartTransmit

/-!
# The queue at a baud change

`uart_bridge_set_baud` holds `uart_tx_kick` back while it changes the rate, and
ends with a kick of its own. What is in the TX ring when the flag is set is still
there when it is cleared, and goes out at the new rate. The chunk of a transfer
has left the ring and does not.
-/

set_option autoImplicit false

namespace NrfProxy.BaudQueue
open NrfProxy.Runs NrfProxy.Delayable NrfProxy.UartBridge NrfProxy.UartReception
open NrfProxy.UartTransmit

def callRet : CallPc → Option ℤ
  | .kick ret | .tx _ ret | .countDrop _ _ ret | .keepErr _ ret | .txIdle ret => ret
  | _ => none

def returns (s : State) : Label → List ℤ
  | .call err =>
    match callNext s.bridge err s.call with
    | some (_,.idle) => (callRet s.call).toList
    | _ => []
  | _ => []

/-- The places of the bytes of these calls of `uart_tx` in the accepted stream,
of which `n` bytes have been passed before. -/
def places (n : ℕ) (calls : List (List UInt8 × ℤ)) : List ℕ := List.range' n (passed calls).length

/-- If this call returns 0, then nothing which was accepted before it is passed
to `uart_tx` after its `uart_configure`. -/
def DropsQueue (rate : UInt32) (es : List Label) (s : State) : Prop :=
  ∀ mid c baud err post t, run step mid s = some c → (∀ b, .setBaud b ∉ mid) →
    c.call = .configure baud → run step (.call err::post) c = some t →
    (trace step returns (.call err::post) c).head? = some 0 →
    ∀ i ∈ places (passed (started rate (es++mid))).length (trace step starts (.call err::post) c),
      (accepted rate es).length ≤ i

variable {rate baud : UInt32} {es : List Label} {s : State}

theorem passed_append (xs ys : List (List UInt8 × ℤ)) : passed (xs++ys) = passed xs++passed ys := by
  simp [passed]

theorem started_append {as : List Label} (h : run step es (init rate) = some s) :
    started rate (es++as) = started rate es++trace step starts as s :=
  trace_append starts es as _ s h

theorem middle_getElem? {α : Type*} (xs ys zs : List α) :
    (List.range' xs.length ys.length).map ((xs++(ys++zs))[·]?) = ys.map some := by
  apply List.ext_getElem
  · simp
  · intro i hi _
    have hi : i < ys.length := by simpa using hi
    simp [List.getElem?_append_right, List.getElem?_append_left, hi]

theorem places_accepted {post : List Label} {t : State} (h : run step es (init rate) = some s)
    (ht : run step post s = some t) :
    (places (passed (started rate es)).length (trace step starts post s)).map
      ((accepted rate (es++post))[·]?) = (passed (trace step starts post s)).map some := by
  have hrun : run step (es++post) (init rate) = some t := by
    rw [run_append, h]
    exact ht
  rw [(run_pumping hrun).flow.order, started_append h, passed_append, List.append_assoc,
    List.append_assoc]
  exact middle_getElem? _ _ _

theorem accepted_setFlag (h : run step es (init rate) = some s) (hc : s.call = .setFlag baud) :
    accepted rate es = passed (started rate es)++s.bridge.txRing := by
  have horder := (run_pumping h).flow.order
  rw [hc] at horder
  simpa [staged] using horder

theorem reaches_abort {b : Bridge} (hp : HandlerPc) (baud : UInt32) (hset : Settled b) :
    ∃ pre d, run step pre ⟨b,hp,.setFlag baud⟩ = some ⟨d,hp,.abortTx baud⟩ ∧
      (∀ x, .setBaud x ∉ pre) ∧ trace step starts pre ⟨b,hp,.setFlag baud⟩ = [] ∧
      d.txRing = b.txRing ∧ d.txInProgress = false := by
  rcases hset with ⟨_,hin,_⟩ | ⟨hoff,_⟩
  · refine ⟨[.call 0, .isr (.txDone 0)],
      { b with reconfiguring := true, inFlight := [], txInProgress := false, txLen := 0 },
      ?_,by simp,?_,rfl,rfl⟩
    · simp [run, step, callNext, uartCb, finishTx, hin, uartTxKick, txStage, txIdle]
    · simp [trace, step, callNext, starts, completed, finishTx, hin, kickStarts, txStage, txIdle,
        uartCb]
  · exact ⟨[.call 0],{ b with reconfiguring := true },rfl,by simp,rfl,rfl,hoff⟩

theorem abort_configures (b : Bridge) (hp : HandlerPc) (baud : UInt32) :
    run step [.call 0, .call 0, .call (-EFAULT), .call 0] ⟨b,hp,.abortTx baud⟩ =
        some ⟨{ b with rxQuiesced := false },hp,.configure baud⟩ ∧
      trace step starts [.call 0, .call 0, .call (-EFAULT), .call 0] ⟨b,hp,.abortTx baud⟩ = [] :=
  ⟨rfl,rfl⟩

theorem reaches_configure {b : Bridge} (hp : HandlerPc) (baud : UInt32) (hset : Settled b) :
    ∃ mid d, run step mid ⟨b,hp,.setFlag baud⟩ = some ⟨d,hp,.configure baud⟩ ∧
      (∀ x, .setBaud x ∉ mid) ∧ trace step starts mid ⟨b,hp,.setFlag baud⟩ = [] ∧
      d.txRing = b.txRing ∧ d.txInProgress = false := by
  obtain ⟨pre,d,hrun,hno,hst,hring,hoff⟩ := reaches_abort hp baud hset
  obtain ⟨hrun',hst'⟩ := abort_configures d hp baud
  refine ⟨pre++[.call 0, .call 0, .call (-EFAULT), .call 0],{ d with rxQuiesced := false },
    ?_,?_,?_,hring,hoff⟩
  · rw [run_append, hrun]
    exact hrun'
  · intro x hx
    rcases List.mem_append.mp hx with hx | hx
    · exact hno x hx
    · simp at hx
  · rw [trace_append starts _ _ _ _ hrun, hst, hst']
    rfl

theorem reaches_schedule (d : Bridge) (hp : HandlerPc) (baud : UInt32) :
    ∃ pre e, run step (.call 0::pre) ⟨d,hp,.configure baud⟩ = some ⟨e,hp,.schedule 0⟩ ∧
      trace step returns (.call 0::pre) ⟨d,hp,.configure baud⟩ = [] ∧
      trace step starts (.call 0::pre) ⟨d,hp,.configure baud⟩ = [] ∧
      e.txRing = d.txRing ∧ e.txInProgress = d.txInProgress ∧ e.reconfiguring = false := by
  cases hf : d.free with
  | nil =>
    refine ⟨[.call 0, .call 0],{ uartConfigure baud 0 d with reconfiguring := false },
      ?_,?_,?_,rfl,rfl,rfl⟩
    · simp [run, step, callNext, slabAlloc, uartConfigure, hf]
    · simp [trace, step, callNext, returns, slabAlloc, uartConfigure, hf]
    · simp [trace, step, callNext, starts, slabAlloc, uartConfigure, hf]
  | cons buf free =>
    refine ⟨[.call 0, .call 0, .call (-1), .call 0],
      { uartConfigure baud 0 d with reconfiguring := false },?_,?_,?_,rfl,rfl,rfl⟩
    · simp [run, step, callNext, slabAlloc, slabFree, uartRxEnable, EBUSY, uartConfigure, hf]
    · simp [trace, step, callNext, returns, slabAlloc, slabFree, uartRxEnable, EBUSY,
        uartConfigure, hf]
    · simp [trace, step, callNext, starts, slabAlloc, slabFree, uartRxEnable, EBUSY,
        uartConfigure, hf]

theorem schedule_hands {e : Bridge} (hp : HandlerPc) (hne : e.txRing ≠ [])
    (hoff : e.txInProgress = false) (hr : e.reconfiguring = false) :
    ∃ t, run step [.call 0, .call 0, .call 0] ⟨e,hp,.schedule 0⟩ = some t ∧
      trace step returns [.call 0, .call 0, .call 0] ⟨e,hp,.schedule 0⟩ = [0] ∧
      trace step starts [.call 0, .call 0, .call 0] ⟨e,hp,.schedule 0⟩ =
        [(e.txRing.take (min e.txRing.length uartBufSize),0)] := by
  have hlen : min e.txRing.length uartBufSize ≠ 0 := by
    have := List.length_pos_iff.mpr hne
    simp only [uartBufSize]
    omega
  obtain ⟨c,hst,hbuf⟩ : ∃ c, txStage (scheduleRetry e) =
        some (min e.txRing.length uartBufSize,c) ∧
      c.txBuf = e.txRing.take (min e.txRing.length uartBufSize) :=
    ⟨_,txStage_some.mpr ⟨hoff,hr,rfl,hlen,rfl⟩,rfl⟩
  refine ⟨⟨uartTx (min e.txRing.length uartBufSize) 0 c,hp,.idle⟩,?_,?_,?_⟩
  · simp [run, step, callNext, hst]
  · simp [trace, step, callNext, returns, callRet, hst]
  · simp [trace, step, callNext, starts, hst, hbuf, List.take_take]

theorem configure_hands {d : Bridge} (hp : HandlerPc) (baud : UInt32) (hne : d.txRing ≠ [])
    (hoff : d.txInProgress = false) :
    ∃ post t, run step (.call 0::post) ⟨d,hp,.configure baud⟩ = some t ∧
      trace step returns (.call 0::post) ⟨d,hp,.configure baud⟩ = [0] ∧
      trace step starts (.call 0::post) ⟨d,hp,.configure baud⟩ =
        [(d.txRing.take (min d.txRing.length uartBufSize),0)] := by
  obtain ⟨pre,e,hrun,hret,hst,hring,hprog,hr⟩ := reaches_schedule d hp baud
  obtain ⟨t,hrun',hret',hst'⟩ :=
    schedule_hands hp (by rwa [hring]) (hprog.trans hoff) hr
  refine ⟨pre++[.call 0, .call 0, .call 0],t,?_,?_,?_⟩
  · rw [← List.cons_append, run_append, hrun]
    exact hrun'
  · rw [← List.cons_append, trace_append returns _ _ _ _ hrun, hret, hret']
    rfl
  · rw [← List.cons_append, trace_append starts _ _ _ _ hrun, hst, hst', hring]
    rfl

/-- A change drops the queue exactly where nothing is queued when it sets its flag. -/
theorem queue_dropped_iff (rate baud : UInt32) (es : List Label) (s : State)
    (h : run step es (init rate) = some s) (hc : s.call = .setFlag baud) :
    DropsQueue rate es s ↔ s.bridge.txRing = [] := by
  have hacc := accepted_setFlag h hc
  constructor
  · intro hd
    by_contra hne
    obtain ⟨b,hp,pc⟩ := s
    obtain rfl : pc = .setFlag baud := hc
    have hne : b.txRing ≠ [] := hne
    obtain ⟨mid,d,hmid,hno,hst,hring,hoff⟩ :=
      reaches_configure hp baud (run_pumping h).flow.pump
    obtain ⟨post,t,hpost,hret,hst'⟩ :=
      configure_hands hp baud (show d.txRing ≠ [] by rwa [hring]) hoff
    have hold := hd mid _ baud 0 post t hmid hno rfl hpost (by rw [hret]; rfl)
      (passed (started rate (es++mid))).length
    have hpos := List.length_pos_iff.mpr hne
    have hpos' : 0 < (passed [(d.txRing.take (min d.txRing.length uartBufSize),0)]).length := by
      simp only [passed, List.map_cons, List.map_nil, List.flatten_singleton, List.length_take, hring, uartBufSize]
      omega
    have hle := hold (by rw [hst']; exact List.mem_range'_1.mpr ⟨le_rfl,by omega⟩)
    rw [started_append h, hst, hacc, List.append_nil, List.length_append] at hle
    dsimp only at hpos hle
    omega
  · intro hnil mid c _ err post t hmid _ _ _ _ i hi
    have hle := (List.mem_range'_1.mp hi).1
    rw [started_append h, passed_append, List.length_append] at hle
    rw [hacc, hnil, List.append_nil]
    omega

/-- A write of two bytes is in flight as a whole when the change begins. -/
def handedOver : List Label :=
  .send [0x55, 0x55]::List.replicate 3 (.call 0)++[.setBaud 9600, .call 0]

def allInFlight : State :=
  { init 115200 with
    bridge :=
      { (init 115200).bridge with
        txBuf := [0x55, 0x55]
        txInProgress := true
        txLen := 2
        inFlight := [[0x55, 0x55]] }
    call := .setFlag 9600 }

theorem queue_dropped_iff_in_flight : DropsQueue 115200 handedOver allInFlight :=
  (queue_dropped_iff 115200 9600 handedOver allInFlight (by decide) rfl).mpr rfl

/-- A write of 66 bytes: 64 are in flight when the change begins. -/
def queued : List Label :=
  List.flatten [[.send (List.replicate 66 0x55)], List.replicate 3 (.call 0), [.setBaud 9600, .call 0]]

def atFlag : State :=
  { init 115200 with
    bridge :=
      { (init 115200).bridge with
        txRing := [0x55, 0x55]
        txBuf := List.replicate 64 0x55
        txInProgress := true
        txLen := 64
        inFlight := [List.replicate 64 0x55] }
    call := .setFlag 9600 }

def stopping : List Label :=
  [.call 0, .call 0, .call 0, .isr (.txAborted 10 0), .call 0, .isr (.rxBufReleased slab.head?),
    .isr (.rxDisabled 0 0), .call 0, .call 0]

def atConfigure : State :=
  { init 115200 with
    bridge :=
      { (init 115200).bridge with
        free := slab
        owned := []
        reception := .off
        reconfiguring := true
        txRing := [0x55, 0x55]
        txBuf := List.replicate 64 0x55
        dropsUartTx := 54 }
    call := .configure 9600 }

def changed : State :=
  { init 9600 with
    bridge :=
      { (init 9600).bridge with
        txBuf := [0x55, 0x55]
        txInProgress := true
        txLen := 2
        dropsUartTx := 54
        inFlight := [[0x55, 0x55]] } }

/-- The last two bytes of the write go out at the new rate. -/
theorem queued_bytes_at_new_rate :
    run step queued (init 115200) = some atFlag ∧ run step stopping atFlag = some atConfigure ∧
      trace step returns (List.replicate 6 (.call 0)) atConfigure = [0] ∧
      trace step starts (List.replicate 6 (.call 0)) atConfigure = [([0x55, 0x55],0)] ∧
      ¬DropsQueue 115200 queued atFlag := by
  refine ⟨by decide,by decide,by decide,by decide,?_⟩
  intro h
  have hold := h stopping atConfigure 9600 0 (List.replicate 5 (.call 0)) changed (by decide)
    (by simp [stopping]) rfl (by decide) (by decide) 64 (by decide +kernel)
  revert hold
  decide +kernel

end NrfProxy.BaudQueue
