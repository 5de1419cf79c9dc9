import NrfProxy.Delayable
import NrfProxy.Runs

/-!
# uart_bridge.c and its driver

The bridge's statics, the driver below them, and the three contexts that touch
both: the UART ISR, the handler of the retry item, and the calls of the one
thread which may call the bridge. An event of the ISR is one step, since no
thread runs during it; a thread takes one step for each kernel call, driver
call or locked section. The RX ring is the writer's and is modelled with it.
-/

set_option autoImplicit false

namespace NrfProxy.UartBridge
open NrfProxy.Delayable

def EFAULT : ℤ := 14

def EBUSY : ℤ := 16

def ETIMEDOUT : ℤ := 116

def uartBufSize : ℕ := 64

def txRingSize : ℕ := 2048

def uartRxRetryDelay : ℕ := 100

def quiesceTimeout : ℕ := 200

def uartRxEnableSucceeded (enableErr : ℤ) : Bool := enableErr = 0 ∨ enableErr = -EBUSY

def uartRxShouldScheduleRetry (allocOk : Bool) (enableErr : ℤ) : Bool :=
  if !allocOk then true else !uartRxEnableSucceeded enableErr

def uartRxRetryWarnOnce (latched : Bool) : Bool × Bool :=
  if latched then (false,latched) else (true,true)

abbrev Buf := Fin 4

def slab : List Buf := [3,2,1,0]

/-- Whether the receiver runs. `stopping` has its `UART_RX_DISABLED` to deliver. -/
inductive Reception where
  | off
  | on
  | stopping
  deriving DecidableEq, Repr

/-- `owned` are the driver's receive buffers, `inFlight` what `uart_tx` has
accepted and not reported, and `refused` the buffers `uart_rx_buf_rsp` has
returned an error for. -/
structure Bridge where
  now : ℕ
  free : List Buf
  owned : List Buf
  refused : List Buf
  reception : Reception
  retryWork : Work
  retryWarned : Bool
  reconfiguring : Bool
  rxQuiesced : Bool
  rate : UInt32
  txRing : List UInt8
  txBuf : List UInt8
  txInProgress : Bool
  txLen : ℕ
  dropsUartTx : UInt32
  lastUartTxErr : ℤ
  inFlight : List (List UInt8)
  deriving DecidableEq, Repr

/-- Where `uart_rx_retry_handler` stands, at `leave` with nothing left but to return. -/
inductive HandlerPc where
  | idle
  | entry
  | alloc
  | enable (buf : Buf)
  | freeBusy (buf : Buf)
  | clearLatch
  | freeFailed (buf : Buf)
  | warn
  | schedule
  | leave
  deriving DecidableEq, Repr

/-- Where the running call stands: `uart_bridge_send` at `put`,
`uart_bridge_set_baud` from `cancel` to `schedule`, and the `uart_tx_kick` both
end with. What `uart_bridge_set_baud` will return is in `ret`. -/
inductive CallPc where
  | idle
  | put (data : List UInt8)
  | cancel (baud : UInt32)
  | setFlag (baud : UInt32)
  | abortTx (baud : UInt32)
  | resetSem (baud : UInt32)
  | disableRx (baud : UInt32)
  | takeSem (baud : UInt32) (deadline : ℕ)
  | getConfig (baud : UInt32)
  | configure (baud : UInt32)
  | clearFlag (ret : ℤ)
  | alloc (ret : ℤ)
  | enable (buf : Buf) (ret : ℤ)
  | freeFailed (buf : Buf) (ret : ℤ)
  | schedule (ret : ℤ)
  | kick (ret : Option ℤ)
  | tx (len : ℕ) (ret : Option ℤ)
  | countDrop (len : ℕ) (err : ℤ) (ret : Option ℤ)
  | keepErr (err : ℤ) (ret : Option ℤ)
  | txIdle (ret : Option ℤ)
  deriving DecidableEq, Repr

structure State where
  bridge : Bridge
  handler : HandlerPc
  call : CallPc
  deriving DecidableEq, Repr

/-- `k_mem_slab_alloc`. An empty slab always refuses, and one with buffers left may. -/
def slabAlloc (err : ℤ) (b : Bridge) : Option (Buf × Bridge) :=
  match b.free with
  | [] => none
  | buf::free => if err = 0 then some (buf,{ b with free }) else none

def slabFree (buf : Buf) (b : Bridge) : Bridge := { b with free := buf::b.free }

/-- `err` is what the driver answers: 0 from a receiver that was off, `-EBUSY`
only from one that is on or still to be disabled. -/
def uartRxEnable (buf : Buf) (err : ℤ) (b : Bridge) : Option Bridge :=
  if err = 0 then
    if b.reception = .off then some { b with reception := .on, owned := buf::b.owned } else none
  else if err = -EBUSY then
    if b.reception = .off then none else some b
  else some b

def uartRxBufRsp (buf : Buf) (err : ℤ) (b : Bridge) : Bridge :=
  if err = 0 then { b with owned := buf::b.owned } else { b with refused := buf::b.refused }

def uartRxDisable (err : ℤ) (b : Bridge) : Bridge :=
  if err = 0 ∧ b.reception = .on then { b with reception := .stopping } else b

def uartTx (len : ℕ) (err : ℤ) (b : Bridge) : Bridge :=
  if err = 0 then { b with inFlight := b.inFlight++[b.txBuf.take len] } else b

def uartConfigure (baud : UInt32) (err : ℤ) (b : Bridge) : Bridge :=
  if err = 0 then { b with rate := baud } else b

def scheduleRetry (b : Bridge) : Bridge :=
  { b with retryWork := reschedule b.now uartRxRetryDelay b.retryWork }

def finishRetry (b : Bridge) : Bridge := { b with retryWork := finish b.retryWork }

def txPut (data : List UInt8) (b : Bridge) : Bridge :=
  { b with txRing := b.txRing++data.take (txRingSize-b.txRing.length) }

/-- The locked section of `uart_tx_kick`: the length of the chunk it stages. -/
def txStage (b : Bridge) : Option (ℕ × Bridge) :=
  if b.txInProgress || b.reconfiguring then none
  else
    let len := min b.txRing.length uartBufSize
    if len = 0 then none
    else
      some (len, { b with
        txBuf := b.txRing.take len
        txRing := b.txRing.drop len
        txInProgress := true
        txLen := len })

def addDrops (n : ℕ) (b : Bridge) : Bridge :=
  { b with dropsUartTx := b.dropsUartTx+UInt32.ofNat n }

def keepErr (err : ℤ) (b : Bridge) : Bridge := { b with lastUartTxErr := err }

def txIdle (b : Bridge) : Bridge := { b with txInProgress := false, txLen := 0 }

/-- `uart_tx_kick` without interruption, as the ISR runs it. -/
def uartTxKick (err : ℤ) (b : Bridge) : Bridge :=
  match txStage b with
  | none => b
  | some (len,b) =>
    if err = 0 then uartTx len err b else txIdle (keepErr err (addDrops len (uartTx len err b)))

inductive Event where
  | txDone (txErr : ℤ)
  | txAborted (sent : ℕ) (txErr : ℤ)
  | rxBufRequest (allocErr rspErr : ℤ)
  | rxBufReleased (buf : Option Buf)
  | rxDisabled (allocErr enableErr : ℤ)
  deriving DecidableEq, Repr

def finishTx (b : Bridge) : Option (List UInt8 × Bridge) :=
  match b.inFlight with
  | [] => none
  | chunk::inFlight => some (chunk,{ b with inFlight })

def restartRx (allocErr enableErr : ℤ) (b : Bridge) : Option Bridge :=
  match slabAlloc allocErr b with
  | none => some (scheduleRetry b)
  | some (buf,b) =>
    (uartRxEnable buf enableErr b).map (fun b =>
      if uartRxEnableSucceeded enableErr then
        { (if enableErr = -EBUSY then slabFree buf b else b) with retryWarned := false }
      else scheduleRetry (slabFree buf b))

def uartCb (b : Bridge) : Event → Option Bridge
  | .txDone txErr => (finishTx b).map (fun c => uartTxKick txErr (txIdle c.2))
  | .txAborted sent txErr =>
    (finishTx b).bind (fun c =>
      if sent ≤ c.1.length then
        let aborted := if sent < b.txLen then b.txLen-sent else 0
        some (uartTxKick txErr (txIdle (if 0 < aborted then addDrops aborted c.2 else c.2)))
      else none)
  | .rxBufRequest allocErr rspErr =>
    if b.reception = .off then none
    else match slabAlloc allocErr b with
      | none => some b
      | some (buf,b) => some (uartRxBufRsp buf rspErr b)
  | .rxBufReleased buf =>
    match buf with
    | none => some b
    | some buf =>
      if buf ∈ b.owned then some (slabFree buf { b with owned := b.owned.erase buf }) else none
  | .rxDisabled allocErr enableErr =>
    if b.reception = .off then none
    else
      let b := { b with reception := .off }
      if b.reconfiguring then some { b with rxQuiesced := true }
      else restartRx allocErr enableErr b

def handlerNext (b : Bridge) (err : ℤ) : HandlerPc → Option (Bridge × HandlerPc)
  | .idle => none
  | .entry => some (b, if b.reconfiguring then .leave else .alloc)
  | .alloc =>
    match slabAlloc err b with
    | none => some (b, .warn)
    | some (buf,b) => some (b, .enable buf)
  | .enable buf =>
    (uartRxEnable buf err b).map (fun b =>
      (b, if uartRxEnableSucceeded err then if err = -EBUSY then .freeBusy buf else .clearLatch
        else .freeFailed buf))
  | .freeBusy buf => some (slabFree buf b, .clearLatch)
  | .clearLatch => some ({ b with retryWarned := false }, .leave)
  | .freeFailed buf => some (slabFree buf b, .warn)
  | .warn => some ({ b with retryWarned := (uartRxRetryWarnOnce b.retryWarned).2 }, .schedule)
  | .schedule => some (scheduleRetry b, .leave)
  | .leave => some (finishRetry b, .idle)

def callNext (b : Bridge) (err : ℤ) : CallPc → Option (Bridge × CallPc)
  | .idle => none
  | .put data => some (txPut data b, .kick none)
  | .cancel baud => some ({ b with retryWork := cancel b.retryWork }, .setFlag baud)
  | .setFlag baud => some ({ b with reconfiguring := true }, .abortTx baud)
  | .abortTx baud => some (b, .resetSem baud)
  | .resetSem baud => some ({ b with rxQuiesced := false }, .disableRx baud)
  | .disableRx baud =>
    some (uartRxDisable err b,
      if err = 0 then .takeSem baud (b.now+quiesceTimeout)
      else if err = -EFAULT then .getConfig baud
      else .clearFlag err)
  | .takeSem baud deadline =>
    if err = 0 then
      if b.rxQuiesced then some ({ b with rxQuiesced := false }, .getConfig baud) else none
    else if deadline ≤ b.now then some (b, .clearFlag (-ETIMEDOUT)) else none
  | .getConfig baud => some (b, if err = 0 then .configure baud else .clearFlag err)
  | .configure baud => some (uartConfigure baud err b, .clearFlag err)
  | .clearFlag ret => some ({ b with reconfiguring := false }, .alloc ret)
  | .alloc ret =>
    match slabAlloc err b with
    | none => some (b, .schedule ret)
    | some (buf,b) => some (b, .enable buf ret)
  | .enable buf ret =>
    (uartRxEnable buf err b).map (fun b =>
      (b, if err = 0 then .kick (some ret) else .freeFailed buf ret))
  | .freeFailed buf ret => some (slabFree buf b, .schedule ret)
  | .schedule ret => some (scheduleRetry b, .kick (some ret))
  | .kick ret =>
    match txStage b with
    | none => some (b, .idle)
    | some (len,b) => some (b, .tx len ret)
  | .tx len ret => some (uartTx len err b, if err = 0 then .idle else .countDrop len err ret)
  | .countDrop len txErr ret => some (addDrops len b, .keepErr txErr ret)
  | .keepErr txErr ret => some (keepErr txErr b, .txIdle ret)
  | .txIdle _ => some (txIdle b, .idle)

inductive Label where
  | wait (ms : ℕ)
  | expire
  | enter
  | handler (err : ℤ)
  | send (data : List UInt8)
  | setBaud (baud : UInt32)
  | call (err : ℤ)
  | isr (e : Event)
  deriving DecidableEq, Repr

def step (s : State) : Label → Option State
  | .wait ms => some { s with bridge := { s.bridge with now := s.bridge.now+ms } }
  | .expire =>
    (expire s.bridge.now s.bridge.retryWork).map (fun w =>
      { s with bridge := { s.bridge with retryWork := w } })
  | .enter =>
    if s.handler = .idle then
      (take s.bridge.retryWork).map (fun w =>
        { s with bridge := { s.bridge with retryWork := w }, handler := .entry })
    else none
  | .handler err => (handlerNext s.bridge err s.handler).map (fun c =>
      { s with bridge := c.1, handler := c.2 })
  | .send data => if s.call = .idle then some { s with call := .put data } else none
  | .setBaud baud => if s.call = .idle then some { s with call := .cancel baud } else none
  | .call err => (callNext s.bridge err s.call).map (fun c => { s with bridge := c.1, call := c.2 })
  | .isr e => (uartCb s.bridge e).map (fun b => { s with bridge := b })

/-- After a `uart_bridge_init` which returned 0: the driver has the first
buffer of the slab and reception is on. -/
def init (rate : UInt32) : State where
  bridge :=
    { now := 0
      free := slab.tail
      owned := [3]
      refused := []
      reception := .on
      retryWork := idle
      retryWarned := false
      reconfiguring := false
      rxQuiesced := false
      rate
      txRing := []
      txBuf := []
      txInProgress := false
      txLen := 0
      dropsUartTx := 0
      lastUartTxErr := 0
      inFlight := [] }
  handler := .idle
  call := .idle

section Steps

variable {s t : State}

theorem slabAlloc_some {b c : Bridge} {buf : Buf} {err : ℤ} :
    slabAlloc err b = some (buf,c) ↔
      err = 0 ∧ ∃ free, b.free = buf::free ∧ c = { b with free } := by
  cases h : b.free with
  | nil => simp [slabAlloc, h]
  | cons x xs =>
    simp only [slabAlloc, h, Option.ite_none_right_eq_some, Option.some.injEq, Prod.mk.injEq,
      List.cons.injEq]
    refine and_congr_right (fun _ => ⟨?_,?_⟩)
    · rintro ⟨rfl,rfl⟩
      exact ⟨xs,⟨rfl,rfl⟩,rfl⟩
    · rintro ⟨free,⟨rfl,rfl⟩,rfl⟩
      exact ⟨rfl,rfl⟩

theorem slabAlloc_none {b : Bridge} {err : ℤ} :
    slabAlloc err b = none ↔ err ≠ 0 ∨ b.free = [] := by
  cases h : b.free <;> simp [slabAlloc, h]

theorem uartRxEnable_some {b c : Bridge} {buf : Buf} {err : ℤ} :
    uartRxEnable buf err b = some c ↔
      err = 0 ∧ b.reception = .off ∧ c = { b with reception := .on, owned := buf::b.owned } ∨
      err = -EBUSY ∧ b.reception ≠ .off ∧ c = b ∨
      uartRxEnableSucceeded err = false ∧ c = b := by
  by_cases h0 : err = 0
  · subst h0
    by_cases hr : b.reception = .off <;>
      simp [uartRxEnable, uartRxEnableSucceeded, EBUSY, hr, @eq_comm _ c]
  · by_cases h1 : err = -EBUSY
    · by_cases hr : b.reception = .off <;>
        simp [uartRxEnable, uartRxEnableSucceeded, h1, hr, EBUSY, @eq_comm _ c]
    · simp [uartRxEnable, uartRxEnableSucceeded, h0, h1, @eq_comm _ c]

theorem uartRxEnable_zero {b c : Bridge} {buf : Buf} : uartRxEnable buf 0 b = some c ↔
    b.reception = .off ∧ c = { b with reception := .on, owned := buf::b.owned } := by
  simp [uartRxEnable, @eq_comm _ c]

theorem succeeded_false {err : ℤ} (h : uartRxEnableSucceeded err = false) : err ≠ 0 := by
  rintro rfl
  simp [uartRxEnableSucceeded] at h

theorem restartRx_retryWork {b c : Bridge} {allocErr enableErr : ℤ}
    (h : restartRx allocErr enableErr b = some c) :
    c.retryWork = if uartRxShouldScheduleRetry (slabAlloc allocErr b).isSome enableErr then
      reschedule b.now uartRxRetryDelay b.retryWork else b.retryWork := by
  cases hf : slabAlloc allocErr b with
  | none =>
    simp only [restartRx, hf, Option.some.injEq] at h
    subst h
    rfl
  | some d =>
    obtain ⟨buf,d⟩ := d
    obtain ⟨_,free,_,rfl⟩ := slabAlloc_some.mp hf
    simp only [restartRx, hf, Option.map_eq_some_iff, uartRxEnable_some] at h
    obtain ⟨d,⟨rfl,_,rfl⟩ | ⟨rfl,_,rfl⟩ | ⟨he,rfl⟩,rfl⟩ := h
    · rfl
    · rfl
    · simp [he, uartRxShouldScheduleRetry, scheduleRetry, slabFree]

inductive IsrMove (b : Bridge) : Event → Bridge → Prop where
  | txDone {txErr : ℤ} {chunk : List UInt8} {c : Bridge} (h : finishTx b = some (chunk,c)) :
      IsrMove b (.txDone txErr) (uartTxKick txErr (txIdle c))
  | txAborted {sent aborted : ℕ} {txErr : ℤ} {chunk : List UInt8} {c : Bridge}
      (h : finishTx b = some (chunk,c)) (hs : sent ≤ chunk.length)
      (ha : aborted = if sent < b.txLen then b.txLen-sent else 0) :
      IsrMove b (.txAborted sent txErr)
        (uartTxKick txErr (txIdle (if 0 < aborted then addDrops aborted c else c)))
  | starved {allocErr rspErr : ℤ} (hr : b.reception ≠ .off) (hs : slabAlloc allocErr b = none) :
      IsrMove b (.rxBufRequest allocErr rspErr) b
  | refill {rspErr : ℤ} {buf : Buf} {free : List Buf} (hr : b.reception ≠ .off)
      (hf : b.free = buf::free) :
      IsrMove b (.rxBufRequest 0 rspErr) (uartRxBufRsp buf rspErr { b with free })
  | noBuffer : IsrMove b (.rxBufReleased none) b
  | released {buf : Buf} (ho : buf ∈ b.owned) :
      IsrMove b (.rxBufReleased (some buf)) (slabFree buf { b with owned := b.owned.erase buf })
  | handed {allocErr enableErr : ℤ} (hr : b.reception ≠ .off) (hc : b.reconfiguring = true) :
      IsrMove b (.rxDisabled allocErr enableErr) { b with reception := .off, rxQuiesced := true }
  | restarted {buf : Buf} {free : List Buf} (hr : b.reception ≠ .off) (hc : b.reconfiguring = false)
      (hf : b.free = buf::free) : IsrMove b (.rxDisabled 0 0)
        { b with free, reception := .on, owned := buf::b.owned, retryWarned := false }
  | delayed {allocErr enableErr : ℤ} (hr : b.reception ≠ .off) (hc : b.reconfiguring = false)
      (hf : slabAlloc allocErr b = none ∨ uartRxEnableSucceeded enableErr = false) :
      IsrMove b (.rxDisabled allocErr enableErr) (scheduleRetry { b with reception := .off })

theorem restartRx_move {b c : Bridge} {allocErr enableErr : ℤ} (hr : b.reception ≠ .off)
    (hc : b.reconfiguring = false)
    (h : restartRx allocErr enableErr { b with reception := .off } = some c) :
    IsrMove b (.rxDisabled allocErr enableErr) c := by
  cases hd : slabAlloc allocErr { b with reception := .off } with
  | none =>
    simp only [restartRx, hd, Option.some.injEq] at h
    obtain rfl := h
    have hf := slabAlloc_none.mp hd
    exact .delayed hr hc (Or.inl (slabAlloc_none.mpr hf))
  | some d =>
    obtain ⟨buf,d⟩ := d
    obtain ⟨rfl,free,hf,rfl⟩ := slabAlloc_some.mp hd
    simp only [restartRx, hd, Option.map_eq_some_iff, uartRxEnable_some] at h
    obtain ⟨d,⟨rfl,_,rfl⟩ | ⟨_,hne,_⟩ | ⟨he,rfl⟩,rfl⟩ := h
    · exact .restarted hr hc hf
    · exact absurd rfl hne
    · have hf : b.free = buf::free := hf
      simp only [he, Bool.false_eq_true, if_false, slabFree]
      rw [← hf]
      exact .delayed hr hc (Or.inr he)

theorem isr_move {b c : Bridge} {e : Event} (h : uartCb b e = some c) : IsrMove b e c := by
  cases e with
  | txDone txErr =>
    simp only [uartCb, Option.map_eq_some_iff] at h
    obtain ⟨⟨chunk,d⟩,hd,rfl⟩ := h
    exact .txDone hd
  | txAborted sent txErr =>
    simp only [uartCb, Option.bind_eq_some_iff, Option.ite_none_right_eq_some,
      Option.some.injEq] at h
    obtain ⟨⟨chunk,d⟩,hd,hs,rfl⟩ := h
    exact .txAborted hd hs rfl
  | rxBufRequest allocErr rspErr =>
    simp only [uartCb, Option.ite_none_left_eq_some] at h
    obtain ⟨hr,h⟩ := h
    split at h <;> rename_i hd <;> obtain rfl := Option.some.inj h
    · exact .starved hr hd
    · obtain ⟨rfl,free,hf,rfl⟩ := slabAlloc_some.mp hd
      exact .refill hr hf
  | rxBufReleased buf =>
    cases buf with
    | none =>
      obtain rfl := Option.some.inj h
      exact .noBuffer
    | some buf =>
      simp only [uartCb, Option.ite_none_right_eq_some, Option.some.injEq] at h
      obtain ⟨ho,rfl⟩ := h
      exact .released ho
  | rxDisabled allocErr enableErr =>
    simp only [uartCb, Option.ite_none_left_eq_some] at h
    obtain ⟨hr,h⟩ := h
    split at h <;> rename_i hc
    · obtain rfl := Option.some.inj h
      exact .handed hr hc
    · exact restartRx_move hr (by simpa using hc) h

inductive CallMove (b : Bridge) (err : ℤ) : CallPc → Bridge → CallPc → Prop where
  | put {data : List UInt8} : CallMove b err (.put data) (txPut data b) (.kick none)
  | cancel {baud : UInt32} :
      CallMove b err (.cancel baud) { b with retryWork := cancel b.retryWork } (.setFlag baud)
  | setFlag {baud : UInt32} :
      CallMove b err (.setFlag baud) { b with reconfiguring := true } (.abortTx baud)
  | abortTx {baud : UInt32} : CallMove b err (.abortTx baud) b (.resetSem baud)
  | resetSem {baud : UInt32} :
      CallMove b err (.resetSem baud) { b with rxQuiesced := false } (.disableRx baud)
  | disabled {baud : UInt32} : CallMove b err (.disableRx baud) (uartRxDisable err b)
      (.takeSem baud (b.now+quiesceTimeout))
  | wasOff {baud : UInt32} :
      CallMove b err (.disableRx baud) (uartRxDisable err b) (.getConfig baud)
  | refused {baud : UInt32} (h : err ≠ 0) :
      CallMove b err (.disableRx baud) (uartRxDisable err b) (.clearFlag err)
  | quiesced {baud : UInt32} {deadline : ℕ} :
      CallMove b err (.takeSem baud deadline) { b with rxQuiesced := false } (.getConfig baud)
  | timedOut {baud : UInt32} {deadline : ℕ} :
      CallMove b err (.takeSem baud deadline) b (.clearFlag (-ETIMEDOUT))
  | getConfig {baud : UInt32} : CallMove b err (.getConfig baud) b (.configure baud)
  | unknown {baud : UInt32} (h : err ≠ 0) :
      CallMove b err (.getConfig baud) b (.clearFlag err)
  | configure {baud : UInt32} :
      CallMove b err (.configure baud) (uartConfigure baud err b) (.clearFlag err)
  | clearFlag {ret : ℤ} :
      CallMove b err (.clearFlag ret) { b with reconfiguring := false } (.alloc ret)
  | starved {ret : ℤ} : CallMove b err (.alloc ret) b (.schedule ret)
  | alloc {ret : ℤ} {buf : Buf} {c : Bridge} (h : slabAlloc err b = some (buf,c)) :
      CallMove b err (.alloc ret) c (.enable buf ret)
  | enabled {ret : ℤ} {buf : Buf} {c : Bridge} (h : uartRxEnable buf err b = some c)
      (h0 : err = 0) : CallMove b err (.enable buf ret) c (.kick (some ret))
  | enableFailed {ret : ℤ} {buf : Buf} {c : Bridge} (h : uartRxEnable buf err b = some c)
      (h0 : err ≠ 0) : CallMove b err (.enable buf ret) c (.freeFailed buf ret)
  | freeFailed {ret : ℤ} {buf : Buf} :
      CallMove b err (.freeFailed buf ret) (slabFree buf b) (.schedule ret)
  | schedule {ret : ℤ} : CallMove b err (.schedule ret) (scheduleRetry b) (.kick (some ret))
  | nothing {ret : Option ℤ} (h : txStage b = none) : CallMove b err (.kick ret) b .idle
  | staged {ret : Option ℤ} {len : ℕ} {c : Bridge} (h : txStage b = some (len,c)) :
      CallMove b err (.kick ret) c (.tx len ret)
  | started {len : ℕ} {ret : Option ℤ} (h : err = 0) :
      CallMove b err (.tx len ret) (uartTx len err b) .idle
  | startFailed {len : ℕ} {ret : Option ℤ} (h : err ≠ 0) :
      CallMove b err (.tx len ret) (uartTx len err b) (.countDrop len err ret)
  | countDrop {len : ℕ} {txErr : ℤ} {ret : Option ℤ} :
      CallMove b err (.countDrop len txErr ret) (addDrops len b) (.keepErr txErr ret)
  | keepErr {txErr : ℤ} {ret : Option ℤ} :
      CallMove b err (.keepErr txErr ret) (keepErr txErr b) (.txIdle ret)
  | txIdle {ret : Option ℤ} : CallMove b err (.txIdle ret) (txIdle b) .idle

theorem call_move {b c : Bridge} {err : ℤ} {p q : CallPc} (h : callNext b err p = some (c,q)) :
    CallMove b err p c q := by
  cases p with
  | idle => simp [callNext] at h
  | put | cancel | setFlag | abortTx | resetSem | configure | clearFlag | freeFailed | schedule
  | countDrop | keepErr | txIdle =>
    obtain ⟨rfl,rfl⟩ := Prod.mk.inj (Option.some.inj h)
    constructor
  | disableRx baud =>
    obtain ⟨rfl,rfl⟩ := Prod.mk.inj (Option.some.inj h)
    split <;> [skip; split]
    · exact .disabled
    · exact .wasOff
    · rename_i h0 _
      exact .refused h0
  | takeSem baud deadline =>
    simp only [callNext] at h
    split at h <;> split at h <;> simp only [reduceCtorEq, Option.some.injEq, Prod.mk.injEq] at h <;>
      obtain ⟨rfl,rfl⟩ := h
    · exact .quiesced
    · exact .timedOut
  | getConfig baud =>
    obtain ⟨rfl,rfl⟩ := Prod.mk.inj (Option.some.inj h)
    split
    · exact .getConfig
    · rename_i h0
      exact .unknown h0
  | alloc ret =>
    simp only [callNext] at h
    split at h <;> obtain ⟨rfl,rfl⟩ := Prod.mk.inj (Option.some.inj h)
    · exact .starved
    · rename_i hd
      exact .alloc hd
  | enable buf ret =>
    simp only [callNext, Option.map_eq_some_iff] at h
    obtain ⟨d,hd,hx⟩ := h
    obtain ⟨rfl,rfl⟩ := Prod.mk.inj hx
    split
    · rename_i h0
      exact .enabled hd h0
    · rename_i h0
      exact .enableFailed hd h0
  | kick ret =>
    simp only [callNext] at h
    split at h <;> rename_i hd <;> obtain ⟨rfl,rfl⟩ := Prod.mk.inj (Option.some.inj h)
    · exact .nothing hd
    · exact .staged hd
  | tx len ret =>
    obtain ⟨rfl,rfl⟩ := Prod.mk.inj (Option.some.inj h)
    split
    · rename_i h0
      exact .started h0
    · rename_i h0
      exact .startFailed h0

inductive HandlerMove (b : Bridge) (err : ℤ) : HandlerPc → Bridge → HandlerPc → Prop where
  | held (h : b.reconfiguring = true) : HandlerMove b err .entry b .leave
  | entered (h : b.reconfiguring = false) : HandlerMove b err .entry b .alloc
  | starved (h : slabAlloc err b = none) : HandlerMove b err .alloc b .warn
  | alloc {buf : Buf} {free : List Buf} (h0 : err = 0) (h : b.free = buf::free) :
      HandlerMove b err .alloc { b with free } (.enable buf)
  | enabled {buf : Buf} (h0 : err = 0) (h : b.reception = .off) :
      HandlerMove b err (.enable buf) { b with reception := .on, owned := buf::b.owned } .clearLatch
  | busy {buf : Buf} (he : err = -EBUSY) (h : b.reception ≠ .off) :
      HandlerMove b err (.enable buf) b (.freeBusy buf)
  | failed {buf : Buf} (h : uartRxEnableSucceeded err = false) :
      HandlerMove b err (.enable buf) b (.freeFailed buf)
  | freeBusy {buf : Buf} : HandlerMove b err (.freeBusy buf) (slabFree buf b) .clearLatch
  | clearLatch : HandlerMove b err .clearLatch { b with retryWarned := false } .leave
  | freeFailed {buf : Buf} : HandlerMove b err (.freeFailed buf) (slabFree buf b) .warn
  | warn : HandlerMove b err .warn
      { b with retryWarned := (uartRxRetryWarnOnce b.retryWarned).2 } .schedule
  | schedule : HandlerMove b err .schedule (scheduleRetry b) .leave
  | leave : HandlerMove b err .leave (finishRetry b) .idle

theorem handler_move {b c : Bridge} {err : ℤ} {p q : HandlerPc}
    (h : handlerNext b err p = some (c,q)) : HandlerMove b err p c q := by
  cases p with
  | idle => simp [handlerNext] at h
  | entry =>
    obtain ⟨rfl,rfl⟩ := Prod.mk.inj (Option.some.inj h)
    split
    · rename_i hr
      exact .held hr
    · rename_i hr
      exact .entered (by simpa using hr)
  | alloc =>
    simp only [handlerNext] at h
    split at h <;> rename_i hd <;> obtain ⟨rfl,rfl⟩ := Prod.mk.inj (Option.some.inj h)
    · exact .starved hd
    · obtain ⟨h0,free,hf,rfl⟩ := slabAlloc_some.mp hd
      exact .alloc h0 hf
  | enable buf =>
    simp only [handlerNext, Option.map_eq_some_iff, uartRxEnable_some] at h
    obtain ⟨d,⟨rfl,hr,rfl⟩ | ⟨rfl,hr,rfl⟩ | ⟨he,rfl⟩,hd⟩ := h <;>
      obtain ⟨rfl,rfl⟩ := Prod.mk.inj hd
    · exact .enabled rfl hr
    · exact .busy rfl hr
    · rw [he]
      exact .failed he
  | freeBusy | clearLatch | freeFailed | warn | schedule | leave =>
    obtain ⟨rfl,rfl⟩ := Prod.mk.inj (Option.some.inj h)
    constructor

theorem step_wait {ms : ℕ} : step s (.wait ms) = some t ↔
    t = { s with bridge := { s.bridge with now := s.bridge.now+ms } } := by
  simp [step, @eq_comm _ t]

theorem step_expire : step s .expire = some t ↔
    ∃ w, expire s.bridge.now s.bridge.retryWork = some w ∧
      t = { s with bridge := { s.bridge with retryWork := w } } := by
  simp [step, @eq_comm _ t]

theorem step_enter : step s .enter = some t ↔
    s.handler = .idle ∧ ∃ w, take s.bridge.retryWork = some w ∧
      t = { s with bridge := { s.bridge with retryWork := w }, handler := .entry } := by
  simp [step, @eq_comm _ t]

theorem step_handler {err : ℤ} : step s (.handler err) = some t ↔
    ∃ b pc, handlerNext s.bridge err s.handler = some (b,pc) ∧
      t = { s with bridge := b, handler := pc } := by
  simp [step, @eq_comm _ t]

theorem step_send {data : List UInt8} : step s (.send data) = some t ↔
    s.call = .idle ∧ t = { s with call := .put data } := by
  simp [step, @eq_comm _ t]

theorem step_setBaud {baud : UInt32} : step s (.setBaud baud) = some t ↔
    s.call = .idle ∧ t = { s with call := .cancel baud } := by
  simp [step, @eq_comm _ t]

theorem step_call {err : ℤ} : step s (.call err) = some t ↔
    ∃ b pc, callNext s.bridge err s.call = some (b,pc) ∧ t = { s with bridge := b, call := pc } := by
  simp [step, @eq_comm _ t]

theorem step_isr {e : Event} : step s (.isr e) = some t ↔
    ∃ b, uartCb s.bridge e = some b ∧ t = { s with bridge := b } := by
  simp [step, @eq_comm _ t]

end Steps

structure SameRx (b c : Bridge) : Prop where
  free : c.free = b.free
  owned : c.owned = b.owned
  refused : c.refused = b.refused
  reception : c.reception = b.reception
  retryWork : c.retryWork = b.retryWork
  retryWarned : c.retryWarned = b.retryWarned
  reconfiguring : c.reconfiguring = b.reconfiguring

theorem SameRx.refl (b : Bridge) : SameRx b b := ⟨rfl,rfl,rfl,rfl,rfl,rfl,rfl⟩

theorem SameRx.trans {b c d : Bridge} (h : SameRx b c) (k : SameRx c d) : SameRx b d :=
  ⟨k.free.trans h.free,k.owned.trans h.owned,k.refused.trans h.refused,
    k.reception.trans h.reception,k.retryWork.trans h.retryWork,
    k.retryWarned.trans h.retryWarned,k.reconfiguring.trans h.reconfiguring⟩

theorem txIdle_rx (b : Bridge) : SameRx b (txIdle b) := ⟨rfl,rfl,rfl,rfl,rfl,rfl,rfl⟩

theorem addDrops_rx (n : ℕ) (b : Bridge) : SameRx b (addDrops n b) := ⟨rfl,rfl,rfl,rfl,rfl,rfl,rfl⟩

theorem keepErr_rx (err : ℤ) (b : Bridge) : SameRx b (keepErr err b) := ⟨rfl,rfl,rfl,rfl,rfl,rfl,rfl⟩

theorem uartTx_rx (len : ℕ) (err : ℤ) (b : Bridge) : SameRx b (uartTx len err b) := by
  unfold uartTx
  split <;> exact ⟨rfl,rfl,rfl,rfl,rfl,rfl,rfl⟩

theorem txStage_rx {b c : Bridge} {len : ℕ} (h : txStage b = some (len,c)) : SameRx b c := by
  simp only [txStage, Option.ite_none_left_eq_some, Option.some.injEq, Prod.mk.injEq] at h
  obtain ⟨_,_,_,rfl⟩ := h
  exact ⟨rfl,rfl,rfl,rfl,rfl,rfl,rfl⟩

theorem uartTxKick_rx (err : ℤ) (b : Bridge) : SameRx b (uartTxKick err b) := by
  unfold uartTxKick
  split
  · exact SameRx.refl b
  · rename_i len c hc
    have hs := txStage_rx hc
    split
    · exact hs.trans (uartTx_rx len err c)
    · exact (((hs.trans (uartTx_rx len err c)).trans (addDrops_rx len _)).trans
        (keepErr_rx err _)).trans (txIdle_rx _)

theorem finishTx_rx {b c : Bridge} {chunk : List UInt8} (h : finishTx b = some (chunk,c)) :
    SameRx b c := by
  cases hb : b.inFlight with
  | nil => simp [finishTx, hb] at h
  | cons x xs =>
    simp only [finishTx, hb, Option.some.injEq, Prod.mk.injEq] at h
    obtain ⟨_,rfl⟩ := h
    exact ⟨rfl,rfl,rfl,rfl,rfl,rfl,rfl⟩

end NrfProxy.UartBridge
