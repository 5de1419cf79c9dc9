import NrfProxy.MainState
import NrfProxy.Runs

/-!
# The threads of main.c

Connection callbacks, the receive callback of the BT RX thread, the handlers of
the system work queue, the writer thread and the UART's RX_RDY events, each with
its own program counter. A step is one critical section, one kernel call or one
driver call of one of them, so that a run is any interleaving.

The stack has one connection object. It names the links by numbers, delivers
the callbacks of the link that is up one after the other, and gives the object
to the next link only when nobody holds a reference to it: neither the
application nor a receive callback still running on it.
-/

set_option autoImplicit false

namespace NrfProxy.MainThreads
open NrfProxy.Delayable NrfProxy.ProxyCore NrfProxy.MainState

inductive RxPc where
  | idle
  | gate (data : List UInt8)
  | relayCancel (enable : Bool) (ack : List UInt8)
  | relayApply (enable : Bool) (ack : List UInt8)
  | setBaud (baud : UInt32) (ack : List UInt8)
  | ackSend (ack : List UInt8) (tries : ℕ)
  | forward (data : List UInt8)
  deriving DecidableEq, Repr

/-- Where the work queue's running handler stands. `relay_grace_handler` is one
critical section, `security_timeout_handler` has only to return at `watchdogReturn`. -/
inductive WorkPc where
  | idle
  | graceDecide
  | watchdogLock
  | watchdogDisconnect
  | watchdogUnref
  | watchdogReturn
  deriving DecidableEq, Repr

inductive WriterPc where
  | take
  | test
  | snapshot
  | drainClaim (state : LinkState)
  | drainFinish (state : LinkState) (len : ℕ)
  | mtu
  | claim (maxSend : ℕ)
  | hook (claimed maxSend : ℕ)
  | finish (claimed : ℕ) (out : List UInt8) (maxSend : ℕ)
  | send (out : List UInt8) (sent maxSend : ℕ)
  | unref (again : Bool)
  | report
  deriving DecidableEq, Repr

inductive Item where
  | relayGrace
  | securityTimeout
  deriving DecidableEq, Repr

inductive Fate where
  | sent
  | drained (state : LinkState)
  | dropped (err : ℤ)
  deriving DecidableEq, Repr

/-- The RX ring and its overflow counter, with the record of what went in, of
what came out and of what `bt_nus_send` accepted. -/
structure Stream where
  ring : List UInt8
  drops : UInt32
  intake : List (UInt8 × Bool)
  fates : List (UInt8 × Fate)
  phone : List UInt8
  deriving DecidableEq, Repr

structure State where
  main : Main
  host : HostPc
  rx : RxPc
  served : ℕ
  work : WorkPc
  writer : WriterPc
  isrGives : Bool
  stream : Stream
  link : Option ℕ
  up : Bool
  links : ℕ
  dropAccepted : Bool
  deriving DecidableEq, Repr

def init (locked : Bool) : State where
  main := boot locked
  host := .idle
  rx := .idle
  served := 0
  work := .idle
  writer := .take
  isrGives := false
  stream := ⟨[],0,[],[],[]⟩
  link := none
  up := false
  links := 0
  dropAccepted := false

/-- `n` is the number a call of the step returns (an MTU, or how many bytes are
contiguous in the ring), `err` the error of the driver call it makes. -/
inductive Label where
  | wait (ms : ℕ)
  | expire (w : Item)
  | enter (w : Item)
  | work (err : ℤ)
  | connect (err : ℕ)
  | security (level err : ℕ)
  | disconnect
  | host
  | recycle
  | receive (data : List UInt8)
  | rx (err : ℤ)
  | ready (data : List UInt8)
  | give
  | writer (n : ℕ) (err : ℤ)
  deriving DecidableEq, Repr

/-- Whose step it is: the clock's, the work queue's, the stack's (which also
runs the connection callbacks), the receive callback's, the UART ISR's or the
writer's. -/
inductive Thread where
  | clock
  | queue
  | stack
  | rx
  | isr
  | writer
  deriving DecidableEq, Repr

def thread : Label → Thread
  | .wait _ | .expire _ => .clock
  | .enter _ | .work _ => .queue
  | .connect _ | .security _ _ | .disconnect | .host | .recycle => .stack
  | .receive _ | .rx _ => .rx
  | .ready _ | .give => .isr
  | .writer _ _ => .writer

def ackTries : ℕ := 5

def rxRingSize : ℕ := 2048

def uint32Max : ℕ := 2^32-1

def dispatch (secure : Bool) (data : List UInt8) : RxPc :=
  if secure then
    let cmd := proxyCmdParse data emptyCmd
    match cmd.kind with
    | .none =>
      let out := onBleRx data procBufSize
      if out.length = 0 then .idle else .forward out
    | .relayEnable => .relayCancel true cmd.ack
    | .relayDisable => .relayCancel false cmd.ack
    | .setBaud => .setBaud cmd.baud cmd.ack
    | .invalid => .idle
  else .idle

def rxNext (port : Bool) (m : Main) (err : ℤ) : RxPc → Option (Main × RxPc)
  | .idle => none
  | .gate data => some (m, dispatch m.linkSecure data)
  | .relayCancel enable ack => some (cancelRelayGrace m, .relayApply enable ack)
  | .relayApply enable ack => some (relayApply port enable m, .ackSend ack 0)
  | .setBaud _ ack => some (m, if err = 0 then .ackSend ack 0 else .idle)
  | .ackSend ack tries =>
    some (m,
      if tries < ackTries then
        match proxySendResult err with
        | .consumed => .idle
        | .retry => .ackSend ack (tries+1)
        | .drop => .idle
      else .idle)
  | .forward _ => some (m, .idle)

def refConn (m : Main) : Main := { m with connRefs := m.connRefs+1 }

def unrefConn (m : Main) : Main := { m with connRefs := m.connRefs-1 }

def workNext (port : Bool) (m : Main) : WorkPc → Option (Main × WorkPc)
  | .idle => none
  | .graceDecide => some (finishRelayGrace (relayGraceDecide port m), .idle)
  | .watchdogLock =>
    some (if m.currentConn && !m.linkSecure then (refConn m, .watchdogDisconnect)
      else (m, .watchdogReturn))
  | .watchdogDisconnect => some (m, .watchdogUnref)
  | .watchdogUnref => some (unrefConn m, .watchdogReturn)
  | .watchdogReturn => some (finishSecurityTimeout m, .idle)

/-- `ring_buf_put` of the ISR: a prefix is queued and the rest counted. -/
def Stream.put (q : Stream) (data : List UInt8) : Stream :=
  let queued := min data.length (rxRingSize-q.ring.length)
  { q with
    ring := q.ring++data.take queued
    drops := q.drops+UInt32.ofNat (data.length-queued)
    intake := q.intake++((data.take queued).map (·,true)++(data.drop queued).map (·,false)) }

/-- `ring_buf_get_claim`: `contiguous` bytes lie before the wrap. -/
def Stream.claim (q : Stream) (contiguous max : ℕ) : ℕ := min (min contiguous q.ring.length) max

def Stream.finish (q : Stream) (len : ℕ) : Stream := { q with ring := q.ring.drop len }

def Stream.settle (q : Stream) (bytes : List UInt8) (fate : Fate) : Stream :=
  { q with fates := q.fates++bytes.map (·,fate) }

def Stream.accept (q : Stream) (bytes : List UInt8) : Stream :=
  { q.settle bytes .sent with phone := q.phone++bytes }

def snapshotState (m : Main) : LinkState where
  connected := m.currentConn
  advActive := false
  linkSecure := m.linkSecure
  lockedMode := false

def writerNext (m : Main) (q : Stream) (n : ℕ) (err : ℤ) :
    WriterPc → Option (Main × Stream × WriterPc)
  | .take => if m.rxDataReady then some ({ m with rxDataReady := false }, q, .test) else none
  | .test => some (m, q, if q.ring = [] then .report else .snapshot)
  | .snapshot =>
    some (if proxyMayForward (snapshotState m) then (refConn m, q, .mtu)
      else (m, q, .drainClaim (snapshotState m)))
  | .drainClaim state =>
    if n = 0 then none
    else some (m, q,
      if q.claim n uint32Max = 0 then .report else .drainFinish state (q.claim n uint32Max))
  | .drainFinish state len =>
    some (m, (q.settle (q.ring.take len) (.drained state)).finish len, .drainClaim state)
  | .mtu => if n < 2^16 then some (m, q, .claim (proxyNusChunkLimit n)) else none
  | .claim maxSend =>
    if n = 0 then none
    else some (m, q,
      if q.claim n maxSend = 0 then .unref false else .hook (q.claim n maxSend) maxSend)
  | .hook claimed maxSend =>
    some (m, q, .finish claimed (onUartRx (q.ring.take claimed) procBufSize) maxSend)
  | .finish claimed out maxSend => some (m, q.finish claimed, .send out 0 maxSend)
  | .send out sent maxSend =>
    let slice := proxyNextSlice out.length sent maxSend
    some (m,
      if slice = 0 then (q, .unref true)
      else match proxySendResult err with
        | .consumed => (q.accept ((out.drop sent).take slice), .send out (sent+slice) maxSend)
        | .retry => (q, .send out sent maxSend)
        | .drop => (q.settle (out.drop sent) (.dropped err), .unref true))
  | .unref again => some (unrefConn m, q, if again then .test else .report)
  | .report => some (m, q, .take)

def connecting : HostPc → Bool
  | .connLock _ | .connCancelSlow | .connArmWatchdog => true
  | _ => false

def item (m : Main) : Item → Work
  | .relayGrace => m.relayGraceWork
  | .securityTimeout => m.securityTimeoutWork

def setItem (m : Main) (w : Work) : Item → Main
  | .relayGrace => { m with relayGraceWork := w }
  | .securityTimeout => { m with securityTimeoutWork := w }

def handler : Item → WorkPc
  | .relayGrace => .graceDecide
  | .securityTimeout => .watchdogLock

def step (port : Bool) (s : State) : Label → Option State
  | .wait ms => some { s with main := { s.main with now := s.main.now+ms } }
  | .expire w =>
    (expire s.main.now (item s.main w)).map (fun v => { s with main := setItem s.main v w })
  | .enter w =>
    if s.work = .idle then
      (take (item s.main w)).map (fun v => { s with main := setItem s.main v w, work := handler w })
    else none
  | .work err =>
    (workNext port s.main s.work).map (fun c =>
      { s with
        main := c.1
        work := c.2
        dropAccepted := s.dropAccepted || (s.work == .watchdogDisconnect && err == 0) })
  | .connect err =>
    if s.host = .idle ∧ s.link = none then
      some (if err = 0 then
        { s with
          host := .connLock err
          link := some s.links
          up := true
          links := s.links+1
          dropAccepted := false }
      else { s with host := .connLock err })
    else none
  | .security level err =>
    if s.host = .idle ∧ s.up then some { s with host := .secEntry level err } else none
  | .disconnect =>
    if s.host = .idle ∧ s.up then some { s with host := .discHeld, up := false } else none
  | .host => (hostNext s.main s.host).map (fun c => { s with main := c.1, host := c.2 })
  | .recycle =>
    if s.host = .idle ∧ s.link.isSome ∧ !s.up ∧ s.main.connRefs = 0 ∧ s.rx = .idle then
      some { s with link := none }
    else none
  | .receive data =>
    match s.link with
    | some l =>
      if s.rx = .idle ∧ !connecting s.host then some { s with rx := .gate data, served := l }
      else none
    | none => none
  | .rx err => (rxNext port s.main err s.rx).map (fun c => { s with main := c.1, rx := c.2 })
  | .ready data =>
    if !s.isrGives ∧ data.length < 2^32 then
      some { s with
        stream := s.stream.put data
        isrGives := decide (0 < min data.length (rxRingSize-s.stream.ring.length)) }
    else none
  | .give =>
    if s.isrGives then some { s with main := giveRxDataReady s.main, isrGives := false } else none
  | .writer n err =>
    (writerNext s.main s.stream n err s.writer).map (fun c =>
      { s with main := c.1, stream := c.2.1, writer := c.2.2 })

def secureLink : List Label :=
  .connect 0::List.replicate 3 .host++.security 2 0::List.replicate 5 .host

section Steps

inductive WriterMove (m : Main) (q : Stream) (n : ℕ) (err : ℤ) :
    WriterPc → Main → Stream → WriterPc → Prop where
  | take (h : m.rxDataReady = true) :
      WriterMove m q n err .take { m with rxDataReady := false } q .test
  | empty (h : q.ring = []) : WriterMove m q n err .test m q .report
  | bytes (h : q.ring ≠ []) : WriterMove m q n err .test m q .snapshot
  | forward (h : proxyMayForward (snapshotState m) = true) :
      WriterMove m q n err .snapshot (refConn m) q .mtu
  | discard (h : proxyMayForward (snapshotState m) = false) :
      WriterMove m q n err .snapshot m q (.drainClaim (snapshotState m))
  | drained {state : LinkState} (hn : n ≠ 0) (h : q.claim n uint32Max = 0) :
      WriterMove m q n err (.drainClaim state) m q .report
  | drainClaim {state : LinkState} :
      WriterMove m q n err (.drainClaim state) m q (.drainFinish state (q.claim n uint32Max))
  | drainFinish {state : LinkState} {len : ℕ} : WriterMove m q n err (.drainFinish state len) m
      ((q.settle (q.ring.take len) (.drained state)).finish len) (.drainClaim state)
  | mtu (h : n < 2^16) : WriterMove m q n err .mtu m q (.claim (proxyNusChunkLimit n))
  | claimed {maxSend : ℕ} (hn : n ≠ 0) (h : q.claim n maxSend = 0) :
      WriterMove m q n err (.claim maxSend) m q (.unref false)
  | claim {maxSend : ℕ} :
      WriterMove m q n err (.claim maxSend) m q (.hook (q.claim n maxSend) maxSend)
  | hook {claimed maxSend : ℕ} : WriterMove m q n err (.hook claimed maxSend) m q
      (.finish claimed (onUartRx (q.ring.take claimed) procBufSize) maxSend)
  | finish {claimed maxSend : ℕ} {out : List UInt8} :
      WriterMove m q n err (.finish claimed out maxSend) m (q.finish claimed) (.send out 0 maxSend)
  | sent {out : List UInt8} {sent maxSend : ℕ} (h : proxyNextSlice out.length sent maxSend = 0) :
      WriterMove m q n err (.send out sent maxSend) m q (.unref true)
  | send {out : List UInt8} {sent maxSend : ℕ} (h : proxySendResult err = .consumed) :
      WriterMove m q n err (.send out sent maxSend) m
        (q.accept ((out.drop sent).take (proxyNextSlice out.length sent maxSend)))
        (.send out (sent+proxyNextSlice out.length sent maxSend) maxSend)
  | again {out : List UInt8} {sent maxSend : ℕ} (h : proxySendResult err = .retry) :
      WriterMove m q n err (.send out sent maxSend) m q (.send out sent maxSend)
  | drop {out : List UInt8} {sent maxSend : ℕ} (h : proxySendResult err = .drop) :
      WriterMove m q n err (.send out sent maxSend) m (q.settle (out.drop sent) (.dropped err))
        (.unref true)
  | unref : WriterMove m q n err (.unref false) (unrefConn m) q .report
  | loop : WriterMove m q n err (.unref true) (unrefConn m) q .test
  | report : WriterMove m q n err .report m q .take

theorem writer_move {m m' : Main} {q r : Stream} {n : ℕ} {err : ℤ} {p p' : WriterPc}
    (h : writerNext m q n err p = some (m',r,p')) : WriterMove m q n err p m' r p' := by
  cases p with
  | take =>
    simp only [writerNext, Option.ite_none_right_eq_some, Option.some.injEq, Prod.mk.injEq] at h
    obtain ⟨hr,rfl,rfl,rfl⟩ := h
    exact .take hr
  | test =>
    simp only [writerNext, Option.some.injEq, Prod.mk.injEq] at h
    obtain ⟨rfl,rfl,rfl⟩ := h
    split <;> rename_i hr
    · exact .empty hr
    · exact .bytes hr
  | snapshot =>
    simp only [writerNext] at h
    split at h <;> rename_i hf <;> obtain ⟨rfl,hq⟩ := Prod.mk.inj (Option.some.inj h) <;>
      obtain ⟨rfl,rfl⟩ := Prod.mk.inj hq
    · exact .forward hf
    · exact .discard (by simpa using hf)
  | drainClaim state =>
    simp only [writerNext, Option.ite_none_left_eq_some, Option.some.injEq, Prod.mk.injEq] at h
    obtain ⟨hn,rfl,rfl,rfl⟩ := h
    split <;> rename_i hz
    · exact .drained hn hz
    · exact .drainClaim
  | mtu =>
    simp only [writerNext, Option.ite_none_right_eq_some, Option.some.injEq, Prod.mk.injEq] at h
    obtain ⟨hn,rfl,rfl,rfl⟩ := h
    exact .mtu hn
  | claim maxSend =>
    simp only [writerNext, Option.ite_none_left_eq_some, Option.some.injEq, Prod.mk.injEq] at h
    obtain ⟨hn,rfl,rfl,rfl⟩ := h
    split <;> rename_i hz
    · exact .claimed hn hz
    · exact .claim
  | send out sent maxSend =>
    simp only [writerNext] at h
    obtain ⟨rfl,hq⟩ := Prod.mk.inj (Option.some.inj h)
    split at hq
    · rename_i hs
      obtain ⟨rfl,rfl⟩ := Prod.mk.inj hq
      exact .sent hs
    · split at hq <;> rename_i hv <;> obtain ⟨rfl,rfl⟩ := Prod.mk.inj hq
      · exact .send hv
      · exact .again hv
      · exact .drop hv
  | unref again =>
    simp only [writerNext, Option.some.injEq, Prod.mk.injEq] at h
    obtain ⟨rfl,rfl,rfl⟩ := h
    cases again with
    | false => exact .unref
    | true => exact .loop
  | drainFinish | hook | finish | report =>
    simp only [writerNext, Option.some.injEq, Prod.mk.injEq] at h
    obtain ⟨rfl,rfl,rfl⟩ := h
    constructor

variable {port : Bool} {s t : State}

theorem step_wait {ms : ℕ} :
    step port s (.wait ms) = some t ↔ t = { s with main := { s.main with now := s.main.now+ms } } := by
  simp [step, @eq_comm _ t]

theorem step_expire {w : Item} : step port s (.expire w) = some t ↔
    ∃ v, expire s.main.now (item s.main w) = some v ∧
      t = { s with main := setItem s.main v w } := by
  simp [step, @eq_comm _ t]

theorem step_enter {w : Item} : step port s (.enter w) = some t ↔
    s.work = .idle ∧ ∃ v, take (item s.main w) = some v ∧
      t = { s with main := setItem s.main v w, work := handler w } := by
  simp [step, @eq_comm _ t]

theorem step_work {err : ℤ} : step port s (.work err) = some t ↔
    ∃ n pc, workNext port s.main s.work = some (n,pc) ∧
      t = { s with
        main := n
        work := pc
        dropAccepted := s.dropAccepted || (s.work == .watchdogDisconnect && err == 0) } := by
  simp [step, @eq_comm _ t]

theorem step_connect {err : ℕ} : step port s (.connect err) = some t ↔
    s.host = .idle ∧ s.link = none ∧
      t = if err = 0 then
        { s with
          host := .connLock err
          link := some s.links
          up := true
          links := s.links+1
          dropAccepted := false }
      else { s with host := .connLock err } := by
  simp [step, and_assoc, @eq_comm _ t]

theorem step_security {level err : ℕ} : step port s (.security level err) = some t ↔
    s.host = .idle ∧ s.up = true ∧ t = { s with host := .secEntry level err } := by
  simp [step, and_assoc, @eq_comm _ t]

theorem step_disconnect : step port s .disconnect = some t ↔
    s.host = .idle ∧ s.up = true ∧ t = { s with host := .discHeld, up := false } := by
  simp [step, and_assoc, @eq_comm _ t]

theorem step_host : step port s .host = some t ↔
    ∃ n pc, hostNext s.main s.host = some (n,pc) ∧ t = { s with main := n, host := pc } := by
  simp [step, @eq_comm _ t]

theorem step_recycle : step port s .recycle = some t ↔
    s.host = .idle ∧ s.link.isSome = true ∧ s.up = false ∧ s.main.connRefs = 0 ∧ s.rx = .idle ∧
      t = { s with link := none } := by
  simp [step, and_assoc, @eq_comm _ t]

theorem step_receive {data : List UInt8} : step port s (.receive data) = some t ↔
    ∃ l, s.link = some l ∧ s.rx = .idle ∧ connecting s.host = false ∧
      t = { s with rx := .gate data, served := l } := by
  cases h : s.link <;> simp [step, h, and_assoc, @eq_comm _ t]

theorem step_rx {err : ℤ} : step port s (.rx err) = some t ↔
    ∃ n pc, rxNext port s.main err s.rx = some (n,pc) ∧ t = { s with main := n, rx := pc } := by
  simp [step, @eq_comm _ t]

theorem step_ready {data : List UInt8} : step port s (.ready data) = some t ↔
    s.isrGives = false ∧ data.length < 2^32 ∧
      t = { s with
        stream := s.stream.put data
        isrGives := decide (0 < min data.length (rxRingSize-s.stream.ring.length)) } := by
  simp [step, and_assoc, @eq_comm _ t]

theorem step_give : step port s .give = some t ↔
    s.isrGives = true ∧ t = { s with main := giveRxDataReady s.main, isrGives := false } := by
  simp [step, @eq_comm _ t]

theorem step_writer {k : ℕ} {err : ℤ} : step port s (.writer k err) = some t ↔
    ∃ n q pc, writerNext s.main s.stream k err s.writer = some (n,q,pc) ∧
      t = { s with main := n, stream := q, writer := pc } := by
  simp [step, @eq_comm _ t]

end Steps

end NrfProxy.MainThreads
