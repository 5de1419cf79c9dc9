import NrfProxy.MainState
import NrfProxy.Runs

/-!
# Advertising and the connection object

The stack has one connection object, which an advertiser, a connection attempt
or a link holds. `main`, the system work queue and the recycled callback call
`advertising_start`, the work queue also runs `adv_slow_handler`, and the
connection callbacks come between any two of their steps. `conn_mutex` is held
over the calls of the stack, and the thread which holds it may lock it again.
-/

set_option autoImplicit false

namespace NrfProxy.Advertiser
open NrfProxy.Delayable NrfProxy.ProxyCore NrfProxy.MainState

/-- Who holds the connection object. An attempt's callback is still to come; a
`failed` or `dropped` link's has come and the object is not back yet. -/
inductive Obj where
  | free
  | advertiser (slow filtered : Bool)
  | attempt
  | failed
  | link
  | dropped
  deriving DecidableEq, Repr

def Obj.live : Obj → Bool
  | .advertiser _ _ => true
  | _ => false

inductive StartPc where
  | guard
  | start
  | store (err : ℤ)
  | retry
  | slow
  deriving DecidableEq, Repr

/-- Where `adv_slow_handler` stands. At `nested` the recycled callback runs
inside `bt_le_adv_stop`, at `leave` the handler has only to return. -/
inductive SlowPc where
  | guard
  | stop
  | stopFailed
  | delay
  | nested (pc : StartPc)
  | start
  | store (err : ℤ)
  | check
  | retry
  | leave
  deriving DecidableEq, Repr

inductive RefreshPc where
  | count
  | clear (bonds : ℕ)
  | add (rest : List ℕ) (bonds : ℕ)
  | setMode (bonds : ℕ)
  deriving DecidableEq, Repr

/-- Where a thread stands: `refresh` is `main` before its `advertising_start`. -/
inductive Pc where
  | refresh (pc : RefreshPc)
  | start (pc : StartPc)
  | slow (pc : SlowPc)
  deriving DecidableEq, Repr

inductive Thread where
  | boot
  | work
  | recycled
  deriving DecidableEq, Repr

structure Threads where
  boot : Option Pc
  work : Option Pc
  recycled : Option Pc
  deriving DecidableEq, Repr

def Threads.get (threads : Threads) : Thread → Option Pc
  | .boot => threads.boot
  | .work => threads.work
  | .recycled => threads.recycled

instance : CoeFun Threads (fun _ => Thread → Option Pc) := ⟨Threads.get⟩

def setThread (threads : Threads) (T : Thread) (q : Option Pc) : Threads :=
  match T with
  | .boot => { threads with boot := q }
  | .work => { threads with work := q }
  | .recycled => { threads with recycled := q }

inductive HostTask where
  | callback (pc : HostPc)
  | refresh (pc : RefreshPc)
  deriving DecidableEq, Repr

/-- `owed` counts the recycled callbacks still to be delivered. Bonds and the
accept list are identity addresses. -/
structure Radio where
  main : Main
  obj : Obj
  owed : ℕ
  bonds : List ℕ
  acceptList : List ℕ
  deriving DecidableEq, Repr

structure State where
  radio : Radio
  threads : Threads
  host : HostTask
  deriving DecidableEq, Repr

def armAdvRetry (m : Main) : Main :=
  { m with advRetryWork := reschedule m.now advRetryDelay m.advRetryWork }

def armAdvSlow (delay : ℕ) (m : Main) : Main :=
  { m with advSlowWork := reschedule m.now delay m.advSlowWork }

def advState (m : Main) : LinkState where
  connected := m.currentConn
  advActive := m.advActive
  linkSecure := false
  lockedMode := false

/-- `bt_le_adv_start` with the parameters `adv_params_fast` or `adv_params_slow`
selects; a held object is an error. -/
def btLeAdvStart (slow : Bool) (err : ℤ) (r : Radio) : Option Radio :=
  if err = 0 then
    if r.obj = .free then some { r with obj := .advertiser slow r.main.lockedMode } else none
  else some r

def startNext (r : Radio) (err : ℤ) : StartPc → Option (Radio × Option StartPc)
  | .guard => some (r, if proxyShouldStartAdv (advState r.main) then some .start else none)
  | .start => (btLeAdvStart false err r).map (fun r => (r, some (.store err)))
  | .store err =>
    some ({ r with main := { r.main with advActive := err = 0 } },
      some (if err = 0 then .slow else .retry))
  | .retry => some ({ r with main := armAdvRetry r.main }, none)
  | .slow => some ({ r with main := armAdvSlow advFastDuration r.main }, none)

/-- `sync` says that the recycled callback of a stopped advertiser comes before
`bt_le_adv_stop` returns. -/
def slowNext (r : Radio) (err : ℤ) (sync : Bool) : SlowPc → Option (Radio × Option SlowPc)
  | .guard => some (r, some (if r.main.currentConn || !r.main.advActive then .leave else .stop))
  | .stop =>
    if err = 0 then
      if r.obj.live then
        if sync then some ({ r with obj := .free }, some (.nested .guard))
        else some ({ r with obj := .free, owed := r.owed+1 }, some .start)
      else some (r, some .start)
    else some (r, some .stopFailed)
  | .stopFailed => some (r, some .delay)
  | .delay => some ({ r with main := armAdvSlow advRetryDelay r.main }, some .leave)
  | .nested pc => (startNext r err pc).map (fun c => (c.1, some (c.2.elim .start .nested)))
  | .start => (btLeAdvStart true err r).map (fun r => (r, some (.store err)))
  | .store err =>
    some (if err = 0 then (r, some .leave)
      else ({ r with main := { r.main with advActive := false } }, some .check))
  | .check => some (r, some (if r.main.currentConn then .leave else .retry))
  | .retry => some ({ r with main := armAdvRetry r.main }, some .leave)
  | .leave => some ({ r with main := finishAdvSlow r.main }, none)

def refreshNext (r : Radio) (err : ℤ) : RefreshPc → Radio × Option RefreshPc
  | .count => (r, some (.clear r.bonds.length))
  | .clear bonds =>
    ({ r with acceptList := if err = 0 then [] else r.acceptList },
      some (if 0 < bonds then .add r.bonds bonds else .setMode bonds))
  | .add [] bonds => (r, some (.setMode bonds))
  | .add (addr::rest) bonds =>
    ({ r with acceptList := if err = 0 then r.acceptList++[addr] else r.acceptList },
      some (.add rest bonds))
  | .setMode bonds => ({ r with main := { r.main with lockedMode := 0 < bonds } }, none)

def pcNext (r : Radio) (err : ℤ) (sync : Bool) : Pc → Option (Radio × Option Pc)
  | .refresh pc =>
    some ((refreshNext r err pc).1, some ((refreshNext r err pc).2.elim (.start .guard) .refresh))
  | .start pc => (startNext r err pc).map (fun c => (c.1, c.2.map .start))
  | .slow pc => (slowNext r err sync pc).map (fun c => (c.1, c.2.map .slow))

/-- The thread holds `conn_mutex` between this step and the last. -/
def inside : Pc → Bool
  | .start .start | .start (.store _) => true
  | .slow .stop | .slow .stopFailed | .slow (.nested _) | .slow .start | .slow (.store _) => true
  | _ => false

def locks : Pc → Bool
  | .start .guard | .slow .guard | .slow .check => true
  | _ => false

def hostLocks : HostTask → Bool
  | .callback (.connLock _) | .callback .secLock | .callback .discHeld | .callback .discLock => true
  | _ => false

def locked (threads : Threads) : Bool :=
  threads.boot.any inside || threads.work.any inside || threads.recycled.any inside

inductive Item where
  | advSlow
  | advRetry
  deriving DecidableEq, Repr

def item (m : Main) : Item → Work
  | .advSlow => m.advSlowWork
  | .advRetry => m.advRetryWork

def setItem (m : Main) (w : Work) : Item → Main
  | .advSlow => { m with advSlowWork := w }
  | .advRetry => { m with advRetryWork := w }

/-- Nothing cancels `adv_retry_work`, and its handler is not kept track of. -/
def begun (v : Work) : Item → Work
  | .advSlow => v
  | .advRetry => finish v

def handler : Item → Pc
  | .advSlow => .slow .guard
  | .advRetry => .start .guard

inductive Label where
  | wait (ms : ℕ)
  | expire (w : Item)
  | enter (w : Item)
  | run (T : Thread) (err : ℤ) (sync : Bool)
  | recycled
  | attempt
  | connected (err : ℕ)
  | security (level err : ℕ)
  | pairingComplete (addr : ℕ)
  | disconnected
  | host (err : ℤ)
  | returned
  deriving DecidableEq, Repr

def enters : Label → Bool
  | .enter _ => true
  | _ => false

def hostStep (r : Radio) (err : ℤ) : HostTask → Option (Radio × HostTask)
  | .callback pc => (hostNext r.main pc).map (fun c => ({ r with main := c.1 }, .callback c.2))
  | .refresh pc =>
    some ((refreshNext r err pc).1, (refreshNext r err pc).2.elim (.callback .idle) .refresh)

def step (s : State) : Label → Option State
  | .wait ms =>
    some { s with radio := { s.radio with main := { s.radio.main with now := s.radio.main.now+ms } } }
  | .expire w =>
    (expire s.radio.main.now (item s.radio.main w)).map (fun v =>
      { s with radio := { s.radio with main := setItem s.radio.main v w } })
  | .enter w =>
    if s.threads .work = none then
      (take (item s.radio.main w)).map (fun v =>
        { s with
          radio := { s.radio with main := setItem s.radio.main (begun v w) w }
          threads := setThread s.threads .work (some (handler w)) })
    else none
  | .run T err sync =>
    (s.threads T).bind (fun pc =>
      if locks pc && locked s.threads then none
      else (pcNext s.radio err sync pc).map (fun c =>
        { s with radio := c.1, threads := setThread s.threads T c.2 }))
  | .recycled =>
    if 0 < s.radio.owed ∧ s.threads .recycled = none then
      some { s with
        radio := { s.radio with owed := s.radio.owed-1 }
        threads := setThread s.threads .recycled (some (.start .guard)) }
    else none
  | .attempt =>
    if s.radio.obj.live then some { s with radio := { s.radio with obj := .attempt } } else none
  | .connected err =>
    if s.host = .callback .idle ∧ s.radio.obj = .attempt then
      some { s with
        radio := { s.radio with obj := if err = 0 then .link else .failed }
        host := .callback (.connLock err) }
    else none
  | .security level err =>
    if s.host = .callback .idle ∧ s.radio.obj = .link then
      some { s with host := .callback (.secEntry level err) }
    else none
  | .pairingComplete addr =>
    if s.host = .callback .idle ∧ s.radio.obj = .link then
      some { s with
        radio := { s.radio with bonds := s.radio.bonds.insert addr }
        host := .refresh .count }
    else none
  | .disconnected =>
    if s.host = .callback .idle ∧ s.radio.obj = .link then
      some { s with radio := { s.radio with obj := .dropped }, host := .callback .discHeld }
    else none
  | .host err =>
    if hostLocks s.host && locked s.threads then none
    else (hostStep s.radio err s.host).map (fun c => { s with radio := c.1, host := c.2 })
  | .returned =>
    if s.host = .callback .idle ∧ (s.radio.obj = .failed ∨ s.radio.obj = .dropped) then
      some { s with radio := { s.radio with obj := .free, owed := s.radio.owed+1 } }
    else none

/-- `main` before its `refresh_locked_mode`, with the bonds restored at boot. -/
def init (bonds : List ℕ) : State where
  radio := { main := boot false, obj := .free, owed := 0, bonds, acceptList := [] }
  threads := ⟨some (.refresh .count),none,none⟩
  host := .callback .idle

section Steps

variable {s t : State}

@[simp] theorem setThread_self (threads : Threads) (T : Thread) (q : Option Pc) :
    setThread threads T q T = q := by
  cases T <;> rfl

theorem setThread_of_ne {T T' : Thread} (h : T' ≠ T) (threads : Threads) (q : Option Pc) :
    setThread threads T q T' = threads T' := by
  cases T <;> cases T' <;> first | rfl | contradiction

theorem locked_false {threads : Threads} :
    locked threads = false ↔ ∀ T pc, threads T = some pc → inside pc = false := by
  have hall : locked threads = false ↔ ∀ T, (threads T).any inside = false := by
    simp only [locked, Bool.or_eq_false_iff, and_assoc]
    constructor
    · rintro ⟨hb,hw,hr⟩ T
      cases T <;> assumption
    · exact fun h => ⟨h .boot,h .work,h .recycled⟩
  rw [hall]
  refine forall_congr' (fun T => ?_)
  cases threads T <;> simp

inductive RadioMove (r : Radio) : Radio → Prop where
  | keep : RadioMove r r
  | start {slow : Bool} {err : ℤ} {r' : Radio} (h : btLeAdvStart slow err r = some r') :
      RadioMove r r'
  | stop {owed : ℕ} (h : r.obj.live = true) (ho : r.owed ≤ owed) :
      RadioMove r { r with obj := .free, owed }
  | flag {active : Bool} : RadioMove r { r with main := { r.main with advActive := active } }
  | retry : RadioMove r { r with main := armAdvRetry r.main }
  | slow {delay : ℕ} : RadioMove r { r with main := armAdvSlow delay r.main }
  | leave : RadioMove r { r with main := finishAdvSlow r.main }

theorem startNext_radio {r r' : Radio} {err : ℤ} {pc : StartPc} {q : Option StartPc}
    (h : startNext r err pc = some (r',q)) : RadioMove r r' := by
  cases pc with
  | guard =>
    obtain ⟨rfl,_⟩ := Prod.mk.inj (Option.some.inj h)
    exact .keep
  | start =>
    simp only [startNext, Option.map_eq_some_iff, Prod.mk.injEq] at h
    obtain ⟨d,hd,rfl,_⟩ := h
    exact .start hd
  | store err =>
    obtain ⟨rfl,_⟩ := Prod.mk.inj (Option.some.inj h)
    exact .flag
  | retry =>
    obtain ⟨rfl,_⟩ := Prod.mk.inj (Option.some.inj h)
    exact .retry
  | slow =>
    obtain ⟨rfl,_⟩ := Prod.mk.inj (Option.some.inj h)
    exact .slow

inductive SlowMove (r : Radio) (err : ℤ) : SlowPc → Radio → Option SlowPc → Prop where
  | pass (h : r.main.currentConn = false → r.main.advActive = false) :
      SlowMove r err .guard r (some .leave)
  | enter (hconn : r.main.currentConn = false) (hact : r.main.advActive = true) :
      SlowMove r err .guard r (some .stop)
  | recycled (hl : r.obj.live = true) :
      SlowMove r err .stop { r with obj := .free } (some (.nested .guard))
  | stopped (hl : r.obj.live = true) :
      SlowMove r err .stop { r with obj := .free, owed := r.owed+1 } (some .start)
  | nothing (hl : r.obj.live = false) : SlowMove r err .stop r (some .start)
  | refused : SlowMove r err .stop r (some .stopFailed)
  | stopFailed : SlowMove r err .stopFailed r (some .delay)
  | delay : SlowMove r err .delay { r with main := armAdvSlow advRetryDelay r.main } (some .leave)
  | nested {pc : StartPc} {c : Radio} {p : Option StartPc} (h : startNext r err pc = some (c,p)) :
      SlowMove r err (.nested pc) c (some (p.elim .start .nested))
  | start {c : Radio} (h : btLeAdvStart true err r = some c) :
      SlowMove r err .start c (some (.store err))
  | stored : SlowMove r err (.store 0) r (some .leave)
  | failed {startErr : ℤ} (he : startErr ≠ 0) : SlowMove r err (.store startErr)
      { r with main := { r.main with advActive := false } } (some .check)
  | linked (hconn : r.main.currentConn = true) : SlowMove r err .check r (some .leave)
  | alone (hconn : r.main.currentConn = false) : SlowMove r err .check r (some .retry)
  | retry : SlowMove r err .retry { r with main := armAdvRetry r.main } (some .leave)
  | leave : SlowMove r err .leave { r with main := finishAdvSlow r.main } none

theorem slow_move {r r' : Radio} {err : ℤ} {sync : Bool} {pc : SlowPc} {q : Option SlowPc}
    (h : slowNext r err sync pc = some (r',q)) : SlowMove r err pc r' q := by
  cases pc with
  | guard =>
    obtain ⟨rfl,rfl⟩ := Prod.mk.inj (Option.some.inj h)
    split
    · rename_i hs
      exact .pass (by simpa [Bool.or_eq_true, or_iff_not_imp_left] using hs)
    · rename_i hs
      simp only [Bool.or_eq_true, Bool.not_eq_true', not_or, Bool.not_eq_true,
        Bool.not_eq_false] at hs
      exact .enter hs.1 hs.2
  | stop =>
    simp only [slowNext] at h
    split_ifs at h with _ hl <;> obtain ⟨rfl,rfl⟩ := Prod.mk.inj (Option.some.inj h)
    · exact .recycled hl
    · exact .stopped hl
    · exact .nothing (by simpa using hl)
    · exact .refused
  | nested pc =>
    simp only [slowNext, Option.map_eq_some_iff, Prod.mk.injEq] at h
    obtain ⟨⟨d,p⟩,hd,rfl,rfl⟩ := h
    exact .nested hd
  | start =>
    simp only [slowNext, Option.map_eq_some_iff, Prod.mk.injEq] at h
    obtain ⟨d,hd,rfl,rfl⟩ := h
    exact .start hd
  | store startErr =>
    simp only [slowNext, Option.some.injEq] at h
    split_ifs at h with he <;> obtain ⟨rfl,rfl⟩ := Prod.mk.inj h
    · rw [he]
      exact .stored
    · exact .failed he
  | check =>
    obtain ⟨rfl,rfl⟩ := Prod.mk.inj (Option.some.inj h)
    split
    · rename_i hconn
      exact .linked hconn
    · rename_i hconn
      exact .alone (by simpa using hconn)
  | stopFailed | delay | retry | leave =>
    obtain ⟨rfl,rfl⟩ := Prod.mk.inj (Option.some.inj h)
    constructor

theorem slowNext_radio {r r' : Radio} {err : ℤ} {sync : Bool} {pc : SlowPc} {q : Option SlowPc}
    (h : slowNext r err sync pc = some (r',q)) : RadioMove r r' := by
  cases slow_move h with
  | recycled hl => exact .stop hl (le_refl _)
  | stopped hl => exact .stop hl (Nat.le_succ _)
  | delay => exact .slow
  | nested hd => exact startNext_radio hd
  | start hd => exact .start hd
  | failed _ => exact .flag
  | retry => exact .retry
  | leave => exact .leave
  | pass | enter | nothing | refused | stopFailed | stored | linked | alone => exact .keep

theorem step_wait {ms : ℕ} : step s (.wait ms) = some t ↔
    t = { s with
      radio := { s.radio with main := { s.radio.main with now := s.radio.main.now+ms } } } := by
  simp [step, @eq_comm _ t]

theorem step_expire {w : Item} : step s (.expire w) = some t ↔
    ∃ v, expire s.radio.main.now (item s.radio.main w) = some v ∧
      t = { s with radio := { s.radio with main := setItem s.radio.main v w } } := by
  simp [step, @eq_comm _ t]

theorem step_enter {w : Item} : step s (.enter w) = some t ↔
    s.threads .work = none ∧ ∃ v, take (item s.radio.main w) = some v ∧
      t = { s with
        radio := { s.radio with main := setItem s.radio.main (begun v w) w }
        threads := setThread s.threads .work (some (handler w)) } := by
  simp [step, @eq_comm _ t]

theorem step_run {T : Thread} {err : ℤ} {sync : Bool} : step s (.run T err sync) = some t ↔
    ∃ pc r q, s.threads T = some pc ∧ (locks pc = true → locked s.threads = false) ∧
      pcNext s.radio err sync pc = some (r,q) ∧
      t = { s with radio := r, threads := setThread s.threads T q } := by
  cases hT : s.threads T with
  | none => simp [step, hT]
  | some pc =>
    by_cases hl : locks pc = true ∧ locked s.threads = true
    · simp [step, hT, hl]
    · have hgo : ¬(locks pc && locked s.threads) = true := by simpa using hl
      have hfree : locks pc = true → locked s.threads = false := by simpa using hl
      simp only [step, hT, Option.bind_some, if_neg hgo, Option.map_eq_some_iff, Prod.exists,
        Option.some.injEq, @eq_comm _ t]
      constructor
      · rintro ⟨r,q,hn,ht⟩
        exact ⟨pc,r,q,rfl,hfree,hn,ht⟩
      · rintro ⟨_,r,q,rfl,_,hn,ht⟩
        exact ⟨r,q,hn,ht⟩

theorem step_recycled : step s .recycled = some t ↔
    0 < s.radio.owed ∧ s.threads .recycled = none ∧
      t = { s with
        radio := { s.radio with owed := s.radio.owed-1 }
        threads := setThread s.threads .recycled (some (.start .guard)) } := by
  simp [step, and_assoc, @eq_comm _ t]

theorem step_attempt : step s .attempt = some t ↔
    s.radio.obj.live = true ∧ t = { s with radio := { s.radio with obj := .attempt } } := by
  simp [step, @eq_comm _ t]

theorem step_connected {err : ℕ} : step s (.connected err) = some t ↔
    s.host = .callback .idle ∧ s.radio.obj = .attempt ∧
      t = { s with
        radio := { s.radio with obj := if err = 0 then .link else .failed }
        host := .callback (.connLock err) } := by
  simp [step, and_assoc, @eq_comm _ t]

theorem step_security {level err : ℕ} : step s (.security level err) = some t ↔
    s.host = .callback .idle ∧ s.radio.obj = .link ∧
      t = { s with host := .callback (.secEntry level err) } := by
  simp [step, and_assoc, @eq_comm _ t]

theorem step_pairingComplete {addr : ℕ} : step s (.pairingComplete addr) = some t ↔
    s.host = .callback .idle ∧ s.radio.obj = .link ∧
      t = { s with
        radio := { s.radio with bonds := s.radio.bonds.insert addr }
        host := .refresh .count } := by
  simp [step, and_assoc, @eq_comm _ t]

theorem step_disconnected : step s .disconnected = some t ↔
    s.host = .callback .idle ∧ s.radio.obj = .link ∧
      t = { s with radio := { s.radio with obj := .dropped }, host := .callback .discHeld } := by
  simp [step, and_assoc, @eq_comm _ t]

theorem step_host {err : ℤ} : step s (.host err) = some t ↔
    (hostLocks s.host = true → locked s.threads = false) ∧
      ∃ r h, hostStep s.radio err s.host = some (r,h) ∧ t = { s with radio := r, host := h } := by
  by_cases hl : hostLocks s.host = true ∧ locked s.threads = true
  · simp [step, hl]
  · have hfree : hostLocks s.host = true → locked s.threads = false := by simpa using hl
    have hgo : ¬(hostLocks s.host && locked s.threads) = true := by simpa using hl
    simp only [step, if_neg hgo, Option.map_eq_some_iff, Prod.exists, @eq_comm _ t]
    exact ⟨fun h => ⟨hfree,h⟩,And.right⟩

theorem step_returned : step s .returned = some t ↔
    s.host = .callback .idle ∧ (s.radio.obj = .failed ∨ s.radio.obj = .dropped) ∧
      t = { s with radio := { s.radio with obj := .free, owed := s.radio.owed+1 } } := by
  simp [step, and_assoc, @eq_comm _ t]

end Steps

end NrfProxy.Advertiser
