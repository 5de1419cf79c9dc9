import NrfProxy.AdvertiserInvariant
import NrfProxy.LedExclusion

/-!
# What the LEDs are told

A context which has changed the state of the link or of the advertiser tells the
LEDs of it behind its critical section: `advertising_start` and `on_connected` call
`set_status_leds`, and the two advertising functions store the phase of the blink. In
between another context may change the state again. The contexts have the threads and
callbacks of the advertiser, the LEDs those of `set_status_leds` and the blink handler.
-/

set_option autoImplicit false

namespace NrfProxy.StatusDisplay
open NrfProxy.Runs NrfProxy.Delayable NrfProxy.MainState
open NrfProxy.StatusLeds (Status Board Leds Call BlinkPc Caller)
open NrfProxy.Advertiser (Thread Threads Pc StartPc)

/-- A statement which tells the LEDs something: the store to `adv_slow_phase`, or a
call of `set_status_leds`. -/
inductive Notice where
  | phase (slow : Bool)
  | status (state : Status)
  deriving DecidableEq

/-- `todo` holds the notices a context comes to before anything else. -/
structure State where
  adv : Advertiser.State
  leds : StatusLeds.State
  todo : Caller → List Notice

def init (bonds : List ℕ) : State where
  adv := Advertiser.init bonds
  leds := StatusLeds.init
  todo := fun _ => []

def caller : Thread → Caller
  | .boot => .main
  | .work => .work
  | .recycled => .recycled

def startNotices (err : ℤ) : List Notice :=
  if err = 0 then [.phase false,.status .advertising] else [.status .error]

/-- A step which changes what the LEDs are to be told, with its context. -/
def announces (v : Advertiser.State) : Advertiser.Label → Option (Caller × List Notice)
  | .run T _ _ =>
    match v.threads T with
    | some (.start (.store err)) | some (.slow (.nested (.store err))) =>
      some (caller T,startNotices err)
    | some (.slow (.store err)) => if err = 0 then some (caller T,[.phase true]) else none
    | _ => none
  | .host _ =>
    match v.host with
    | .callback (.connLock err) =>
      if err = 0 then some (.connected,[.status .connected]) else none
    | _ => none
  | _ => none

/-- The context which takes the step, where it has told the LEDs what it has to:
`on_connected` comes to `set_status_leds` last. -/
def context (v : Advertiser.State) : Advertiser.Label → Option Caller
  | .run T _ _ => some (caller T)
  | .enter _ => some .work
  | .recycled => some .recycled
  | .connected _ | .security _ _ | .pairingComplete _ | .disconnected | .returned =>
    some .connected
  | .host _ =>
    match v.host with
    | .callback .connCancelSlow | .callback .connArmWatchdog => none
    | _ => some .connected
  | .wait _ | .expire _ | .attempt => none

def busy (s : State) (T : Caller) : Bool := !(s.todo T).isEmpty || (s.leds.calls T).isSome

inductive Label where
  | wait (ms : ℕ)
  | adv (a : Advertiser.Label)
  | tell (T : Caller)
  | leds (a : StatusLeds.Label)
  deriving DecidableEq

def isWait : Advertiser.Label → Bool
  | .wait _ => true
  | _ => false

def ownsLeds : StatusLeds.Label → Bool
  | .expire | .enter | .call _ | .blink => true
  | .wait _ | .begin _ _ | .phase _ => false

def noticeLabel (T : Caller) : Notice → StatusLeds.Label
  | .phase slow => .phase slow
  | .status state => .begin T state

def setTodo (todo : Caller → List Notice) : Option (Caller × List Notice) → Caller → List Notice
  | none => todo
  | some (T,ns) => Function.update todo T ns

/-- The system work queue runs one handler at a time. -/
def step (board : Board) (s : State) : Label → Option State
  | .wait ms =>
    (Advertiser.step s.adv (.wait ms)).bind fun adv =>
      (StatusLeds.step board s.leds (.wait ms)).map fun leds => { s with adv, leds }
  | .adv a =>
    if isWait a = false ∧ (∀ T ∈ context s.adv a, busy s T = false) ∧
        (Advertiser.enters a = true → s.leds.blink = none) then
      (Advertiser.step s.adv a).map fun adv =>
        { s with adv, todo := setTodo s.todo (announces s.adv a) }
    else none
  | .tell T =>
    if s.leds.calls T = none ∧ (T = .connected → s.adv.host = .callback .idle) then
      match s.todo T with
      | [] => none
      | n::rest =>
        (StatusLeds.step board s.leds (noticeLabel T n)).map fun leds =>
          { s with leds, todo := Function.update s.todo T rest }
    else none
  | .leds a =>
    if ownsLeds a = true ∧
        (a = .enter → s.adv.threads .work = none ∧ busy s .work = false) then
      (StatusLeds.step board s.leds a).map fun leds => { s with leds }
    else none

section Steps

variable {board : Board} {s t : State}

theorem step_wait {ms : ℕ} : step board s (.wait ms) = some t ↔
    ∃ adv leds, Advertiser.step s.adv (.wait ms) = some adv ∧
      StatusLeds.step board s.leds (.wait ms) = some leds ∧ t = { s with adv, leds } := by
  simp only [step, Option.bind_eq_some_iff, Option.map_eq_some_iff, @eq_comm _ _ t]
  constructor
  · rintro ⟨adv,ha,leds,hl,ht⟩
    exact ⟨adv,leds,ha,hl,ht⟩
  · rintro ⟨adv,leds,ha,hl,ht⟩
    exact ⟨adv,ha,leds,hl,ht⟩

theorem step_adv {a : Advertiser.Label} : step board s (.adv a) = some t ↔
    isWait a = false ∧ (∀ T ∈ context s.adv a, busy s T = false) ∧
      (Advertiser.enters a = true → s.leds.blink = none) ∧
      ∃ adv, Advertiser.step s.adv a = some adv ∧
        t = { s with adv, todo := setTodo s.todo (announces s.adv a) } := by
  simp [step, and_assoc, @eq_comm _ t]

theorem step_tell {T : Caller} : step board s (.tell T) = some t ↔
    s.leds.calls T = none ∧ (T = .connected → s.adv.host = .callback .idle) ∧
      ∃ n rest leds, s.todo T = n::rest ∧
        StatusLeds.step board s.leds (noticeLabel T n) = some leds ∧
        t = { s with leds, todo := Function.update s.todo T rest } := by
  cases hT : s.todo T with
  | nil => simp [step, hT]
  | cons n rest => simp [step, hT, and_assoc, @eq_comm _ t]

theorem step_leds {a : StatusLeds.Label} : step board s (.leds a) = some t ↔
    ownsLeds a = true ∧ (a = .enter → s.adv.threads .work = none ∧ busy s .work = false) ∧
      ∃ leds, StatusLeds.step board s.leds a = some leds ∧ t = { s with leds } := by
  simp [step, and_assoc, @eq_comm _ t]

theorem busy_false {T : Caller} : busy s T = false ↔ s.todo T = [] ∧ s.leds.calls T = none := by
  simp [busy]

end Steps

end NrfProxy.StatusDisplay
