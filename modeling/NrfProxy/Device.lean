import NrfProxy.Advertiser
import NrfProxy.Firmware
import NrfProxy.Simulation

/-!
# The whole device

All threads of main.c over uart_bridge.c: those of the data paths, those which
advertise and those of the pairing lock, on one set of statics. The system work
queue runs one handler at a time, `conn_mutex` is held over the calls of the
stack, and the connection object goes from the advertiser over the attempt to
the link. Each attempt is some peer's; a filtered advertiser takes only those on
the accept list.
-/

set_option autoImplicit false

namespace NrfProxy.Device
open NrfProxy.Runs NrfProxy.Delayable NrfProxy.MainState NrfProxy.Simulation
open NrfProxy.Advertiser (Obj Radio RefreshPc HostTask hostLocks)

/-- `peer` is the identity address of whoever has made the last attempt, and
`refresh` is the `refresh_locked_mode` of a running `pairing_complete`. -/
structure State where
  fw : Firmware.State
  obj : Obj
  owed : ℕ
  bonds : List ℕ
  acceptList : List ℕ
  threads : Advertiser.Threads
  refresh : Option RefreshPc
  peer : ℕ
  deriving DecidableEq, Repr

/-- `main` before its `refresh_locked_mode`, with the bridge initialised. -/
def init (bonds : List ℕ) (rate : UInt32) : State where
  fw := Firmware.init false rate
  obj := .free
  owed := 0
  bonds := bonds
  acceptList := []
  threads := ⟨some (.refresh .count),none,none⟩
  refresh := none
  peer := 0

/-- `adv` is a step of the advertising threads, `fw` one of the other threads or of
the bridge, and the rest is the stack's, but for the clock. -/
inductive Label where
  | wait (ms : ℕ)
  | fw (a : Firmware.Label)
  | adv (a : Advertiser.Label)
  | attempt (peer : ℕ)
  | connected (err : ℕ)
  | security (level err : ℕ)
  | pairingComplete
  | disconnected
  | host
  | refresh (err : ℤ)
  | returned
  deriving DecidableEq, Repr

def task (s : State) : HostTask :=
  match s.refresh with
  | some pc => .refresh pc
  | none => .callback s.fw.main.host

/-- What the advertising threads see. -/
def advView (s : State) : Advertiser.State where
  radio := ⟨s.fw.main.main,s.obj,s.owed,s.bonds,s.acceptList⟩
  threads := s.threads
  host := task s

def setMain (f : Firmware.State) (m : Main) : Firmware.State :=
  { f with main := { f.main with main := m } }

def setAdv (s : State) (v : Advertiser.State) : State where
  fw := setMain s.fw v.radio.main
  obj := v.radio.obj
  owed := v.radio.owed
  bonds := v.radio.bonds
  acceptList := v.radio.acceptList
  threads := v.threads
  refresh :=
    match v.host with
    | .refresh pc => some pc
    | .callback _ => none
  peer := s.peer

def queueIdle (s : State) : Bool :=
  s.fw.main.work == .idle && s.fw.uart.handler == .idle && s.threads.work.isNone

def enters : Firmware.Label → Bool
  | .main (.enter _) | .uart .enter => true
  | _ => false

def locks (f : Firmware.State) : Firmware.Label → Bool
  | .main (.work _) =>
    match f.main.work with
    | .graceDecide | .watchdogLock => true
    | _ => false
  | .main (.rx _) =>
    match f.main.rx with
    | .gate _ | .relayApply _ _ => true
    | _ => false
  | .main (.writer _ _) => f.main.writer == .snapshot
  | _ => false

def ownsFw : Firmware.Label → Bool
  | .wait _ => false
  | .main (.wait _) | .main (.connect _) | .main (.security _ _) | .main .disconnect | .main .host
  | .main .recycle => false
  | _ => true

def ownsAdv : Advertiser.Label → Bool
  | .expire _ | .enter _ | .run _ _ _ | .recycled => true
  | _ => false

def step (port : Bool) (s : State) : Label → Option State
  | .wait ms => (Firmware.step port s.fw (.wait ms)).map (fun f => { s with fw := f })
  | .fw a =>
    if ownsFw a = true ∧ (enters a = true → queueIdle s = true) ∧
        (locks s.fw a = true → Advertiser.locked s.threads = false) then
      (Firmware.step port s.fw a).map (fun f => { s with fw := f })
    else none
  | .adv a =>
    if ownsAdv a = true ∧ (Advertiser.enters a = true → queueIdle s = true) then
      (Advertiser.step (advView s) a).map (setAdv s)
    else none
  | .attempt peer =>
    match s.obj with
    | .advertiser _ filtered =>
      if filtered = true → peer ∈ s.acceptList then some { s with obj := .attempt, peer } else none
    | _ => none
  | .connected err =>
    if s.refresh = none ∧ s.obj = .attempt then
      (Firmware.step port s.fw (.main (.connect err))).map (fun f =>
        { s with fw := f, obj := if err = 0 then .link else .failed })
    else none
  | .security level err =>
    if s.refresh = none ∧ s.obj = .link then
      (Firmware.step port s.fw (.main (.security level err))).map (fun f => { s with fw := f })
    else none
  | .pairingComplete =>
    if task s = .callback .idle ∧ s.obj = .link then
      some { s with bonds := s.bonds.insert s.peer, refresh := some .count }
    else none
  | .disconnected =>
    if s.refresh = none ∧ s.obj = .link then
      (Firmware.step port s.fw (.main .disconnect)).map (fun f =>
        { s with fw := f, obj := .dropped })
    else none
  | .host =>
    if hostLocks (task s) = true → Advertiser.locked s.threads = false then
      (Firmware.step port s.fw (.main .host)).map (fun f => { s with fw := f })
    else none
  | .refresh err =>
    if s.refresh.isSome then (Advertiser.step (advView s) (.host err)).map (setAdv s) else none
  | .returned =>
    if task s = .callback .idle then
      match s.obj with
      | .failed => some { s with obj := .free, owed := s.owed+1 }
      | .dropped =>
        (Firmware.step port s.fw (.main .recycle)).map (fun f =>
          { s with fw := f, obj := .free, owed := s.owed+1 })
      | _ => none
    else none

section Steps

variable {port : Bool} {s t : State}

theorem step_wait {ms : ℕ} : step port s (.wait ms) = some t ↔
    ∃ f, Firmware.step port s.fw (.wait ms) = some f ∧ t = { s with fw := f } := by
  simp [step, @eq_comm _ t]

theorem step_fw {a : Firmware.Label} : step port s (.fw a) = some t ↔
    ownsFw a = true ∧ (enters a = true → queueIdle s = true) ∧
      (locks s.fw a = true → Advertiser.locked s.threads = false) ∧
      ∃ f, Firmware.step port s.fw a = some f ∧ t = { s with fw := f } := by
  simp [step, and_assoc, @eq_comm _ t]

theorem step_adv {a : Advertiser.Label} : step port s (.adv a) = some t ↔
    ownsAdv a = true ∧ (Advertiser.enters a = true → queueIdle s = true) ∧
      ∃ v, Advertiser.step (advView s) a = some v ∧ t = setAdv s v := by
  simp [step, and_assoc, @eq_comm _ t]

theorem step_attempt {peer : ℕ} : step port s (.attempt peer) = some t ↔
    ∃ slow filtered, s.obj = .advertiser slow filtered ∧
      (filtered = true → peer ∈ s.acceptList) ∧ t = { s with obj := .attempt, peer } := by
  cases h : s.obj with
  | advertiser slow filtered =>
    simp only [step, h, Option.ite_none_right_eq_some, Option.some.injEq, Obj.advertiser.injEq]
    constructor
    · rintro ⟨hp,rfl⟩
      exact ⟨slow,filtered,⟨rfl,rfl⟩,hp,rfl⟩
    · rintro ⟨_,_,⟨rfl,rfl⟩,hp,rfl⟩
      exact ⟨hp,rfl⟩
  | _ => simp [step, h]

theorem step_connected {err : ℕ} : step port s (.connected err) = some t ↔
    s.refresh = none ∧ s.obj = .attempt ∧
      ∃ f, Firmware.step port s.fw (.main (.connect err)) = some f ∧
        t = { s with fw := f, obj := if err = 0 then .link else .failed } := by
  simp [step, and_assoc, @eq_comm _ t]

theorem step_security {level err : ℕ} : step port s (.security level err) = some t ↔
    s.refresh = none ∧ s.obj = .link ∧
      ∃ f, Firmware.step port s.fw (.main (.security level err)) = some f ∧
        t = { s with fw := f } := by
  simp [step, and_assoc, @eq_comm _ t]

theorem step_pairingComplete : step port s .pairingComplete = some t ↔
    task s = .callback .idle ∧ s.obj = .link ∧
      t = { s with bonds := s.bonds.insert s.peer, refresh := some .count } := by
  simp [step, and_assoc, @eq_comm _ t]

theorem step_disconnected : step port s .disconnected = some t ↔
    s.refresh = none ∧ s.obj = .link ∧
      ∃ f, Firmware.step port s.fw (.main .disconnect) = some f ∧
        t = { s with fw := f, obj := .dropped } := by
  simp [step, and_assoc, @eq_comm _ t]

theorem step_host : step port s .host = some t ↔
    (hostLocks (task s) = true → Advertiser.locked s.threads = false) ∧
      ∃ f, Firmware.step port s.fw (.main .host) = some f ∧ t = { s with fw := f } := by
  simp [step, @eq_comm _ t]

theorem step_refresh {err : ℤ} : step port s (.refresh err) = some t ↔
    s.refresh.isSome = true ∧
      ∃ v, Advertiser.step (advView s) (.host err) = some v ∧ t = setAdv s v := by
  simp [step, @eq_comm _ t]

theorem step_returned : step port s .returned = some t ↔
    task s = .callback .idle ∧
      (s.obj = .failed ∧ t = { s with obj := .free, owed := s.owed+1 } ∨
        s.obj = .dropped ∧ ∃ f, Firmware.step port s.fw (.main .recycle) = some f ∧
          t = { s with fw := f, obj := .free, owed := s.owed+1 }) := by
  cases h : s.obj <;> simp [step, h, @eq_comm _ t]

end Steps

end NrfProxy.Device
