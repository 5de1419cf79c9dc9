import NrfProxy.Delayable
import NrfProxy.ProxyCore

/-!
# The statics of main.c and its connection callbacks

The variables below are the ones the callbacks, the work handlers and the
writer share. Each function is one `conn_mutex` critical section or one kernel
call; a callback is the sequence of them, with a program counter between any
two. The firmware has one connection object, so that a `bt_conn` pointer is
either NULL or that object.
-/

set_option autoImplicit false

namespace NrfProxy.MainState
open NrfProxy.Delayable NrfProxy.ProxyCore

structure Main where
  now : ℕ
  currentConn : Bool
  connRefs : ℕ
  linkSecure : Bool
  advActive : Bool
  lockedMode : Bool
  relayEnabled : Bool
  rxDataReady : Bool
  relayGraceWork : Work
  securityTimeoutWork : Work
  advSlowWork : Work
  advRetryWork : Work
  deriving DecidableEq, Repr

def boot (locked : Bool) : Main where
  now := 0
  currentConn := false
  connRefs := 0
  linkSecure := false
  advActive := false
  lockedMode := locked
  relayEnabled := false
  rxDataReady := false
  relayGraceWork := idle
  securityTimeoutWork := idle
  advSlowWork := idle
  advRetryWork := idle

def relayGraceMs : ℕ := 60000

def advFastDuration : ℕ := 30000

def advRetryDelay : ℕ := 1000

def btSecurityL2 : ℕ := 2

/-- There is an encrypted link: what the grace handler reads as `back`. -/
def Main.encrypted (m : Main) : Bool := m.currentConn && m.linkSecure

/-- `port` tells whether the board defines the relay-control alias. -/
def relayApply (port enable : Bool) (m : Main) : Main :=
  if port then { m with relayEnabled := enable } else m

def cancelRelayGrace (m : Main) : Main := { m with relayGraceWork := cancel m.relayGraceWork }

def finishRelayGrace (m : Main) : Main := { m with relayGraceWork := finish m.relayGraceWork }

def relaySet (port enable : Bool) (m : Main) : Main := relayApply port enable (cancelRelayGrace m)

def relayGraceDecide (port : Bool) (m : Main) : Main :=
  if !m.encrypted && m.relayEnabled then relayApply port false m else m

def armRelayGrace (m : Main) : Main :=
  { m with relayGraceWork := reschedule m.now relayGraceMs m.relayGraceWork }

def cancelSecurityTimeout (m : Main) : Main :=
  { m with securityTimeoutWork := cancel m.securityTimeoutWork }

def finishSecurityTimeout (m : Main) : Main :=
  { m with securityTimeoutWork := finish m.securityTimeoutWork }

def armSecurityTimeout (m : Main) : Main :=
  { m with securityTimeoutWork :=
      reschedule m.now (proxySecurityWindowMs m.lockedMode) m.securityTimeoutWork }

def cancelAdvSlow (m : Main) : Main := { m with advSlowWork := cancel m.advSlowWork }

def finishAdvSlow (m : Main) : Main := { m with advSlowWork := finish m.advSlowWork }

def giveRxDataReady (m : Main) : Main := { m with rxDataReady := true }

def connectedLock (err : ℕ) (m : Main) : Main :=
  if err = 0 then
    { m with advActive := false, currentConn := true, connRefs := m.connRefs+1, linkSecure := false }
  else { m with advActive := false }

def securedLock (m : Main) : Main := { m with linkSecure := true }

def disconnectedLock (m : Main) : Main :=
  if m.currentConn then
    { m with currentConn := false, connRefs := m.connRefs-1, linkSecure := false }
  else { m with linkSecure := false }

/-- Where the running connection callback stands. `conn` is `on_connected`,
`sec` is `on_security_changed` and `disc` is `on_disconnected`. -/
inductive HostPc where
  | idle
  | connLock (err : ℕ)
  | connCancelSlow
  | connArmWatchdog
  | secEntry (level err : ℕ)
  | secLock
  | secCancelWatchdog
  | secCancelGrace
  | secGive
  | discHeld
  | discArm
  | discCancelWatchdog
  | discLock
  | discGive
  deriving DecidableEq, Repr

def hostNext (m : Main) : HostPc → Option (Main × HostPc)
  | .idle => none
  | .connLock err => some (connectedLock err m, if err = 0 then .connCancelSlow else .idle)
  | .connCancelSlow => some (cancelAdvSlow m, .connArmWatchdog)
  | .connArmWatchdog => some (armSecurityTimeout m, .idle)
  | .secEntry level err => some (m, if err = 0 ∧ btSecurityL2 ≤ level then .secLock else .idle)
  | .secLock => some (securedLock m, .secCancelWatchdog)
  | .secCancelWatchdog => some (cancelSecurityTimeout m, .secCancelGrace)
  | .secCancelGrace => some (cancelRelayGrace m, .secGive)
  | .secGive => some (giveRxDataReady m, .idle)
  | .discHeld => some (m, if m.relayEnabled then .discArm else .discCancelWatchdog)
  | .discArm => some (armRelayGrace m, .discCancelWatchdog)
  | .discCancelWatchdog => some (cancelSecurityTimeout m, .discLock)
  | .discLock => some (disconnectedLock m, .discGive)
  | .discGive => some (giveRxDataReady m, .idle)

structure HostKeeps (m n : Main) (p : HostPc) : Prop where
  now : n.now = m.now
  lockedMode : n.lockedMode = m.lockedMode
  advRetryWork : n.advRetryWork = m.advRetryWork
  advSlowWork : p ≠ .connCancelSlow → n.advSlowWork = m.advSlowWork

theorem hostNext_keeps {m n : Main} {p q : HostPc} (h : hostNext m p = some (n,q)) :
    HostKeeps m n p := by
  cases p with
  | idle => simp [hostNext] at h
  | connLock err =>
    obtain ⟨rfl,_⟩ := Prod.mk.inj (Option.some.inj h)
    unfold connectedLock
    split <;> exact ⟨rfl,rfl,rfl,fun _ => rfl⟩
  | connCancelSlow =>
    obtain ⟨rfl,_⟩ := Prod.mk.inj (Option.some.inj h)
    exact ⟨rfl,rfl,rfl,by simp⟩
  | discLock =>
    obtain ⟨rfl,_⟩ := Prod.mk.inj (Option.some.inj h)
    unfold disconnectedLock
    split <;> exact ⟨rfl,rfl,rfl,fun _ => rfl⟩
  | _ =>
    obtain ⟨rfl,_⟩ := Prod.mk.inj (Option.some.inj h)
    exact ⟨rfl,rfl,rfl,fun _ => rfl⟩

def onConnected (err : ℕ) (m : Main) : Main :=
  if err = 0 then armSecurityTimeout (cancelAdvSlow (connectedLock err m)) else connectedLock err m

def onSecurityChanged (level err : ℕ) (m : Main) : Main :=
  if err = 0 ∧ btSecurityL2 ≤ level then
    giveRxDataReady (cancelRelayGrace (cancelSecurityTimeout (securedLock m)))
  else m

def relayGraceStart (m : Main) : Main := if m.relayEnabled then armRelayGrace m else m

def onDisconnected (m : Main) : Main :=
  giveRxDataReady (disconnectedLock (cancelSecurityTimeout (relayGraceStart m)))

/-- Run the callback to its end: no callback has more than five statements. -/
def hostRun : ℕ → Main × HostPc → Main × HostPc
  | 0, c => c
  | n+1, c => (hostNext c.1 c.2).elim c (hostRun n)

theorem hostRun_connected (err : ℕ) (m : Main) :
    hostRun 5 (m, .connLock err) = (onConnected err m, .idle) := by
  by_cases h : err = 0 <;> simp [hostRun, hostNext, onConnected, h]

theorem hostRun_securityChanged (level err : ℕ) (m : Main) :
    hostRun 5 (m, .secEntry level err) = (onSecurityChanged level err m, .idle) := by
  by_cases h : err = 0 ∧ btSecurityL2 ≤ level <;>
    simp [hostRun, hostNext, onSecurityChanged, h]

theorem hostRun_disconnected (m : Main) :
    hostRun 5 (m, .discHeld) = (onDisconnected m, .idle) := by
  by_cases h : m.relayEnabled = true <;>
    simp [hostRun, hostNext, onDisconnected, relayGraceStart, h]

end NrfProxy.MainState
