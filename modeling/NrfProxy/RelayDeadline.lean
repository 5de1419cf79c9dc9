import NrfProxy.MainState
import NrfProxy.Runs

/-!
# The relay deadline over whole runs

Callbacks and handlers are taken as atomic here, with arbitrary delays between
them, and the grace item runs when it is due. The stack keeps one link at a
time and reports security, writes and the disconnect of a link that is up.
-/

set_option autoImplicit false

namespace NrfProxy.RelayDeadline
open NrfProxy.Runs NrfProxy.Delayable NrfProxy.ProxyCore NrfProxy.MainState

inductive Event where
  | wait (ms : ℕ)
  | connected (err : ℕ)
  | securityChanged (level err : ℕ)
  | received (data : List UInt8)
  | disconnected
  | graceExpires
  deriving DecidableEq, Repr

/-- What a NUS write does to the statics of main.c. A baud change and the
forward path act on the UART bridge alone. -/
def nusReceived (port : Bool) (data : List UInt8) (m : Main) : Main :=
  if m.linkSecure then
    match (proxyCmdParse data emptyCmd).kind with
    | .relayEnable => relaySet port true m
    | .relayDisable => relaySet port false m
    | _ => m
  else m

def step (port : Bool) (m : Main) : Event → Option Main
  | .wait ms =>
    if m.relayGraceWork.scheduled.all (fun t => m.now+ms ≤ t) then some { m with now := m.now+ms }
    else none
  | .connected err => if m.currentConn then none else some (onConnected err m)
  | .securityChanged level err => if m.currentConn then some (onSecurityChanged level err m) else none
  | .received data => if m.currentConn then some (nusReceived port data m) else none
  | .disconnected => if m.currentConn then some (onDisconnected m) else none
  | .graceExpires =>
    ((expire m.now m.relayGraceWork).bind take).map
      (fun w => finishRelayGrace (relayGraceDecide port { m with relayGraceWork := w }))

/-- The link which drops had encrypted, or the relay is off when it drops. -/
def EncryptedDrop (m : Main) (e : Event) : Prop :=
  e = .disconnected → m.linkSecure = true ∨ m.relayEnabled = false

instance (m : Main) (e : Event) : Decidable (EncryptedDrop m e) := by
  unfold EncryptedDrop
  infer_instance

/-- While the relay is on without an encrypted link, the grace item is due no
later than `relayGraceMs` after a state of the run which had one. -/
structure Deadline (port : Bool) (us : List Main) (m : Main) : Prop where
  fitted : m.relayEnabled = true → port = true
  secure_conn : m.linkSecure = true → m.currentConn = true
  timer : ∀ t, m.relayGraceWork.scheduled = some t → m.now ≤ t
  unqueued : m.relayGraceWork.queued = false
  due : m.relayEnabled = true → m.encrypted = false →
    ∃ t, m.relayGraceWork.scheduled = some t ∧ ∃ u ∈ us, u.encrypted = true ∧ t ≤ u.now+relayGraceMs

variable {port : Bool} {us : List Main} {m n : Main}

theorem Deadline.frame (hd : Deadline port us m) (hr : n.relayEnabled = m.relayEnabled)
    (hc : n.currentConn = m.currentConn) (hs : n.linkSecure = m.linkSecure)
    (hw : n.relayGraceWork = m.relayGraceWork)
    (ht : ∀ t, n.relayGraceWork.scheduled = some t → n.now ≤ t) : Deadline port (us++[n]) n := by
  refine ⟨by rw [hr]; exact hd.fitted,by rw [hs,hc]; exact hd.secure_conn,ht,
    by rw [hw]; exact hd.unqueued,?_⟩
  intro hn he
  have he' : m.encrypted = false := by simpa [Main.encrypted, hc, hs] using he
  obtain ⟨t,hts,u,hu,hb⟩ := hd.due (hr ▸ hn) he'
  exact ⟨t,by rw [hw]; exact hts,u,List.mem_append_left _ hu,hb⟩

theorem Deadline.of_cancelled (hf : n.relayEnabled = true → port = true)
    (hs : n.linkSecure = true → n.currentConn = true) (hw : n.relayGraceWork.pending = false)
    (hr : n.relayEnabled = true → n.encrypted = true) : Deadline port us n := by
  simp only [Work.pending, Bool.or_eq_false_iff, Option.isSome_eq_false_iff,
    Option.isNone_iff_eq_none] at hw
  refine ⟨hf,hs,by simp [hw.1],hw.2,?_⟩
  intro hn he
  simp [hr hn] at he

theorem wait_deadline (ms : ℕ) (hd : Deadline port us m) (hn : step port m (.wait ms) = some n) :
    Deadline port (us++[n]) n := by
  simp only [step, Option.ite_none_right_eq_some, Option.some.injEq] at hn
  obtain ⟨hle,rfl⟩ := hn
  refine hd.frame rfl rfl rfl rfl ?_
  intro t ht
  have ht' : m.relayGraceWork.scheduled = some t := ht
  simpa [ht'] using hle

theorem connected_deadline (err : ℕ) (hd : Deadline port us m)
    (hn : step port m (.connected err) = some n) : Deadline port (us++[n]) n := by
  simp only [step, Option.ite_none_left_eq_some, Option.some.injEq] at hn
  obtain ⟨hc,rfl⟩ := hn
  by_cases herr : err = 0
  · have he : m.encrypted = false := by simp [Main.encrypted, hc]
    refine ⟨?_,?_,?_,?_,?_⟩ <;>
      simp only [onConnected, herr, if_true, connectedLock, armSecurityTimeout, cancelAdvSlow]
    · exact hd.fitted
    · simp
    · exact hd.timer
    · exact hd.unqueued
    · intro hr _
      obtain ⟨t,ht,u,hu,hb⟩ := hd.due hr he
      exact ⟨t,ht,u,List.mem_append_left _ hu,hb⟩
  · have heq : onConnected err m = { m with advActive := false } := by
      simp [onConnected, connectedLock, herr]
    rw [heq]
    exact hd.frame rfl rfl rfl rfl hd.timer

theorem security_deadline (level err : ℕ) (hd : Deadline port us m)
    (hn : step port m (.securityChanged level err) = some n) : Deadline port (us++[n]) n := by
  simp only [step, Option.ite_none_right_eq_some, Option.some.injEq] at hn
  obtain ⟨hc,rfl⟩ := hn
  unfold onSecurityChanged
  split
  · exact Deadline.of_cancelled hd.fitted (fun _ => hc) rfl
      (fun _ => by simp [Main.encrypted, giveRxDataReady, cancelRelayGrace,
        cancelSecurityTimeout, securedLock, hc])
  · exact hd.frame rfl rfl rfl rfl hd.timer

theorem relaySet_deadline (enable : Bool) (hd : Deadline port us m) (hs : m.linkSecure = true) :
    Deadline port us (relaySet port enable m) := by
  have he : m.encrypted = true := by simp [Main.encrypted, hs, hd.secure_conn hs]
  cases port with
  | false => exact Deadline.of_cancelled hd.fitted hd.secure_conn rfl (fun _ => he)
  | true => exact Deadline.of_cancelled (fun _ => rfl) hd.secure_conn rfl (fun _ => he)

theorem received_deadline (data : List UInt8) (hd : Deadline port us m)
    (hn : step port m (.received data) = some n) : Deadline port (us++[n]) n := by
  simp only [step, Option.ite_none_right_eq_some, Option.some.injEq] at hn
  obtain ⟨_,rfl⟩ := hn
  have hw : Deadline port (us++[nusReceived port data m]) m :=
    ⟨hd.fitted,hd.secure_conn,hd.timer,hd.unqueued,fun hr he => by
      obtain ⟨t,ht,u,hu,hb⟩ := hd.due hr he
      exact ⟨t,ht,u,List.mem_append_left _ hu,hb⟩⟩
  generalize us++[nusReceived port data m] = vs at hw ⊢
  unfold nusReceived
  split
  · rename_i hs
    split
    · exact relaySet_deadline true hw hs
    · exact relaySet_deadline false hw hs
    · exact hw
  · exact hw

/-- The one step which sets a deadline, and the one the assumption is about:
the link which drops is the encrypted state the deadline counts from. -/
theorem disconnected_deadline (hm : m ∈ us) (hd : Deadline port us m)
    (he : EncryptedDrop m .disconnected) (hn : step port m .disconnected = some n) :
    Deadline port (us++[n]) n := by
  simp only [step, Option.ite_none_right_eq_some, Option.some.injEq] at hn
  obtain ⟨hc,rfl⟩ := hn
  by_cases hr : m.relayEnabled = true
  · have hs : m.linkSecure = true := by simpa [hr] using he rfl
    refine ⟨?_,?_,?_,?_,?_⟩ <;>
      simp only [onDisconnected, relayGraceStart, hr, if_true, armRelayGrace,
        cancelSecurityTimeout, disconnectedLock, hc, giveRxDataReady, reschedule]
    · exact fun _ => hd.fitted hr
    · simp
    · intro t ht
      obtain rfl : m.now+relayGraceMs = t := Option.some.inj ht
      omega
    · exact hd.unqueued
    · intro _ _
      exact ⟨_,rfl,m,List.mem_append_left _ hm,by simp [Main.encrypted, hc, hs],le_refl _⟩
  · have hoff : (onDisconnected m).relayEnabled = false := by
      simp [onDisconnected, relayGraceStart, hr, disconnectedLock, cancelSecurityTimeout,
        giveRxDataReady, hc]
    refine ⟨by simp [hoff],?_,?_,?_,by simp [hoff]⟩ <;>
      simp only [onDisconnected, relayGraceStart, hr, cancelSecurityTimeout, disconnectedLock, hc,
        giveRxDataReady, if_true, Bool.false_eq_true, if_false]
    · simp
    · exact hd.timer
    · exact hd.unqueued

theorem grace_deadline (hd : Deadline port us m) (hn : step port m .graceExpires = some n) :
    Deadline port (us++[n]) n := by
  simp only [step, Option.map_eq_some_iff, Option.bind_eq_some_iff] at hn
  obtain ⟨w,⟨v,hv,hw⟩,rfl⟩ := hn
  obtain ⟨_,rfl⟩ := take_some.mp hw
  have hidle : ({ v with queued := false, handler := .returned } : Work).pending = false := by
    simp [Work.pending, expire_scheduled hv]
  unfold relayGraceDecide
  split
  · rename_i h
    simp only [Bool.and_eq_true, Bool.not_eq_true'] at h
    obtain rfl := hd.fitted h.2
    exact Deadline.of_cancelled (fun _ => rfl) hd.secure_conn hidle
      (fun h => by simp [relayApply, finishRelayGrace] at h)
  · rename_i h
    refine Deadline.of_cancelled hd.fitted hd.secure_conn hidle ?_
    intro hr
    simp only [Bool.and_eq_true, Bool.not_eq_true', not_and, Bool.not_eq_true] at h
    by_contra he
    have hoff : m.relayEnabled = false := h (Bool.eq_false_iff.mpr he)
    exact absurd (hoff.symm.trans hr) (by decide)

theorem deadline_step (e : Event) (hm : m ∈ us) (hd : Deadline port us m) (he : EncryptedDrop m e)
    (hn : step port m e = some n) : Deadline port (us++[n]) n := by
  cases e with
  | wait ms => exact wait_deadline ms hd hn
  | connected err => exact connected_deadline err hd hn
  | securityChanged level err => exact security_deadline level err hd hn
  | received data => exact received_deadline data hd hn
  | disconnected => exact disconnected_deadline hm hd he hn
  | graceExpires => exact grace_deadline hd hn

theorem run_deadline (locked : Bool) (es : List Event) (m : Main)
    (h : run (step port) es (boot locked) = some m)
    (he : AllSteps (step port) EncryptedDrop es (boot locked)) :
    Deadline port (states (step port) es (boot locked)) m := by
  refine history (I := fun es m => Deadline port (states (step port) es (boot locked)) m)
    ?_ ?_ h he
  · exact Deadline.of_cancelled (by simp [boot]) (by simp [boot]) rfl (by simp [boot])
  · intro es m e n hr hd hC hs
    rw [states_snoc es e _ m n hr hs]
    exact deadline_step e (last_mem_states es _ m hr) hd hC hs

/-- Where only encrypted links drop while the relay is on, it is off as soon as
no state of the last `relayGraceMs` had an encrypted link. -/
theorem relay_off_after_grace (port locked : Bool) (es : List Event) (m : Main)
    (h : run (step port) es (boot locked) = some m)
    (hdrop : AllSteps (step port) EncryptedDrop es (boot locked))
    (hlapsed : ∀ u ∈ states (step port) es (boot locked),
      u.encrypted = true → u.now+relayGraceMs < m.now) : m.relayEnabled = false := by
  have hd := run_deadline locked es m h hdrop
  have he : m.encrypted = false := by
    by_contra he
    have := hlapsed m (last_mem_states es _ m h) (by simpa using he)
    omega
  by_contra hr
  obtain ⟨t,ht,u,hu,hue,hb⟩ := hd.due (by simpa using hr) he
  have hnow := hd.timer t ht
  have hlate := hlapsed u hu hue
  omega

def heldDrop : List Event :=
  [.connected 0, .securityChanged 2 0, .received (relayPacket true), .disconnected]

def afterHeldDrop : Main :=
  { boot false with rxDataReady := true, relayEnabled := true, relayGraceWork := ⟨some 60000,false,.returned⟩ }

theorem relay_off_after_one_drop :
    run (step true) (heldDrop++[.wait 60000, .graceExpires, .wait 1]) (boot false) =
        some { boot false with now := 60001, rxDataReady := true } ∧
      ({ boot false with now := 60001, rxDataReady := true } : Main).relayEnabled = false :=
  ⟨by decide,relay_off_after_grace true false (heldDrop++[.wait 60000, .graceExpires, .wait 1]) _
    (by decide) (by decide) (by decide)⟩

/-- A link which comes and goes without encrypting moves the timer, so the relay
is still on when nothing has been encrypted for more than the grace. -/
theorem unencrypted_drop_extends_grace :
    ∃ es m, run (step true) es (boot false) = some m ∧
      (∀ u ∈ states (step true) es (boot false), u.encrypted = true → u.now+relayGraceMs < m.now) ∧
      m.relayEnabled = true :=
  ⟨heldDrop++[.wait 59999, .connected 0, .disconnected, .wait 2],
    { afterHeldDrop with now := 60001, relayGraceWork := ⟨some 119999,false,.returned⟩ },
    by decide,by decide,rfl⟩

end NrfProxy.RelayDeadline
