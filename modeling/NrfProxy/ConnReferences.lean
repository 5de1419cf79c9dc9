import NrfProxy.EncryptionGate

/-!
# References to the connection object

`current_conn`, the writer and the handler of the watchdog hold a reference
each. The object serves one link after the other, and the stack hands it on
only when the last reference is gone. A thread which is in a call on the object
therefore calls on a live object, of the link it took its reference on.
-/

set_option autoImplicit false

namespace NrfProxy.ConnReferences
open NrfProxy.Runs NrfProxy.ProxyCore NrfProxy.MainState NrfProxy.MainThreads
open NrfProxy.ThreadInvariant NrfProxy.EncryptionGate

/-- The writer is at `bt_gatt_get_mtu` or `bt_nus_send`, or the watchdog's
handler at `bt_conn_disconnect`. -/
def onObject (s : State) : Bool :=
  (match s.writer with
    | .mtu | .send _ _ _ => true
    | _ => false) || s.work == .watchdogDisconnect

/-- The next statement of a thread or of a callback is a `bt_conn_unref`. -/
def dropsRef (s : State) : Bool :=
  (match s.writer with
    | .unref _ => true
    | _ => false) || s.work == .watchdogUnref || (s.host == .discLock && s.main.currentConn)

def movedOn (s : State) : Prop := writerRefs s.writer = 0 ∧ workRefs s.work = 0

variable {port : Bool} {s t : State} {a : Label}

theorem onObject_ref (hc : Counted s) (ho : onObject s = true) : 0 < s.main.connRefs := by
  simp only [onObject, Bool.or_eq_true, beq_iff_eq] at ho
  rw [Counted] at hc
  rcases ho with ho | ho
  · have : writerRefs s.writer = 1 := by
      cases hw : s.writer <;> simp [hw] at ho
      all_goals rfl
    omega
  · rw [ho] at hc
    simp only [workRefs] at hc
    omega

theorem dropsRef_ref (hc : Counted s) (hd : dropsRef s = true) : 0 < s.main.connRefs := by
  simp only [dropsRef, Bool.or_eq_true, beq_iff_eq, Bool.and_eq_true] at hd
  rw [Counted] at hc
  rcases hd with (hd | hd) | hd
  · have : writerRefs s.writer = 1 := by
      cases hw : s.writer <;> simp [hw] at hd
      rfl
    omega
  · rw [hd] at hc
    simp only [workRefs] at hc
    omega
  · rw [hd.2, Bool.toNat_true] at hc
    omega

theorem step_refs (h : step port s a = some t) :
    t.main.connRefs ≤ s.main.connRefs ∨ s.main.currentConn = true ∨ t.main.currentConn = true := by
  cases main_cases h with
  | same hm | wait hm | give hm =>
    rw [hm]
    exact Or.inl (le_refl _)
  | item w v _ hm =>
    rw [hm]
    cases w <;> exact Or.inl (le_refl _)
  | rx hn => exact Or.inl (rxNext_refs hn).le
  | writer hn =>
    rcases writerNext_ref hn with ⟨hr,_⟩ | ⟨_,_,_,hconn,_⟩ | ⟨hr,_⟩
    · exact Or.inl hr.le
    · exact Or.inr (Or.inl hconn)
    · exact Or.inl (hr.le.trans (Nat.sub_le _ _))
  | work hn =>
    cases hk : s.work <;> simp only [hk, workNext, reduceCtorEq, Option.some.injEq] at hn
    case graceDecide =>
      obtain ⟨hm,_⟩ := Prod.mk.inj hn
      rw [← hm]
      apply Or.inl
      unfold relayGraceDecide relayApply
      split <;> [split; skip] <;> exact le_refl _
    case watchdogLock =>
      split at hn <;> rename_i hu <;> obtain ⟨hm,_⟩ := Prod.mk.inj hn
      · simp only [Bool.and_eq_true] at hu
        exact Or.inr (Or.inl hu.1)
      · exact Or.inl (by rw [hm])
    case watchdogDisconnect =>
      obtain ⟨hm,_⟩ := Prod.mk.inj hn
      exact Or.inl (by rw [hm])
    case watchdogUnref =>
      obtain ⟨hm,_⟩ := Prod.mk.inj hn
      rw [← hm]
      exact Or.inl (Nat.sub_le _ _)
    case watchdogReturn =>
      obtain ⟨hm,_⟩ := Prod.mk.inj hn
      rw [← hm]
      exact Or.inl (le_refl _)
  | host hn =>
    cases hp : s.host <;> simp only [hp, hostNext, reduceCtorEq, Option.some.injEq] at hn <;>
      obtain ⟨hm,_⟩ := Prod.mk.inj hn <;> rw [← hm]
    case connLock err =>
      unfold connectedLock
      split
      · exact Or.inr (Or.inr rfl)
      · exact Or.inl (le_refl _)
    case discLock =>
      apply Or.inl
      unfold disconnectedLock
      split
      · exact Nat.sub_le _ _
      · exact le_refl _
    all_goals exact Or.inl (le_refl _)

/-- Every reference has its holder, and a referenced object is out of the pool. -/
structure Referenced (s : State) : Prop where
  wf : Wf s
  counted : Counted s
  allocated : 0 < s.main.connRefs → s.link.isSome = true

theorem init_referenced (locked : Bool) : Referenced (init locked) :=
  ⟨init_wf locked,init_counted locked,by simp [init, boot]⟩

theorem step_referenced (hs : Referenced s) (h : step port s a = some t) : Referenced t := by
  have hw := step_wf hs.wf h
  have hkept (hr : 0 < s.main.connRefs) : t.link.isSome = true := by
    obtain ⟨l,hl⟩ := Option.isSome_iff_exists.mp (hs.allocated hr)
    rw [link_kept hr hl h]
    rfl
  apply Referenced.mk hw (step_counted hs.wf hs.counted h)
  intro hr
  rcases step_refs h with hle | hconn | hconn
  · exact hkept (hr.trans_le hle)
  · apply hkept
    have hc := hs.counted
    rw [Counted, hconn, Bool.toNat_true] at hc
    omega
  · exact hw.conn_link hconn

theorem Referenced.released (hs : Referenced s) (hh : s.host = .idle) (hu : s.up = false)
    (hm : movedOn s) : s.main.connRefs = 0 := by
  have hc := hs.counted
  rw [Counted, hs.wf.idle_conn hh, hu, hm.1, hm.2] at hc
  exact hc

/-- The count is the number of holders; the two threads call on a referenced
object, which stays with its link, and no reference is dropped twice; and after
`on_disconnected` the object can be recycled as soon as both have moved on. -/
theorem references_balanced (port locked : Bool) (es : List Label) (s : State)
    (h : run (step port) es (init locked) = some s) :
    Counted s ∧ (onObject s = true → 0 < s.main.connRefs) ∧
    (dropsRef s = true → 0 < s.main.connRefs) ∧
    (0 < s.main.connRefs → ∃ l, s.link = some l ∧
      ∀ a t, step port s a = some t → t.link = some l) ∧
    (s.host = .idle → s.up = false → movedOn s → s.main.connRefs = 0 ∧
      (s.link.isSome = true → s.rx = .idle → step port s .recycle = some { s with link := none })) := by
  have hs : Referenced s :=
    invariant (I := Referenced) (init_referenced locked) (fun _ _ _ => step_referenced) h
  refine ⟨hs.counted,onObject_ref hs.counted,dropsRef_ref hs.counted,?_,?_⟩
  · intro hr
    obtain ⟨l,hl⟩ := Option.isSome_iff_exists.mp (hs.allocated hr)
    exact ⟨l,hl,fun a t ht => link_kept hr hl ht⟩
  · intro hh hu hm
    have hz := hs.released hh hu hm
    exact ⟨hz,fun hl hx => step_recycle.mpr ⟨hh,hl,hu,hz,hx,rfl⟩⟩

def dropDuringSend : List Label :=
  oneByte++[.disconnect]++List.replicate 4 .host++[.writer 0 (-128), .writer 0 0, .writer 0 0,
    .writer 0 0]

def afterDrop : State :=
  { init false with
    main := { boot false with rxDataReady := true }
    stream := { (init false).stream with intake := [(7,true)], fates := [(7,.dropped (-128))] }
    link := some 0
    links := 1 }

theorem references_balanced_drop : afterDrop.main.connRefs = 0 ∧
    step true afterDrop .recycle = some { afterDrop with link := none } := by
  have hb := references_balanced true false dropDuringSend afterDrop (by decide)
  obtain ⟨hz,hr⟩ := hb.2.2.2.2 rfl rfl ⟨rfl,rfl⟩
  exact ⟨hz,hr rfl rfl⟩

end NrfProxy.ConnReferences
