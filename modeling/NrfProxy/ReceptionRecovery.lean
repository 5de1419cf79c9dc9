import NrfProxy.DeviceProgress
import NrfProxy.UartTransmit

/-!
# Reception comes back

While the driver has left the slab one buffer, reception which has stopped can be on
again. Where somebody attends to it nothing new has to begin: what runs ends, the
retry item comes, and it takes no longer than the two time-outs. Where nobody does, a
baud change has to come. When the driver has refused all buffers there is no way back
at all.
-/

set_option autoImplicit false

namespace NrfProxy.ReceptionRecovery
open NrfProxy.Runs NrfProxy.Delayable NrfProxy.UartBridge NrfProxy.UartReception

structure Timed (s : State) : Prop where
  retry : ∀ d, s.bridge.retryWork.scheduled = some d → d ≤ s.bridge.now+uartRxRetryDelay
  sem : ∀ baud d, s.call = .takeSem baud d → d ≤ s.bridge.now+quiesceTimeout

variable {s t : State} {a : Label} {b c : Bridge} {err : ℤ} {p q : CallPc}

/-- The timer of the item is as it was, has been taken back, or has been set anew. -/
def Rearmed (b c : Bridge) : Prop :=
  c.now = b.now ∧ (c.retryWork.scheduled = b.retryWork.scheduled ∨ c.retryWork.scheduled = none ∨
    c.retryWork.scheduled = some (b.now+uartRxRetryDelay))

theorem Rearmed.due (h : Rearmed b c)
    (hb : ∀ d, b.retryWork.scheduled = some d → d ≤ b.now+uartRxRetryDelay) :
    ∀ d, c.retryWork.scheduled = some d → d ≤ c.now+uartRxRetryDelay := by
  obtain ⟨hnow,hw | hw | hw⟩ := h <;> rw [hnow, hw]
  · exact hb
  · simp
  · rintro d hd
    exact (Option.some.inj hd).ge

theorem callNext_rearmed (h : callNext b err p = some (c,q)) : Rearmed b c := by
  cases call_move h with
  | alloc hd =>
    obtain ⟨_,_,_,rfl⟩ := slabAlloc_some.mp hd
    exact ⟨rfl,Or.inl rfl⟩
  | enabled hd | enableFailed hd =>
    rcases uartRxEnable_some.mp hd with ⟨_,_,rfl⟩ | ⟨_,_,rfl⟩ | ⟨_,rfl⟩ <;> exact ⟨rfl,Or.inl rfl⟩
  | staged hd =>
    obtain ⟨_,_,_,_,rfl⟩ := UartTransmit.txStage_some.mp hd
    exact ⟨rfl,Or.inl rfl⟩
  | started | startFailed =>
    exact ⟨DeviceProgress.uartTx_now _ _ _,Or.inl (by rw [(uartTx_rx _ _ _).retryWork])⟩
  | disabled | wasOff | refused =>
    unfold uartRxDisable
    split <;> exact ⟨rfl,Or.inl rfl⟩
  | configure =>
    unfold uartConfigure
    split <;> exact ⟨rfl,Or.inl rfl⟩
  | cancel => exact ⟨rfl,Or.inr (Or.inl rfl)⟩
  | schedule => exact ⟨rfl,Or.inr (Or.inr rfl)⟩
  | _ => exact ⟨rfl,Or.inl rfl⟩

theorem handlerNext_rearmed {p q : HandlerPc} (h : handlerNext b err p = some (c,q)) :
    Rearmed b c := by
  cases handler_move h with
  | schedule => exact ⟨rfl,Or.inr (Or.inr rfl)⟩
  | _ => exact ⟨rfl,Or.inl rfl⟩

theorem uartCb_rearmed {e : Event} (h : uartCb b e = some c) : Rearmed b c := by
  refine ⟨DeviceProgress.uartCb_now h,?_⟩
  cases uartCb_reaction h with
  | keep hk _ => exact Or.inl (by rw [hk.retryWork])
  | refill =>
    unfold uartRxBufRsp
    split <;> exact Or.inl rfl
  | delayed => exact Or.inr (Or.inr rfl)
  | _ => exact Or.inl rfl

theorem callNext_sem (h : callNext b err p = some (c,q)) {baud : UInt32} {d : ℕ}
    (hq : q = .takeSem baud d) : d = b.now+quiesceTimeout := by
  cases call_move h <;> simp_all

theorem step_timed (hs : Timed s) (h : step s a = some t) : Timed t := by
  cases a with
  | wait ms =>
    obtain rfl := step_wait.mp h
    exact ⟨fun d hd => le_trans (hs.retry d hd) (by dsimp only; omega),
      fun baud d hd => le_trans (hs.sem baud d hd) (by dsimp only; omega)⟩
  | expire =>
    obtain ⟨w,hw,rfl⟩ := step_expire.mp h
    exact ⟨by simp [expire_scheduled hw],hs.sem⟩
  | enter =>
    obtain ⟨_,w,hw,rfl⟩ := step_enter.mp h
    obtain ⟨_,rfl⟩ := take_some.mp hw
    exact ⟨hs.retry,hs.sem⟩
  | handler err =>
    obtain ⟨b,pc,hn,rfl⟩ := step_handler.mp h
    have hr := handlerNext_rearmed hn
    exact ⟨hr.due hs.retry,by rw [hr.1]; exact hs.sem⟩
  | send data =>
    obtain ⟨_,rfl⟩ := step_send.mp h
    exact ⟨hs.retry,by simp⟩
  | setBaud baud =>
    obtain ⟨_,rfl⟩ := step_setBaud.mp h
    exact ⟨hs.retry,by simp⟩
  | call err =>
    obtain ⟨b,pc,hn,rfl⟩ := step_call.mp h
    have hr := callNext_rearmed hn
    refine ⟨hr.due hs.retry,fun baud d hd => ?_⟩
    rw [callNext_sem hn hd, hr.1]
  | isr e =>
    obtain ⟨b,hb,rfl⟩ := step_isr.mp h
    have hr := uartCb_rearmed hb
    exact ⟨hr.due hs.retry,by rw [hr.1]; exact hs.sem⟩

/-- The item of a handler which has returned can be submitted. -/
def Returned (s : State) : Prop := s.handler = .idle → s.bridge.retryWork.handler = .returned

theorem handlerNext_returned {p q : HandlerPc} (h : handlerNext b err p = some (c,q))
    (hq : q = .idle) : c.retryWork.handler = .returned := by
  cases handler_move h with
  | leave => rfl
  | _ => simp at hq

theorem callNext_returned (hb : b.retryWork.handler = .returned)
    (h : callNext b err p = some (c,q)) : c.retryWork.handler = .returned := by
  cases call_move h with
  | cancel => simp [cancel, hb]
  | alloc hd =>
    obtain ⟨_,_,_,rfl⟩ := slabAlloc_some.mp hd
    exact hb
  | enabled hd | enableFailed hd =>
    rcases uartRxEnable_some.mp hd with ⟨_,_,rfl⟩ | ⟨_,_,rfl⟩ | ⟨_,rfl⟩ <;> exact hb
  | staged hd => exact (congrArg Work.handler (txStage_rx hd).retryWork).trans hb
  | started | startFailed => exact (congrArg Work.handler (uartTx_rx _ _ _).retryWork).trans hb
  | disabled | wasOff | refused =>
    unfold uartRxDisable
    split <;> exact hb
  | configure =>
    unfold uartConfigure
    split <;> exact hb
  | _ => exact hb

theorem uartCb_handler {e : Event} (h : uartCb b e = some c) :
    c.retryWork.handler = b.retryWork.handler := by
  cases uartCb_reaction h with
  | keep hk _ => exact congrArg Work.handler hk.retryWork
  | refill =>
    unfold uartRxBufRsp
    split <;> rfl
  | _ => rfl

theorem step_returned (hs : Returned s) (h : step s a = some t) : Returned t := by
  cases a with
  | wait ms =>
    obtain rfl := step_wait.mp h
    exact hs
  | expire =>
    obtain ⟨w,hw,rfl⟩ := step_expire.mp h
    exact fun hh => (expire_handler hw).trans (hs hh)
  | enter =>
    obtain ⟨_,w,_,rfl⟩ := step_enter.mp h
    exact fun hh => by simp at hh
  | handler err =>
    obtain ⟨b,pc,hn,rfl⟩ := step_handler.mp h
    exact handlerNext_returned hn
  | send data =>
    obtain ⟨_,rfl⟩ := step_send.mp h
    exact hs
  | setBaud baud =>
    obtain ⟨_,rfl⟩ := step_setBaud.mp h
    exact hs
  | call err =>
    obtain ⟨b,pc,hn,rfl⟩ := step_call.mp h
    exact fun hh => callNext_returned (hs hh) hn
  | isr e =>
    obtain ⟨b,hb,rfl⟩ := step_isr.mp h
    exact fun hh => (uartCb_handler hb).trans (hs hh)

/-- What is known of every state of a run. -/
structure Sound (s : State) : Prop where
  flagged : Flagged s
  kept : Kept s.bridge (handlerBufs s.handler++callBufs s.call)
  timed : Timed s
  returned : Returned s

theorem step_sound (hs : Sound s) (h : step s a = some t) : Sound t :=
  ⟨step_flagged hs.flagged h,(step_kept hs.kept h).1,step_timed hs.timed h,
    step_returned hs.returned h⟩

theorem run_sound {rate : UInt32} {es : List Label} (h : run step es (init rate) = some s) :
    Sound s := by
  have hstart : run step [] (init rate) = some (init rate) := rfl
  refine invariant (I := Sound) ⟨init_flagged rate,(run_kept hstart).1,?_,fun _ => rfl⟩
    (fun _ _ _ => step_sound) h
  exact ⟨by simp [init, Delayable.idle],by simp [init]⟩

/-- No call begins, and the driver asks for no buffer. -/
def quiet : Label → Bool
  | .send _ | .setBaud _ | .isr (.rxBufRequest _ _) => false
  | _ => true

theorem quiet_refused (hs : Sound s) (hq : quiet a = true) (h : step s a = some t) :
    t.bridge.refused = s.bridge.refused := by
  cases a with
  | wait ms =>
    obtain rfl := step_wait.mp h
    rfl
  | expire =>
    obtain ⟨w,_,rfl⟩ := step_expire.mp h
    rfl
  | enter =>
    obtain ⟨_,w,_,rfl⟩ := step_enter.mp h
    rfl
  | handler err =>
    obtain ⟨b,pc,hn,rfl⟩ := step_handler.mp h
    exact (handlerNext_kept hs.kept hn).2
  | call err =>
    obtain ⟨b,pc,hn,rfl⟩ := step_call.mp h
    exact (callNext_kept (kept_swap hs.kept) hn).2
  | isr e =>
    obtain ⟨b,hb,rfl⟩ := step_isr.mp h
    cases uartCb_reaction hb with
    | keep hk _ => exact hk.refused
    | refill => simp [quiet] at hq
    | _ => rfl
  | _ => simp [quiet] at hq

/-- The driver has refused every buffer, and reception is not on. -/
def Dark (s : State) : Prop := s.bridge.reception ≠ .on ∧ ∀ buf, buf ∈ s.bridge.refused

theorem Sound.none_left (hs : Sound s) (hd : ∀ buf, buf ∈ s.bridge.refused) :
    s.bridge.free = [] ∧ handlerBufs s.handler = [] ∧ callBufs s.call = [] := by
  have hone (buf : Buf) : buf ∉ s.bridge.free ∧ buf ∉ handlerBufs s.handler ∧
      buf ∉ callBufs s.call := by
    have hk := hs.kept buf
    have hpos := List.count_pos_iff.mpr (hd buf)
    rw [List.count_append] at hk
    refine ⟨?_,?_,?_⟩ <;> intro hm <;> have := List.count_pos_iff.mpr hm <;> omega
  exact ⟨List.eq_nil_iff_forall_not_mem.mpr (fun buf => (hone buf).1),
    List.eq_nil_iff_forall_not_mem.mpr (fun buf => (hone buf).2.1),
    List.eq_nil_iff_forall_not_mem.mpr (fun buf => (hone buf).2.2)⟩

theorem step_dark (hs : Sound s) (hd : Dark s) (h : step s a = some t) : Dark t := by
  obtain ⟨hoff,hall⟩ := hd
  obtain ⟨hfree,hh,hc⟩ := hs.none_left hall
  cases a with
  | wait ms =>
    obtain rfl := step_wait.mp h
    exact ⟨hoff,hall⟩
  | expire =>
    obtain ⟨w,_,rfl⟩ := step_expire.mp h
    exact ⟨hoff,hall⟩
  | enter =>
    obtain ⟨_,w,_,rfl⟩ := step_enter.mp h
    exact ⟨hoff,hall⟩
  | handler err =>
    obtain ⟨b,pc,hn,rfl⟩ := step_handler.mp h
    refine ⟨?_,by rw [(handlerNext_kept hs.kept hn).2]; exact hall⟩
    generalize s.handler = p at hn hh
    cases handler_move hn with
    | enabled => simp [handlerBufs] at hh
    | _ => exact hoff
  | send data =>
    obtain ⟨_,rfl⟩ := step_send.mp h
    exact ⟨hoff,hall⟩
  | setBaud baud =>
    obtain ⟨_,rfl⟩ := step_setBaud.mp h
    exact ⟨hoff,hall⟩
  | call err =>
    obtain ⟨b,pc,hn,rfl⟩ := step_call.mp h
    refine ⟨?_,by rw [(callNext_kept (kept_swap hs.kept) hn).2]; exact hall⟩
    generalize s.call = p at hn hc
    cases call_move hn with
    | enabled | enableFailed => simp [callBufs] at hc
    | disabled | wasOff | refused =>
      unfold uartRxDisable
      split
      · simp
      · exact hoff
    | configure =>
      unfold uartConfigure
      split <;> exact hoff
    | alloc hd =>
      obtain ⟨_,_,_,rfl⟩ := slabAlloc_some.mp hd
      exact hoff
    | staged hd =>
      rw [(txStage_rx hd).reception]
      exact hoff
    | started | startFailed =>
      rw [(uartTx_rx _ err _).reception]
      exact hoff
    | _ => exact hoff
  | isr e =>
    obtain ⟨b,hb,rfl⟩ := step_isr.mp h
    cases uartCb_reaction hb with
    | keep hk _ => exact ⟨by rw [hk.reception]; exact hoff,by rw [hk.refused]; exact hall⟩
    | refill hf | restarted hf => simp [hfree] at hf
    | released => exact ⟨hoff,hall⟩
    | handed | delayed => exact ⟨by simp [scheduleRetry],hall⟩

theorem run_dark {as : List Label} (hs : Sound s) (hd : Dark s) (h : run step as s = some t) :
    Dark t :=
  (invariant (I := fun r => Sound r ∧ Dark r) ⟨hs,hd⟩
    (fun _ _ _ hi ht => ⟨step_sound hi.1 ht,step_dark hi.1 hi.2 ht⟩) h).2

theorem dead_same (hd : Dead s) (hb : SameRx s.bridge t.bridge) (hh : retrying t.handler = false)
    (hc : restarting t.call = false) : Dead t :=
  ⟨hb.reception.trans hd.off,(congrArg Work.pending hb.retryWork).trans hd.none,hh,hc⟩

/-- Of itself nothing brings reception back which nobody attends to. -/
theorem step_dead (hd : Dead s) (hq : quiet a = true) (h : step s a = some t) : Dead t := by
  obtain ⟨hoff,hnone,hh,hc⟩ := hd
  cases a with
  | wait ms =>
    obtain rfl := step_wait.mp h
    exact ⟨hoff,hnone,hh,hc⟩
  | expire =>
    obtain ⟨w,hw,_⟩ := step_expire.mp h
    simp [expire_was_pending hw] at hnone
  | enter =>
    obtain ⟨_,w,hw,_⟩ := step_enter.mp h
    simp [Work.pending, (take_some.mp hw).1] at hnone
  | handler err =>
    obtain ⟨b,pc,hn,rfl⟩ := step_handler.mp h
    generalize s.handler = p at hn hh
    cases handler_move hn with
    | freeBusy | clearLatch | leave => exact ⟨hoff,hnone,rfl,hc⟩
    | _ => simp [retrying] at hh
  | call err =>
    obtain ⟨b,pc,hn,rfl⟩ := step_call.mp h
    have hd : Dead s := ⟨hoff,hnone,hh,hc⟩
    generalize s.call = p at hn hc
    cases call_move hn with
    | put | nothing | countDrop | keepErr | txIdle => exact ⟨hoff,hnone,hh,rfl⟩
    | staged hs => exact dead_same hd (txStage_rx hs) hh rfl
    | started | startFailed => exact dead_same hd (uartTx_rx _ _ _) hh rfl
    | _ => simp [restarting, owns] at hc
  | isr e =>
    obtain ⟨b,hb,rfl⟩ := step_isr.mp h
    cases e with
    | rxDisabled => simp [uartCb, hoff] at hb
    | rxBufRequest => simp [quiet] at hq
    | rxBufReleased =>
      cases uartCb_reaction hb with
      | keep hk _ => exact dead_same ⟨hoff,hnone,hh,hc⟩ hk hh hc
      | released => exact ⟨hoff,hnone,hh,hc⟩
    | _ =>
      cases uartCb_reaction hb with
      | keep hk _ => exact dead_same ⟨hoff,hnone,hh,hc⟩ hk hh hc
  | _ => simp [quiet] at hq

theorem dead_of_not_attended (h : ¬Attended s) : Dead s := by
  simp only [Attended, Covered, Classical.not_imp, not_or, not_not, Bool.not_eq_true] at h
  exact ⟨h.2.1,h.2.2.1,h.1,h.2.2.2⟩

theorem run_dead {as : List Label} (hd : Dead s) (hq : ∀ a ∈ as, quiet a = true)
    (h : run step as s = some t) : Dead t :=
  invariant_of (C := fun _ a => quiet a = true) hd (fun _ _ _ => step_dead) h (allSteps_label s hq)

def Quietly (s t : State) : Prop := ∃ as, (∀ a ∈ as, quiet a = true) ∧ run step as s = some t

theorem Quietly.trans {u : State} (h : Quietly s t) (k : Quietly t u) : Quietly s u := by
  obtain ⟨as,ha,ht⟩ := h
  obtain ⟨bs,hb,hu⟩ := k
  refine ⟨as++bs,?_,by rw [run_append, ht]; exact hu⟩
  intro a hm
  rcases List.mem_append.mp hm with hm | hm
  · exact ha a hm
  · exact hb a hm

theorem quietly_step (hq : quiet a = true) (h : step s a = some t) : Quietly s t :=
  ⟨[a],by simpa using hq,by simp [run, h]⟩

theorem Quietly.sound (hs : Sound s) (h : Quietly s t) :
    Sound t ∧ t.bridge.refused = s.bridge.refused := by
  obtain ⟨as,ha,ht⟩ := h
  exact invariant_of (C := fun _ a => quiet a = true)
    (I := fun r => Sound r ∧ r.bridge.refused = s.bridge.refused) ⟨hs,rfl⟩
    (fun _ _ _ hi hq hst => ⟨step_sound hi.1 hst,(quiet_refused hi.1 hq hst).trans hi.2⟩) ht
    (allSteps_label s ha)

/-- How long the semaphore can still be waited for. -/
def semDebt (now : ℕ) : CallPc → ℕ
  | .takeSem _ deadline => deadline-now
  | .cancel _ | .setFlag _ | .abortTx _ | .resetSem _ | .disableRx _ => quiesceTimeout
  | _ => 0

theorem callNext_debt (h : callNext b err p = some (c,q)) : semDebt b.now q ≤ semDebt b.now p := by
  cases call_move h <;> simp [semDebt]

theorem call_ends (hs : Sound s) : ∃ t, Quietly s t ∧ t.call = .idle ∧
    t.bridge.now ≤ s.bridge.now+quiesceTimeout ∧ (Attended s → Attended t) := by
  have h0 : s.bridge.now+semDebt s.bridge.now s.call ≤ s.bridge.now+quiesceTimeout := by
    cases hc : s.call with
    | takeSem baud d =>
      have := hs.timed.sem baud d hc
      simp only [semDebt]
      omega
    | _ => simp [semDebt]
  have hrest : ∃ as t, (∀ a ∈ as, quiet a = true) ∧ run step as s = some t ∧
      (t.bridge.now+semDebt t.bridge.now t.call ≤ s.bridge.now+quiesceTimeout ∧ Flagged t ∧
        (Attended s → Attended t)) ∧ t.call = .idle := by
    refine exists_rest (fun r => DeviceProgress.callLeft r.bridge.now r.call) ?_ ⟨h0,hs.flagged,id⟩
    rintro r ⟨hr,hf,hat⟩ hne
    have hkeep {a : Label} {u : State} (hsub : Submitted r a) (hu : step r a = some u) :
        Flagged u ∧ (Attended s → Attended u) :=
      ⟨step_flagged hf hu,fun hs => step_attended hf (hat hs) hsub hu⟩
    rcases DeviceProgress.callNext_total r.bridge hne with ⟨c,q,hn⟩ | ⟨baud,d,hc,hd⟩
    · have hdebt := callNext_debt hn
      have hnow := (callNext_rearmed hn).1
      have hlt := DeviceProgress.callNext_left hn
      have hst : step r (.call 1) = some _ := step_call.mpr ⟨c,q,hn,rfl⟩
      refine ⟨.call 1,_,rfl,hst,⟨?_,hkeep (a := .call 1) trivial hst⟩,hlt⟩
      dsimp only
      rw [hnow]
      omega
    · have hst : step r (.wait (d-r.bridge.now)) = some _ := step_wait.mpr rfl
      refine ⟨_,_,rfl,hst,⟨?_,hkeep (a := .wait _) trivial hst⟩,?_⟩
      · simp only [hc, semDebt] at hr ⊢
        omega
      · have hle : d ≤ r.bridge.now+(d-r.bridge.now) := by omega
        simp [DeviceProgress.callLeft, hc, hle, Nat.not_le_of_lt hd]
  obtain ⟨as,t,hq,ht,⟨hnow,_,hat⟩,hi⟩ := hrest
  exact ⟨t,⟨as,hq,ht⟩,hi,by omega,hat⟩

theorem handler_ends (hs : Sound s) (ha : Attended s) (hi : s.call = .idle) :
    ∃ t, Quietly s t ∧ t.handler = .idle ∧ t.call = .idle ∧ t.bridge.now = s.bridge.now ∧
      Attended t := by
  have hrest : ∃ as t, (∀ a ∈ as, quiet a = true) ∧ run step as s = some t ∧
      (t.call = .idle ∧ t.bridge.now = s.bridge.now ∧ Flagged t ∧ Attended t) ∧
        t.handler = .idle := by
    refine exists_rest (fun r => DeviceProgress.handlerLeft r.handler) ?_ ⟨hi,rfl,hs.flagged,ha⟩
    rintro r ⟨hc,hnow,hf,hat⟩ hne
    obtain ⟨c,q,hn⟩ := DeviceProgress.handlerNext_total r.bridge hne
    have hst : step r (.handler 1) = some _ := step_handler.mpr ⟨c,q,hn,rfl⟩
    exact ⟨_,_,rfl,hst,⟨hc,(DeviceProgress.handlerNext_now hn).trans hnow,step_flagged hf hst,
      step_attended (a := .handler 1) hf hat trivial hst⟩,DeviceProgress.handlerNext_left hn⟩
  obtain ⟨as,t,hq,ht,⟨hc,hnow,_,hat⟩,hh⟩ := hrest
  exact ⟨t,⟨as,hq,ht⟩,hh,hc,hnow,hat⟩

structure Waiting (s : State) : Prop where
  handler : s.handler = .idle
  call : s.call = .idle
  off : s.bridge.reception = .off
  pending : s.bridge.retryWork.pending = true

theorem Sound.unflagged (hs : Sound s) (hc : s.call = .idle) : s.bridge.reconfiguring = false :=
  hs.flagged.trans (congrArg owns hc)

theorem comes_to_wait (hs : Sound s) (ha : Attended s) (hh : s.handler = .idle)
    (hc : s.call = .idle) :
    ∃ t, Quietly s t ∧ t.bridge.now = s.bridge.now ∧ (t.bridge.reception = .on ∨ Waiting t) := by
  cases hr : s.bridge.reception with
  | on => exact ⟨s,⟨[],by simp,rfl⟩,rfl,Or.inl hr⟩
  | off =>
    refine ⟨s,⟨[],by simp,rfl⟩,rfl,Or.inr ⟨hh,hc,hr,?_⟩⟩
    rcases ha (by rw [hh]; rfl) with hon | hp | hre
    · exact absurd hr hon
    · exact hp
    · simp [hc, restarting, owns] at hre
  | stopping =>
    -- the driver's event finds no buffer
    have hcb : uartCb s.bridge (.rxDisabled 1 0) =
        some (scheduleRetry { s.bridge with reception := .off }) := by
      cases hf : s.bridge.free <;>
        simp [uartCb, hr, hs.unflagged hc, restartRx, slabAlloc, hf, scheduleRetry]
    exact ⟨_,quietly_step rfl (step_isr.mpr ⟨_,hcb,rfl⟩),rfl,Or.inr ⟨hh,hc,rfl,rfl⟩⟩

theorem buffer_back (hs : Sound s) (hw : Waiting s) (hb : ∃ buf, buf ∉ s.bridge.refused) :
    ∃ t, Quietly s t ∧ t.bridge.now = s.bridge.now ∧ Waiting t ∧ t.bridge.free ≠ [] := by
  by_cases hf : s.bridge.free = []
  · obtain ⟨buf,hbuf⟩ := hb
    have hk := hs.kept buf
    have hmem : buf ∈ s.bridge.owned := by
      rw [hw.handler, hw.call, hf, List.count_eq_zero_of_not_mem hbuf] at hk
      exact List.count_pos_iff.mp (by simpa [handlerBufs, callBufs] using hk.ge)
    have hcb : uartCb s.bridge (.rxBufReleased (some buf)) =
        some (slabFree buf { s.bridge with owned := s.bridge.owned.erase buf }) := by
      simp [uartCb, hmem]
    exact ⟨_,quietly_step rfl (step_isr.mpr ⟨_,hcb,rfl⟩),rfl,
      ⟨hw.handler,hw.call,hw.off,hw.pending⟩,by simp [slabFree]⟩
  · exact ⟨s,⟨[],by simp,rfl⟩,rfl,hw,hf⟩

theorem item_queued (hs : Sound s) (hw : Waiting s) (hf : s.bridge.free ≠ []) :
    ∃ t, Quietly s t ∧ t.bridge.now ≤ s.bridge.now+uartRxRetryDelay ∧ Waiting t ∧
      t.bridge.free ≠ [] ∧ t.bridge.retryWork.queued = true := by
  cases hq : s.bridge.retryWork.queued with
  | true => exact ⟨s,⟨[],by simp,rfl⟩,Nat.le_add_right _ _,hw,hf,hq⟩
  | false =>
    have hp := hw.pending
    rw [Work.pending, hq, Bool.or_false, Option.isSome_iff_exists] at hp
    obtain ⟨d,hd⟩ := hp
    have hdue := hs.timed.retry d hd
    have hwait : step s (.wait (d-s.bridge.now)) =
        some { s with bridge := { s.bridge with now := s.bridge.now+(d-s.bridge.now) } } :=
      step_wait.mpr rfl
    have hle : d ≤ s.bridge.now+(d-s.bridge.now) := by omega
    have hexp := expire_some.mpr ⟨⟨d,hd,hle⟩,rfl⟩
    -- the handler has returned, and the timer is not refused
    have hret : s.bridge.retryWork.handler ≠ .canceling := by simp [hs.returned hw.handler]
    exact ⟨_,(quietly_step rfl hwait).trans (quietly_step rfl (step_expire.mpr ⟨_,hexp,rfl⟩)),
      by dsimp only; omega,⟨hw.handler,hw.call,hw.off,expire_pending hret hexp⟩,hf,
      congrArg Work.queued (expire_queued hret hexp)⟩

theorem handler_restarts (hs : Sound s) (hw : Waiting s) (hf : s.bridge.free ≠ [])
    (hq : s.bridge.retryWork.queued = true) :
    ∃ t, Quietly s t ∧ t.bridge.now = s.bridge.now ∧ t.bridge.reception = .on := by
  obtain ⟨buf,free,hfree⟩ := List.exists_cons_of_ne_nil hf
  have hr := hs.unflagged hw.call
  let b := { s.bridge with
    retryWork := { s.bridge.retryWork with queued := false, handler := .running } }
  have henter : step s .enter = some { s with bridge := b, handler := .entry } :=
    step_enter.mpr ⟨hw.handler,_,take_some.mpr ⟨hq,rfl⟩,rfl⟩
  have hentry : handlerNext b 0 .entry = some (b,.alloc) := by simp [handlerNext, b, hr]
  have halloc : handlerNext b 0 .alloc = some ({ b with free },.enable buf) := by
    simp [handlerNext, slabAlloc, b, hfree]
  have henable : handlerNext { b with free } 0 (.enable buf) =
      some ({ b with free, reception := .on, owned := buf::b.owned },.clearLatch) := by
    simp [handlerNext, uartRxEnable, uartRxEnableSucceeded, b, hw.off, EBUSY]
  exact ⟨_,(((quietly_step rfl henter).trans
    (quietly_step rfl (step_handler.mpr ⟨_,_,hentry,rfl⟩))).trans
    (quietly_step rfl (step_handler.mpr ⟨_,_,halloc,rfl⟩))).trans
    (quietly_step rfl (step_handler.mpr ⟨_,_,henable,rfl⟩)),rfl,rfl⟩

theorem attended_recovers (hs : Sound s) (ha : Attended s) (hb : ∃ buf, buf ∉ s.bridge.refused) :
    ∃ t, Quietly s t ∧ t.bridge.reception = .on ∧
      t.bridge.now ≤ s.bridge.now+(quiesceTimeout+uartRxRetryDelay) := by
  -- the call ends, then the handler
  obtain ⟨s₁,h₁,hc₁,hn₁,ha₁⟩ := call_ends hs
  obtain ⟨s₂,h₂,hh₂,hc₂,hn₂,ha₂⟩ := handler_ends (h₁.sound hs).1 (ha₁ ha) hc₁
  have hq₂ := h₁.trans h₂
  obtain ⟨s₃,h₃,hn₃,hon | hw₃⟩ := comes_to_wait (hq₂.sound hs).1 ha₂ hh₂ hc₂
  · exact ⟨s₃,hq₂.trans h₃,hon,by omega⟩
  -- the item waits for a buffer and for its time
  have hq₃ := hq₂.trans h₃
  obtain ⟨hs₃,hr₃⟩ := hq₃.sound hs
  obtain ⟨s₄,h₄,hn₄,hw₄,hf₄⟩ := buffer_back hs₃ hw₃ (hr₃ ▸ hb)
  have hq₄ := hq₃.trans h₄
  obtain ⟨s₅,h₅,hn₅,hw₅,hf₅,hqueued⟩ := item_queued (hq₄.sound hs).1 hw₄ hf₄
  have hq₅ := hq₄.trans h₅
  obtain ⟨t,h₆,hn₆,hon⟩ := handler_restarts (hq₅.sound hs).1 hw₅ hf₅ hqueued
  exact ⟨t,hq₅.trans h₆,hon,by omega⟩

theorem setBaud_attends (hs : Sound s) : ∃ as t, run step as s = some t ∧ Sound t ∧
    Attended t ∧ t.bridge.refused = s.bridge.refused := by
  obtain ⟨s₁,h₁,hc₁,_⟩ := call_ends hs
  obtain ⟨hs₁,hr₁⟩ := h₁.sound hs
  obtain ⟨as,_,hrun⟩ := h₁
  have hst : step s₁ (.setBaud 0) = some { s₁ with call := .cancel 0 } :=
    step_setBaud.mpr ⟨hc₁,rfl⟩
  exact ⟨as++[.setBaud 0],_,by rw [run_snoc, hrun]; exact hst,step_sound hs₁ hst,
    fun _ => Or.inr (Or.inr rfl),hr₁⟩

/-- From every reachable state reception can come back exactly where the driver has
left the slab a buffer, and it does so in what is going on already, with no call begun
and no buffer asked for, exactly where somebody attends to it besides: then no time
passes but the two time-outs. -/
theorem reception_recovers_iff (rate : UInt32) (es : List Label) (s : State)
    (h : run step es (init rate) = some s) (hoff : s.bridge.reception ≠ .on) :
    ((∃ as t, run step as s = some t ∧ t.bridge.reception = .on) ↔
      ∃ buf, buf ∉ s.bridge.refused) ∧
    ((∃ as t, (∀ a ∈ as, quiet a = true) ∧ run step as s = some t ∧ t.bridge.reception = .on) ↔
      (∃ buf, buf ∉ s.bridge.refused) ∧ Attended s) ∧
    ((∃ buf, buf ∉ s.bridge.refused) → Attended s →
      ∃ as t, (∀ a ∈ as, quiet a = true) ∧ run step as s = some t ∧ t.bridge.reception = .on ∧
        t.bridge.now ≤ s.bridge.now+(quiesceTimeout+uartRxRetryDelay)) := by
  have hs := run_sound h
  have hbuf {as : List Label} {t : State} (ht : run step as s = some t)
      (hon : t.bridge.reception = .on) : ∃ buf, buf ∉ s.bridge.refused := by
    by_contra hnone
    exact (run_dark hs ⟨hoff,by simpa using hnone⟩ ht).1 hon
  refine ⟨⟨fun ⟨as,t,ht,hon⟩ => hbuf ht hon,fun hb => ?_⟩,⟨?_,?_⟩,fun hb ha => ?_⟩
  · obtain ⟨as,s₁,hs₁,hsound,ha,hr⟩ := setBaud_attends hs
    obtain ⟨t,⟨bs,_,ht⟩,hon,_⟩ := attended_recovers hsound ha (hr ▸ hb)
    exact ⟨as++bs,t,by rw [run_append, hs₁]; exact ht,hon⟩
  · rintro ⟨as,t,hq,ht,hon⟩
    refine ⟨hbuf ht hon,?_⟩
    by_contra ha
    have hd := (run_dead (dead_of_not_attended ha) hq ht).off
    simp [hon] at hd
  · rintro ⟨hb,ha⟩
    obtain ⟨t,⟨as,hq,ht⟩,hon,_⟩ := attended_recovers hs ha hb
    exact ⟨as,t,hq,ht,hon⟩
  · obtain ⟨t,⟨as,hq,ht⟩,hon,hnow⟩ := attended_recovers hs ha hb
    exact ⟨as,t,hq,ht,hon,hnow⟩

/-- The driver asks three times and then stops: all buffers are its own. -/
theorem reception_recovers_iff_starved :
    ∃ as t, (∀ a ∈ as, quiet a = true) ∧ run step as starved = some t ∧
      t.bridge.reception = .on ∧
      t.bridge.now ≤ starved.bridge.now+(quiesceTimeout+uartRxRetryDelay) :=
  (reception_recovers_iff 115200 starving starved (by decide) (by decide)).2.2 ⟨0,by decide⟩
    (fun _ => Or.inr (Or.inl rfl))

end NrfProxy.ReceptionRecovery
