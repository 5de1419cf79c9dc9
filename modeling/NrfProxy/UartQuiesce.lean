import NrfProxy.UartTransmit

/-!
# The quiet before `uart_configure`

`uart_bridge_set_baud` raises its flag, aborts the transfer and waits for the
receiver alone. The transfer is over in time where its completion comes before
the wait ends, or where there is no wait because the receiver was off and no
transfer was in flight. A retry handler which has read the flag before it was
raised may still enable reception behind it.
-/

set_option autoImplicit false

namespace NrfProxy.UartQuiesce
open NrfProxy.Runs NrfProxy.Delayable NrfProxy.UartBridge NrfProxy.UartReception
open NrfProxy.UartTransmit

def enables (s : State) : Label → List (Buf × ℤ)
  | .handler err =>
    match s.handler with
    | .enable buf => [(buf,err)]
    | _ => []
  | .call err =>
    match s.call with
    | .enable buf _ => [(buf,err)]
    | _ => []
  | .isr (.rxDisabled allocErr enableErr) =>
    if s.bridge.reconfiguring then []
    else (slabAlloc allocErr s.bridge).toList.map (fun c => (c.1,enableErr))
  | _ => []

/-- `uart_configure` finds the receiver off and every transfer reported, and from
the flag to its end no `uart_tx` and no `uart_rx_enable` is called. -/
structure Quiet (s : State) : Prop where
  configured : ∀ baud, s.call = .configure baud →
    s.bridge.reconfiguring = true ∧ s.bridge.reception = .off ∧ s.bridge.inFlight = []
  held : s.bridge.reconfiguring = true → ∀ a t, step s a = some t →
    starts s a = [] ∧ enables s a = []

/-- The handler has read the flag and its `uart_rx_enable` is to come. -/
def enabling : HandlerPc → Bool
  | .alloc | .enable _ => true
  | _ => false

def InOrder (b : Bridge) (handler : HandlerPc) (err : ℤ) : CallPc → Prop
  | .setFlag _ => enabling handler = false
  | .disableRx _ => err = -EFAULT → b.inFlight = []
  | .takeSem _ _ => err = 0 → b.inFlight = []
  | _ => True

/-- The flag is not raised under an enabling handler, and the wait for the
receiver does not end before the transfer. -/
def Orderly (s : State) : Label → Prop
  | .call err => InOrder s.bridge s.handler err s.call
  | _ => True

/-- `-EFAULT` is the answer for a receiver which is off. -/
def FaultOff (b : Bridge) (err : ℤ) : CallPc → Prop
  | .disableRx _ => err = -EFAULT → b.reception = .off
  | _ => True

def DisableAnswers (s : State) : Label → Prop
  | .call err => FaultOff s.bridge err s.call
  | _ => True

instance (b : Bridge) (hp : HandlerPc) (err : ℤ) : ∀ pc, Decidable (InOrder b hp err pc)
  | .setFlag _ => inferInstanceAs (Decidable (_ = _))
  | .disableRx _ | .takeSem _ _ => inferInstanceAs (Decidable (_ → _))
  | .idle | .put _ | .cancel _ | .abortTx _ | .resetSem _ | .getConfig _ | .configure _
  | .clearFlag _ | .alloc _ | .enable _ _ | .freeFailed _ _ | .schedule _ | .kick _ | .tx _ _
  | .countDrop _ _ _ | .keepErr _ _ | .txIdle _ => .isTrue trivial

instance (b : Bridge) (err : ℤ) : ∀ pc, Decidable (FaultOff b err pc)
  | .disableRx _ => inferInstanceAs (Decidable (_ → _))
  | .idle | .put _ | .cancel _ | .setFlag _ | .abortTx _ | .resetSem _ | .takeSem _ _
  | .getConfig _ | .configure _ | .clearFlag _ | .alloc _ | .enable _ _ | .freeFailed _ _
  | .schedule _ | .kick _ | .tx _ _ | .countDrop _ _ _ | .keepErr _ _ | .txIdle _ =>
    .isTrue trivial

instance (s : State) : ∀ a, Decidable (Orderly s a)
  | .call err => inferInstanceAs (Decidable (InOrder s.bridge s.handler err s.call))
  | .wait _ | .expire | .enter | .handler _ | .send _ | .setBaud _ | .isr _ => .isTrue trivial

instance (s : State) : ∀ a, Decidable (DisableAnswers s a)
  | .call err => inferInstanceAs (Decidable (FaultOff s.bridge err s.call))
  | .wait _ | .expire | .enter | .handler _ | .send _ | .setBaud _ | .isr _ => .isTrue trivial

variable {b c : Bridge} {err : ℤ} {p q : CallPc}

theorem kick_flagged (hr : b.reconfiguring = true) : uartTxKick err b = b := by
  simp [uartTxKick, txStage, hr]

structure Stays (b c : Bridge) : Prop where
  flag : c.reconfiguring = b.reconfiguring
  reception : c.reception = b.reception ∧ c.rxQuiesced = b.rxQuiesced ∨ c.reception = .off
  inFlight : b.inFlight = [] → c.inFlight = []

theorem finishTx_some {chunk : List UInt8} (h : finishTx b = some (chunk,c)) :
    b.inFlight ≠ [] ∧ c = { b with inFlight := c.inFlight } := by
  cases hin : b.inFlight with
  | nil => simp [finishTx, hin] at h
  | cons x xs =>
    simp only [finishTx, hin, Option.some.injEq, Prod.mk.injEq] at h
    obtain ⟨_,rfl⟩ := h
    exact ⟨by simp,rfl⟩

theorem uartCb_stays {e : Event} (hr : b.reconfiguring = true) (h : uartCb b e = some c) :
    Stays b c := by
  cases isr_move h with
  | txDone hd =>
    obtain ⟨hne,hd⟩ := finishTx_some hd
    rw [kick_flagged (by rw [hd]; exact hr), hd]
    exact ⟨rfl,Or.inl ⟨rfl,rfl⟩,fun hin => absurd hin hne⟩
  | txAborted hd =>
    obtain ⟨hne,hd⟩ := finishTx_some hd
    rw [kick_flagged (by rw [hd]; split <;> exact hr), hd]
    split <;> exact ⟨rfl,Or.inl ⟨rfl,rfl⟩,fun hin => absurd hin hne⟩
  | refill =>
    unfold uartRxBufRsp
    split <;> exact ⟨rfl,Or.inl ⟨rfl,rfl⟩,id⟩
  | starved | noBuffer | released => exact ⟨rfl,Or.inl ⟨rfl,rfl⟩,id⟩
  | handed => exact ⟨rfl,Or.inr rfl,id⟩
  | restarted _ hc | delayed _ hc => simp [hr] at hc

theorem handlerNext_stays {hp hq : HandlerPc} (hr : b.reconfiguring = true)
    (he : enabling hp = false) (h : handlerNext b err hp = some (c,hq)) :
    Stays b c ∧ enabling hq = false := by
  cases handler_move h with
  | entered hf => simp [hr] at hf
  | starved | alloc | enabled | busy | failed => simp [enabling] at he
  | held | freeBusy | clearLatch | freeFailed | warn | schedule | leave =>
    exact ⟨⟨rfl,Or.inl ⟨rfl,rfl⟩,id⟩,rfl⟩

def Stopped (b : Bridge) : CallPc → Prop
  | .disableRx _ | .takeSem _ _ => b.rxQuiesced = true → b.reception = .off
  | .getConfig _ | .configure _ => b.reception = .off ∧ b.inFlight = []
  | _ => True

structure Quiescing (s : State) : Prop where
  flag : Flagged s
  handler : s.bridge.reconfiguring = true → enabling s.handler = false
  stopped : Stopped s.bridge s.call

theorem init_quiescing (rate : UInt32) : Quiescing (init rate) := ⟨rfl,fun _ => rfl,trivial⟩

theorem Stays.stopped (h : Stays b c) (hs : Stopped b p) : Stopped c p := by
  cases p with
  | disableRx | takeSem =>
    intro hq
    rcases h.reception with ⟨hr,hx⟩ | hr
    · rw [hr]
      exact hs (hx ▸ hq)
    · exact hr
  | getConfig | configure =>
    refine ⟨?_,h.inFlight hs.2⟩
    rcases h.reception with ⟨hr,_⟩ | hr
    · exact hr.trans hs.1
    · exact hr
  | _ => trivial

theorem stopped_of_not_owns (h : owns p = false) : Stopped b p := by
  cases p with
  | disableRx | takeSem | getConfig | configure => simp [owns] at h
  | _ => trivial

theorem uartRxDisable_off (err : ℤ) (hr : b.reception = .off) : uartRxDisable err b = b := by
  simp [uartRxDisable, hr]

theorem callNext_stopped {hp : HandlerPc} (hs : Stopped b p) (ho : InOrder b hp err p)
    (hd : FaultOff b err p) (h : callNext b err p = some (c,q)) : Stopped c q := by
  cases p with
  | idle => simp [callNext] at h
  | resetSem baud =>
    obtain ⟨rfl,rfl⟩ := Prod.mk.inj (Option.some.inj h)
    simp [Stopped]
  | disableRx baud =>
    obtain ⟨rfl,rfl⟩ := Prod.mk.inj (Option.some.inj h)
    split <;> [skip; split]
    · intro hq
      have hq : b.rxQuiesced = true := by
        unfold uartRxDisable at hq
        split at hq <;> exact hq
      rw [uartRxDisable_off err (hs hq)]
      exact hs hq
    · rename_i he
      have hoff := hd he
      rw [uartRxDisable_off err hoff]
      exact ⟨hoff,ho he⟩
    · trivial
  | takeSem baud deadline =>
    simp only [callNext] at h
    split at h <;> split at h <;> simp only [reduceCtorEq, Option.some.injEq, Prod.mk.injEq] at h <;>
      obtain ⟨rfl,rfl⟩ := h
    · rename_i he hq
      exact ⟨hs hq,ho he⟩
    · trivial
  | getConfig baud =>
    obtain ⟨rfl,rfl⟩ := Prod.mk.inj (Option.some.inj h)
    split
    · exact hs
    · trivial
  | _ => cases call_move h <;> trivial

theorem callNext_raises (hf : b.reconfiguring = owns p) (h : callNext b err p = some (c,q))
    (hr : c.reconfiguring = true) : b.reconfiguring = true ∨ ∃ baud, p = .setFlag baud := by
  rw [callNext_flag hf h] at hr
  rw [hf]
  cases call_move h with
  | setFlag => exact Or.inr ⟨_,rfl⟩
  | _ => first | exact Or.inl rfl | simp [owns] at hr

variable {s t : State} {a : Label}

theorem step_stopped (hs : Quiescing s) (ho : Orderly s a) (hd : DisableAnswers s a)
    (h : step s a = some t) : Stopped t.bridge t.call := by
  -- what runs beside a change leaves the receiver and starts no transfer
  have hbeside (hc : t.call = s.call) (hst : s.bridge.reconfiguring = true →
      Stays s.bridge t.bridge) : Stopped t.bridge t.call := by
    rw [hc]
    by_cases hr : s.bridge.reconfiguring = true
    · exact (hst hr).stopped hs.stopped
    · exact stopped_of_not_owns (hs.flag.symm.trans (by simpa using hr))
  cases a with
  | wait ms =>
    obtain rfl := step_wait.mp h
    exact hbeside rfl (fun _ => ⟨rfl,Or.inl ⟨rfl,rfl⟩,id⟩)
  | expire =>
    obtain ⟨w,_,rfl⟩ := step_expire.mp h
    exact hbeside rfl (fun _ => ⟨rfl,Or.inl ⟨rfl,rfl⟩,id⟩)
  | enter =>
    obtain ⟨_,w,_,rfl⟩ := step_enter.mp h
    exact hbeside rfl (fun _ => ⟨rfl,Or.inl ⟨rfl,rfl⟩,id⟩)
  | handler err =>
    obtain ⟨b,pc,hn,rfl⟩ := step_handler.mp h
    exact hbeside rfl (fun hr => (handlerNext_stays hr (hs.handler hr) hn).1)
  | send data =>
    obtain ⟨_,rfl⟩ := step_send.mp h
    trivial
  | setBaud baud =>
    obtain ⟨_,rfl⟩ := step_setBaud.mp h
    trivial
  | call err =>
    obtain ⟨b,pc,hn,rfl⟩ := step_call.mp h
    exact callNext_stopped hs.stopped ho hd hn
  | isr e =>
    obtain ⟨b,hb,rfl⟩ := step_isr.mp h
    exact hbeside rfl (fun hr => uartCb_stays hr hb)

theorem step_quiescing (hs : Quiescing s) (ho : Orderly s a) (hd : DisableAnswers s a)
    (h : step s a = some t) : Quiescing t := by
  refine ⟨step_flagged hs.flag h,?_,step_stopped hs ho hd h⟩
  cases a with
  | wait ms =>
    obtain rfl := step_wait.mp h
    exact hs.handler
  | expire =>
    obtain ⟨w,_,rfl⟩ := step_expire.mp h
    exact hs.handler
  | enter =>
    obtain ⟨_,w,_,rfl⟩ := step_enter.mp h
    exact fun _ => rfl
  | handler err =>
    obtain ⟨b,pc,hn,rfl⟩ := step_handler.mp h
    intro hr
    have hr' := (handlerNext_flag hn).symm.trans hr
    exact (handlerNext_stays hr' (hs.handler hr') hn).2
  | send data =>
    obtain ⟨_,rfl⟩ := step_send.mp h
    exact hs.handler
  | setBaud baud =>
    obtain ⟨_,rfl⟩ := step_setBaud.mp h
    exact hs.handler
  | call err =>
    obtain ⟨b,pc,hn,rfl⟩ := step_call.mp h
    intro hr
    rcases callNext_raises hs.flag hn hr with hr | ⟨baud,hc⟩
    · exact hs.handler hr
    · simpa only [Orderly, InOrder, hc] using ho
  | isr e =>
    obtain ⟨b,hb,rfl⟩ := step_isr.mp h
    exact fun hr => hs.handler ((reaction_flag (uartCb_reaction hb)).symm.trans hr)

theorem kickStarts_flagged (hr : b.reconfiguring = true) : kickStarts err b = [] := by
  simp [kickStarts, txStage, hr]

theorem completed_starts {e : Event} (hr : b.reconfiguring = true) :
    (completed b e).elim [] (kickStarts err) = [] := by
  cases hc : completed b e with
  | none => rfl
  | some d =>
    apply kickStarts_flagged
    cases e with
    | txDone txErr =>
      simp only [completed, Option.map_eq_some_iff] at hc
      obtain ⟨⟨chunk,x⟩,hx,rfl⟩ := hc
      exact ((finishTx_rx hx).trans (txIdle_rx x)).reconfiguring.trans hr
    | txAborted sent txErr =>
      simp only [completed, Option.map_eq_some_iff] at hc
      obtain ⟨⟨chunk,x⟩,hx,rfl⟩ := hc
      have hx := (finishTx_rx hx).reconfiguring.trans hr
      dsimp only
      generalize (if sent < b.txLen then b.txLen-sent else 0) = aborted
      split <;> exact hx
    | _ => simp [completed] at hc

theorem Quiescing.quiet (hs : Quiescing s) : Quiet s := by
  constructor
  · intro baud hc
    have hst := hs.stopped
    rw [hc] at hst
    exact ⟨hs.flag.trans (congrArg owns hc),hst⟩
  · intro hr a t _
    have howns := hs.flag.symm.trans hr
    have hen := hs.handler hr
    cases a with
    | call err =>
      cases hc : s.call with
      | tx | enable => simp [hc, owns] at howns
      | _ => simp [starts, enables, hc]
    | handler err =>
      cases hh : s.handler with
      | enable => simp [hh, enabling] at hen
      | _ => simp [starts, enables, hh]
    | isr e =>
      cases e with
      | txDone txErr => exact ⟨completed_starts hr,rfl⟩
      | txAborted sent txErr => exact ⟨completed_starts hr,rfl⟩
      | rxDisabled allocErr enableErr => exact ⟨rfl,by simp [enables, hr]⟩
      | _ => exact ⟨rfl,rfl⟩
    | _ => exact ⟨rfl,rfl⟩

/-- In every orderly run the bridge is quiet when it is reconfigured. -/
theorem quiet_when_configured (rate : UInt32) (es : List Label) (s : State)
    (h : run step es (init rate) = some s) (hd : AllSteps step DisableAnswers es (init rate))
    (hc : AllSteps step Orderly es (init rate)) : Quiet s := by
  have hs : Quiescing s := invariant_of (C := fun s a => DisableAnswers s a ∧ Orderly s a)
    (init_quiescing rate) (fun _ _ _ hs hc ht => step_quiescing hs hc.2 hc.1 ht) h
    (allSteps_and hd hc)
  exact hs.quiet

def orderlyChange : List Label :=
  List.flatten [[.send [1, 2]], List.replicate 3 (.call 0), [.setBaud 9600],
    List.replicate 4 (.call 0), [.isr (.txAborted 1 0), .call 0, .isr (.rxBufReleased slab.head?),
    .isr (.rxDisabled 0 0), .call 0, .call 0]]

def readyToConfigure : State :=
  { init 115200 with
    bridge :=
      { (init 115200).bridge with
        free := slab
        owned := []
        reception := .off
        reconfiguring := true
        txBuf := [1, 2]
        dropsUartTx := 1 }
    call := .configure 9600 }

theorem quiet_when_configured_aborted : Quiet readyToConfigure :=
  quiet_when_configured 115200 orderlyChange readyToConfigure (by decide) (by decide) (by decide)

/-- Reception has not come back when two bytes are sent and the rate changes. -/
def changeWithoutReception : List Label :=
  List.flatten [[.isr (.rxBufReleased slab.head?), .isr (.rxDisabled 0 (-1)), .send [1, 2]],
    List.replicate 3 (.call 0), [.setBaud 9600], List.replicate 4 (.call 0),
    [.call (-EFAULT), .call 0]]

/-- There is nothing to wait for, and `uart_configure` meets the transfer. -/
theorem configured_in_flight :
    ∃ s, run step changeWithoutReception (init 115200) = some s ∧
      AllSteps step DisableAnswers changeWithoutReception (init 115200) ∧
      s.call = .configure 9600 ∧ s.bridge.inFlight = [[1, 2]] :=
  ⟨{ init 115200 with
      bridge :=
        { (init 115200).bridge with
          free := slab
          owned := []
          reception := .off
          reconfiguring := true
          txBuf := [1, 2]
          txInProgress := true
          txLen := 2
          inFlight := [[1, 2]] }
      call := .configure 9600 },by decide,by decide,rfl,rfl⟩

theorem not_quiet_configure {baud : UInt32} (hc : s.call = .configure baud)
    (hin : s.bridge.inFlight ≠ []) : ¬Quiet s :=
  fun hq => hin (hq.configured baud hc).2.2

theorem not_quiet_enable {buf : Buf} (hh : s.handler = .enable buf)
    (hr : s.bridge.reconfiguring = true) : ¬Quiet s := by
  intro hq
  have hst : step s (.handler (-1)) = some { s with handler := .freeFailed buf } := by
    simp [step, handlerNext, hh, uartRxEnable, uartRxEnableSucceeded, EBUSY]
  have hen := (hq.held hr (.handler (-1)) _ hst).2
  simp [enables, hh] at hen

/-- Each step out of order leaves the bridge where it is not quiet, or one step before. -/
theorem disorder_not_quiet (ho : ¬Orderly s a) (hfree : s.bridge.free ≠ [])
    (h : step s a = some t) : ∃ es u, es.length ≤ 1 ∧ run step es t = some u ∧ ¬Quiet u := by
  obtain ⟨b,hp,p⟩ := s
  cases a with
  | call err =>
    obtain ⟨c,q,hn,rfl⟩ := step_call.mp h
    cases p with
    | setFlag baud =>
      obtain ⟨rfl,rfl⟩ := Prod.mk.inj (Option.some.inj hn)
      have hen : enabling hp = true := by simpa [Orderly, InOrder] using ho
      cases hp with
      | alloc =>
        obtain ⟨buf,free,hf⟩ := List.exists_cons_of_ne_nil hfree
        refine ⟨[.handler 0],⟨{ b with reconfiguring := true, free },.enable buf,.abortTx baud⟩,
          le_rfl,?_,not_quiet_enable rfl rfl⟩
        simp only at hf
        simp [run, step, handlerNext, slabAlloc, hf]
      | enable buf => exact ⟨[],_,Nat.zero_le 1,rfl,not_quiet_enable rfl rfl⟩
      | _ => simp [enabling] at hen
    | disableRx baud =>
      obtain ⟨rfl,hne⟩ : err = -EFAULT ∧ b.inFlight ≠ [] := by
        simpa [Orderly, InOrder] using ho
      obtain ⟨rfl,rfl⟩ := Prod.mk.inj (Option.some.inj hn)
      exact ⟨[.call 0],_,le_rfl,rfl,not_quiet_configure rfl hne⟩
    | takeSem baud deadline =>
      obtain ⟨rfl,hne⟩ : err = 0 ∧ b.inFlight ≠ [] := by
        simpa [Orderly, InOrder] using ho
      simp only [callNext, if_true, Option.ite_none_right_eq_some, Option.some.injEq,
        Prod.mk.injEq] at hn
      obtain ⟨_,rfl,rfl⟩ := hn
      exact ⟨[.call 0],_,le_rfl,rfl,not_quiet_configure rfl hne⟩
    | _ => exact absurd trivial ho
  | _ => exact absurd trivial ho

end NrfProxy.UartQuiesce
