import NrfProxy.UartBridge

/-!
# The receiver and its buffers

Three paths restart reception and hand it to one another, through the flag of a
baud change and through a work item the change cancels. Each of them takes a
buffer from the slab which the driver accepts or the path gives back.
-/

set_option autoImplicit false

namespace NrfProxy.UartReception
open NrfProxy.Runs NrfProxy.Delayable NrfProxy.UartBridge

inductive Reaction (b : Bridge) : Event → Bridge → Prop where
  | keep {e : Event} {c : Bridge} (h : SameRx b c)
      (hq : ∀ allocErr rspErr, e = .rxBufRequest allocErr rspErr → slabAlloc allocErr b = none) :
      Reaction b e c
  | refill {rspErr : ℤ} {buf : Buf} {free : List Buf} (hf : b.free = buf::free) :
      Reaction b (.rxBufRequest 0 rspErr) (uartRxBufRsp buf rspErr { b with free })
  | released {buf : Buf} (ho : buf ∈ b.owned) :
      Reaction b (.rxBufReleased (some buf)) (slabFree buf { b with owned := b.owned.erase buf })
  | handed {allocErr enableErr : ℤ} (hr : b.reconfiguring = true) :
      Reaction b (.rxDisabled allocErr enableErr) { b with reception := .off, rxQuiesced := true }
  | restarted {allocErr enableErr : ℤ} {buf : Buf} {free : List Buf} (hf : b.free = buf::free) :
      Reaction b (.rxDisabled allocErr enableErr)
        { b with free, reception := .on, owned := buf::b.owned, retryWarned := false }
  | delayed {allocErr enableErr : ℤ} :
      Reaction b (.rxDisabled allocErr enableErr) (scheduleRetry { b with reception := .off })

theorem uartCb_reaction {b c : Bridge} {e : Event} (h : uartCb b e = some c) : Reaction b e c := by
  cases isr_move h with
  | txDone hd =>
    exact .keep (((finishTx_rx hd).trans (txIdle_rx _)).trans (uartTxKick_rx _ _)) (by simp)
  | txAborted hd =>
    refine .keep (((finishTx_rx hd).trans ?_).trans (uartTxKick_rx _ _)) (by simp)
    split
    · exact (addDrops_rx _ _).trans (txIdle_rx _)
    · exact txIdle_rx _
  | starved _ hs =>
    refine .keep (SameRx.refl b) (fun _ _ he => ?_)
    cases he
    exact hs
  | refill _ hf => exact .refill hf
  | noBuffer => exact .keep (SameRx.refl b) (by simp)
  | released ho => exact .released ho
  | handed _ hc => exact .handed hc
  | restarted _ _ hf => exact .restarted hf
  | delayed => exact .delayed

/-- `uart_bridge_set_baud` has its flag set. -/
def owns : CallPc → Bool
  | .abortTx _ | .resetSem _ | .disableRx _ | .takeSem _ _ | .getConfig _ | .configure _
  | .clearFlag _ => true
  | _ => false

/-- `uart_bridge_set_baud` has its restart step still to finish. -/
def restarting : CallPc → Bool
  | .cancel _ | .setFlag _ | .alloc _ | .enable _ _ | .freeFailed _ _ | .schedule _ => true
  | pc => owns pc

/-- The retry handler has still to enable reception or to schedule itself. -/
def retrying : HandlerPc → Bool
  | .idle | .freeBusy _ | .clearLatch | .leave => false
  | _ => true

/-- Reception is on or on its way, without the handler's help. -/
def Covered (b : Bridge) (pc : CallPc) : Prop :=
  b.reception ≠ .off ∨ b.retryWork.pending = true ∨ restarting pc = true

/-- A timer which is refused runs out where reception needs none. -/
def Submitted (s : State) : Label → Prop
  | .expire => (submit s.bridge.retryWork).queued = true ∨ s.bridge.reception ≠ .off ∨
      retrying s.handler = true ∨ restarting s.call = true
  | _ => True

instance (s : State) : ∀ a, Decidable (Submitted s a)
  | .expire => inferInstanceAs (Decidable (_ ∨ _))
  | .wait _ | .enter | .handler _ | .send _ | .setBaud _ | .call _ | .isr _ => .isTrue trivial

def Flagged (s : State) : Prop := s.bridge.reconfiguring = owns s.call

def Attended (s : State) : Prop := retrying s.handler = false → Covered s.bridge s.call

theorem init_flagged (rate : UInt32) : Flagged (init rate) := rfl

theorem init_attended (rate : UInt32) : Attended (init rate) := fun _ => Or.inl (by simp [init])

theorem owns_restarting {pc : CallPc} (h : owns pc = true) : restarting pc = true := by
  cases pc <;> first | rfl | simp [owns] at h

theorem covered_congr {b c : Bridge} {pc : CallPc} (h : SameRx b c) :
    Covered c pc ↔ Covered b pc := by
  simp [Covered, h.reception, h.retryWork]

theorem scheduleRetry_covered (b : Bridge) (pc : CallPc) : Covered (scheduleRetry b) pc :=
  Or.inr (Or.inl rfl)

theorem handlerNext_flag {b c : Bridge} {err : ℤ} {p q : HandlerPc}
    (h : handlerNext b err p = some (c,q)) : c.reconfiguring = b.reconfiguring := by
  cases handler_move h <;> rfl

theorem handlerNext_covered {b c : Bridge} {err : ℤ} {p q : HandlerPc} {pc : CallPc}
    (hflag : b.reconfiguring = true → owns pc = true)
    (hc : retrying p = false → Covered b pc) (h : handlerNext b err p = some (c,q)) :
    retrying q = false → Covered c pc := by
  cases handler_move h with
  | held hr => exact fun _ => Or.inr (Or.inr (owns_restarting (hflag hr)))
  | enabled => exact fun _ => Or.inl (by simp)
  | busy _ hr => exact fun _ => Or.inl hr
  | freeBusy | clearLatch | leave => exact fun _ => hc rfl
  | schedule => exact fun _ => scheduleRetry_covered b pc
  | entered | starved | alloc | failed | freeFailed | warn => simp [retrying]

theorem callNext_flag {b c : Bridge} {err : ℤ} {p q : CallPc} (hf : b.reconfiguring = owns p)
    (h : callNext b err p = some (c,q)) : c.reconfiguring = owns q := by
  cases call_move h with
  | setFlag | clearFlag => rfl
  | disabled | wasOff | refused =>
    unfold uartRxDisable
    split <;> exact hf
  | configure =>
    unfold uartConfigure
    split <;> exact hf
  | alloc hd =>
    obtain ⟨_,_,_,rfl⟩ := slabAlloc_some.mp hd
    exact hf
  | enabled hd | enableFailed hd =>
    rcases uartRxEnable_some.mp hd with ⟨_,_,rfl⟩ | ⟨_,_,rfl⟩ | ⟨_,rfl⟩ <;> exact hf
  | staged hd => exact (txStage_rx hd).reconfiguring.trans hf
  | started | startFailed => exact (uartTx_rx _ err b).reconfiguring.trans hf
  | _ => exact hf

theorem callNext_covered {b c : Bridge} {err : ℤ} {p q : CallPc} (hc : Covered b p)
    (h : callNext b err p = some (c,q)) : Covered c q := by
  cases call_move h with
  | put | nothing | countDrop | keepErr | txIdle => exact hc
  | enabled hd h0 =>
    subst h0
    obtain ⟨_,rfl⟩ := uartRxEnable_zero.mp hd
    exact Or.inl (by simp)
  | schedule => exact scheduleRetry_covered b _
  | staged hd => exact (covered_congr (txStage_rx hd)).mpr hc
  | started | startFailed => exact (covered_congr (uartTx_rx _ err b)).mpr hc
  | _ => exact Or.inr (Or.inr rfl)

theorem reaction_flag {b c : Bridge} {e : Event} (h : Reaction b e c) :
    c.reconfiguring = b.reconfiguring := by
  cases h with
  | keep h _ => exact h.reconfiguring
  | refill hf =>
    unfold uartRxBufRsp
    split <;> rfl
  | _ => rfl

theorem reaction_covered {b c : Bridge} {e : Event} {pc : CallPc}
    (hf : b.reconfiguring = true → owns pc = true) (hc : Covered b pc) (h : Reaction b e c) :
    Covered c pc := by
  cases h with
  | keep h _ => exact (covered_congr h).mpr hc
  | refill =>
    unfold uartRxBufRsp
    split <;> exact hc
  | released => exact hc
  | handed hr => exact Or.inr (Or.inr (owns_restarting (hf hr)))
  | restarted => exact Or.inl (by simp)
  | delayed => exact scheduleRetry_covered _ _

variable {s t : State} {a : Label}

theorem step_flagged (hf : Flagged s) (h : step s a = some t) : Flagged t := by
  cases a with
  | wait ms =>
    obtain rfl := step_wait.mp h
    exact hf
  | expire =>
    obtain ⟨w,_,rfl⟩ := step_expire.mp h
    exact hf
  | enter =>
    obtain ⟨_,w,_,rfl⟩ := step_enter.mp h
    exact hf
  | handler err =>
    obtain ⟨b,pc,hn,rfl⟩ := step_handler.mp h
    exact (handlerNext_flag hn).trans hf
  | send data =>
    obtain ⟨hi,rfl⟩ := step_send.mp h
    rw [Flagged, hi] at hf
    exact hf
  | setBaud baud =>
    obtain ⟨hi,rfl⟩ := step_setBaud.mp h
    rw [Flagged, hi] at hf
    exact hf
  | call err =>
    obtain ⟨b,pc,hn,rfl⟩ := step_call.mp h
    exact callNext_flag hf hn
  | isr e =>
    obtain ⟨b,hb,rfl⟩ := step_isr.mp h
    exact (reaction_flag (uartCb_reaction hb)).trans hf

theorem step_attended (hf : Flagged s) (hs : Attended s) (hsub : Submitted s a)
    (h : step s a = some t) : Attended t := by
  cases a with
  | wait ms =>
    obtain rfl := step_wait.mp h
    exact hs
  | expire =>
    obtain ⟨w,hw,rfl⟩ := step_expire.mp h
    intro hr
    rcases hsub with hq | hon | hr' | hc
    · exact Or.inr (Or.inl ((expire_submitted hw).trans hq))
    · exact Or.inl hon
    · exact absurd (hr.symm.trans hr') (by simp)
    · exact Or.inr (Or.inr hc)
  | enter =>
    obtain ⟨_,w,_,rfl⟩ := step_enter.mp h
    simp [Attended, retrying]
  | handler err =>
    obtain ⟨b,pc,hn,rfl⟩ := step_handler.mp h
    exact handlerNext_covered (hf.symm.trans ·) hs hn
  | send data =>
    obtain ⟨hi,rfl⟩ := step_send.mp h
    rw [Attended, hi] at hs
    exact hs
  | setBaud baud =>
    obtain ⟨hi,rfl⟩ := step_setBaud.mp h
    exact fun _ => Or.inr (Or.inr rfl)
  | call err =>
    obtain ⟨b,pc,hn,rfl⟩ := step_call.mp h
    exact fun hr => callNext_covered (hs hr) hn
  | isr e =>
    obtain ⟨b,hb,rfl⟩ := step_isr.mp h
    exact fun hr => reaction_covered (hf.symm.trans ·) (hs hr) (uartCb_reaction hb)

/-- In every reachable state reception is on, or its `UART_RX_DISABLED` is owed,
or someone is about to restart it, where no timer is refused which is needed. -/
theorem reception_attended (rate : UInt32) (es : List Label) (s : State)
    (h : run step es (init rate) = some s) (hsub : AllSteps step Submitted es (init rate)) :
    s.bridge.reception = .on ∨ s.bridge.reception = .stopping ∨
      s.bridge.retryWork.pending = true ∨ s.handler ≠ .idle ∨ restarting s.call = true := by
  obtain ⟨_,hs⟩ : Flagged s ∧ Attended s :=
    invariant_of (I := fun s => Flagged s ∧ Attended s) ⟨init_flagged rate,init_attended rate⟩
      (fun _ _ _ hi hsub ht => ⟨step_flagged hi.1 ht,step_attended hi.1 hi.2 hsub ht⟩) h hsub
  by_cases hh : s.handler = .idle
  · rcases hs (by simp [hh, retrying]) with hr | hp | hc
    · cases hb : s.bridge.reception with
      | off => exact absurd hb hr
      | on => exact Or.inl rfl
      | stopping => exact Or.inr (Or.inl rfl)
    · exact Or.inr (Or.inr (Or.inl hp))
    · exact Or.inr (Or.inr (Or.inr (Or.inr hc)))
  · exact Or.inr (Or.inr (Or.inr (Or.inl hh)))

def starved : State :=
  { init 115200 with
    bridge := { (init 115200).bridge with
      free := []
      owned := slab.reverse
      reception := .off
      retryWork := ⟨some 100,false,.returned⟩ } }

def starving : List Label :=
  List.replicate 3 (.isr (.rxBufRequest 0 0))++[.isr (.rxDisabled 0 0)]

theorem reception_attended_starved :
    starved.bridge.reception = .on ∨ starved.bridge.reception = .stopping ∨
      starved.bridge.retryWork.pending = true ∨ starved.handler ≠ .idle ∨
      restarting starved.call = true :=
  reception_attended 115200 starving starved (by decide) (by decide)

/-- Reception is off, and nobody will restart it. -/
structure Dead (s : State) : Prop where
  off : s.bridge.reception = .off
  none : s.bridge.retryWork.pending = false
  handler : retrying s.handler = false
  call : restarting s.call = false

instance (s : State) : Decidable (Dead s) :=
  decidable_of_iff (s.bridge.reception = .off ∧ s.bridge.retryWork.pending = false ∧
    retrying s.handler = false ∧ restarting s.call = false)
    ⟨fun ⟨ho,hn,hh,hc⟩ => ⟨ho,hn,hh,hc⟩,fun ⟨ho,hn,hh,hc⟩ => ⟨ho,hn,hh,hc⟩⟩

theorem not_submitted_dead (hsub : ¬Submitted s a) (h : step s a = some t) : Dead t := by
  cases a with
  | expire =>
    obtain ⟨w,hw,rfl⟩ := step_expire.mp h
    simp only [Submitted, not_or, not_not, Bool.not_eq_true] at hsub
    obtain ⟨hq,hoff,hh,hc⟩ := hsub
    exact ⟨hoff,(expire_submitted hw).trans hq,hh,hc⟩
  | _ => exact absurd trivial hsub

def handlerLeft : HandlerPc → ℕ
  | .freeBusy _ => 3
  | .clearLatch => 2
  | .leave => 1
  | _ => 0

theorem dead_step (hd : Dead s) (hh : s.handler ≠ .idle) :
    ∃ t, step s (.handler 0) = some t ∧ Dead t ∧ handlerLeft t.handler < handlerLeft s.handler := by
  have hr := hd.handler
  cases hp : s.handler with
  | idle => exact absurd hp hh
  | freeBusy buf =>
    exact ⟨{ s with bridge := slabFree buf s.bridge, handler := .clearLatch },
      by simp [step, hp, handlerNext],⟨hd.off,hd.none,rfl,hd.call⟩,by simp [handlerLeft]⟩
  | clearLatch =>
    exact ⟨{ s with bridge := { s.bridge with retryWarned := false }, handler := .leave },
      by simp [step, hp, handlerNext],⟨hd.off,hd.none,rfl,hd.call⟩,by simp [handlerLeft]⟩
  | leave =>
    exact ⟨{ s with bridge := finishRetry s.bridge, handler := .idle },
      by simp [step, hp, handlerNext],⟨hd.off,hd.none,rfl,hd.call⟩,by simp [handlerLeft]⟩
  | _ => simp [hp, retrying] at hr

/-- Each step which breaks the assumption may end with reception off for good. -/
theorem unsubmitted_dies (hsub : ¬Submitted s a) (h : step s a = some t) :
    ∃ bs u, run step (a::bs) s = some u ∧ Dead u ∧ u.handler = .idle := by
  have hgo (u : State) (hd : Dead u) (hh : u.handler ≠ .idle) :
      ∃ a t, True ∧ step u a = some t ∧ Dead t ∧ handlerLeft t.handler < handlerLeft u.handler := by
    obtain ⟨t,ht,hd,hlt⟩ := dead_step hd hh
    exact ⟨_,t,trivial,ht,hd,hlt⟩
  obtain ⟨bs,u,_,hu,hd,hh⟩ :=
    exists_rest (fun u : State => handlerLeft u.handler) hgo (not_submitted_dead hsub h)
  exact ⟨bs,u,by simp [run, h, hu],hd,hh⟩

/-- The retry handler has enabled reception and has not returned when reception stops
again, and `uart_bridge_set_baud` takes over with its item cancelled. Its own restart
fails too. -/
def busyHandler : List Label :=
  List.flatten [[.isr (.rxDisabled 0 (-5)), .wait 100, .expire, .enter],
    List.replicate 3 (.handler 0), .isr (.rxDisabled 0 (-5))::.setBaud 9600::
      List.replicate 4 (.call 0), .call (-EFAULT)::List.replicate 4 (.call 0),
    .call (-5)::List.replicate 3 (.call 0), [.wait 100, .expire, .handler 0, .handler 0]]

theorem refused_timer_ends_reception :
    ∃ s, run step busyHandler (init 115200) = some s ∧ s.bridge.reception = .off ∧
      s.bridge.retryWork.pending = false ∧ s.handler = .idle ∧ s.call = .idle :=
  ⟨_,rfl,rfl,rfl,rfl,rfl⟩

def handlerBufs : HandlerPc → List Buf
  | .enable buf | .freeBusy buf | .freeFailed buf => [buf]
  | _ => []

def callBufs : CallPc → List Buf
  | .enable buf _ | .freeFailed buf _ => [buf]
  | _ => []

/-- Where each buffer is: free, with the driver, refused by it, or with a path
which has not handed it on. -/
def Kept (b : Bridge) (held : List Buf) : Prop :=
  ∀ buf, b.free.count buf+b.owned.count buf+b.refused.count buf+held.count buf = 1

theorem same_kept {b c : Bridge} {held : List Buf} (h : SameRx b c) (hk : Kept b held) :
    Kept c held := by
  intro buf
  rw [h.free, h.owned, h.refused]
  exact hk buf

theorem slabAlloc_kept {b c : Bridge} {buf : Buf} {held : List Buf} (hk : Kept b held)
    {err : ℤ} (h : slabAlloc err b = some (buf,c)) : Kept c (buf::held) := by
  obtain ⟨_,free,hf,rfl⟩ := slabAlloc_some.mp h
  intro x
  have := hk x
  rw [hf, List.count_cons] at this
  rw [List.count_cons]
  dsimp only
  omega

theorem slabFree_kept {b : Bridge} {buf : Buf} {held : List Buf} (hk : Kept b (buf::held)) :
    Kept (slabFree buf b) held := by
  intro x
  have := hk x
  rw [List.count_cons] at this
  simp only [slabFree, List.count_cons]
  omega

theorem uartRxEnable_kept {b c : Bridge} {buf : Buf} {err : ℤ} {held : List Buf}
    (hk : Kept b (buf::held)) (h : uartRxEnable buf err b = some c) :
    if err = 0 then Kept c held else Kept c (buf::held) := by
  rcases uartRxEnable_some.mp h with ⟨rfl,_,rfl⟩ | ⟨rfl,_,rfl⟩ | ⟨he,rfl⟩
  · rw [if_pos rfl]
    intro x
    have := hk x
    rw [List.count_cons] at this
    simp only [List.count_cons]
    omega
  · exact hk
  · rw [if_neg (succeeded_false he)]
    exact hk

theorem uartRxEnable_refused {b c : Bridge} {buf : Buf} {err : ℤ}
    (h : uartRxEnable buf err b = some c) : c.refused = b.refused := by
  rcases uartRxEnable_some.mp h with ⟨_,_,rfl⟩ | ⟨_,_,rfl⟩ | ⟨_,rfl⟩ <;> rfl

theorem kept_swap {b : Bridge} {xs ys : List Buf} (h : Kept b (xs++ys)) : Kept b (ys++xs) := by
  intro buf
  have := h buf
  rw [List.count_append] at this ⊢
  omega

theorem handlerNext_kept {b c : Bridge} {err : ℤ} {p q : HandlerPc} {held : List Buf}
    (hk : Kept b (handlerBufs p++held)) (h : handlerNext b err p = some (c,q)) :
    Kept c (handlerBufs q++held) ∧ c.refused = b.refused := by
  cases handler_move h with
  | alloc h0 hf => exact ⟨slabAlloc_kept hk (slabAlloc_some.mpr ⟨h0,_,hf,rfl⟩),rfl⟩
  | @enabled buf h0 hr =>
    have hd : uartRxEnable buf err b = some { b with reception := .on, owned := buf::b.owned } :=
      uartRxEnable_some.mpr (Or.inl ⟨h0,hr,rfl⟩)
    have hkept := uartRxEnable_kept hk hd
    rw [if_pos h0] at hkept
    exact ⟨hkept,rfl⟩
  | freeBusy | freeFailed => exact ⟨slabFree_kept hk,rfl⟩
  | held | entered | starved | busy | failed | clearLatch | warn | schedule | leave =>
    exact ⟨hk,rfl⟩

theorem callNext_kept {b c : Bridge} {err : ℤ} {p q : CallPc} {held : List Buf}
    (hk : Kept b (callBufs p++held)) (h : callNext b err p = some (c,q)) :
    Kept c (callBufs q++held) ∧ c.refused = b.refused := by
  cases call_move h with
  | disabled | wasOff | refused =>
    unfold uartRxDisable
    split <;> exact ⟨hk,rfl⟩
  | configure =>
    unfold uartConfigure
    split <;> exact ⟨hk,rfl⟩
  | alloc hd =>
    refine ⟨slabAlloc_kept hk hd,?_⟩
    obtain ⟨_,_,_,rfl⟩ := slabAlloc_some.mp hd
    rfl
  | enabled hd h0 =>
    have hkept := uartRxEnable_kept hk hd
    rw [if_pos h0] at hkept
    exact ⟨hkept,uartRxEnable_refused hd⟩
  | enableFailed hd h0 =>
    have hkept := uartRxEnable_kept hk hd
    rw [if_neg h0] at hkept
    exact ⟨hkept,uartRxEnable_refused hd⟩
  | freeFailed => exact ⟨slabFree_kept hk,rfl⟩
  | staged hd => exact ⟨same_kept (txStage_rx hd) hk,(txStage_rx hd).refused⟩
  | started | startFailed =>
    exact ⟨same_kept (uartTx_rx _ err b) hk,(uartTx_rx _ err b).refused⟩
  | _ => exact ⟨hk,rfl⟩

theorem reaction_kept {b c : Bridge} {e : Event} {held : List Buf} (hk : Kept b held)
    (h : Reaction b e c) : Kept c held := by
  cases h with
  | keep h _ => exact same_kept h hk
  | refill hf =>
    have ha := slabAlloc_kept hk (slabAlloc_some.mpr ⟨rfl,_,hf,rfl⟩)
    intro x
    have := ha x
    unfold uartRxBufRsp
    split <;> simp only [List.count_cons] at this ⊢ <;> omega
  | @released buf ho =>
    intro x
    have := hk x
    simp only [slabFree, List.count_cons]
    by_cases hx : buf = x
    · subst hx
      have := List.count_pos_iff.mpr ho
      simp only [List.count_erase_self, beq_self_eq_true, if_true]
      omega
    · rw [List.count_erase_of_ne (Ne.symm hx), if_neg (by simpa using hx)]
      omega
  | handed _ => exact hk
  | restarted hf =>
    have ha := slabAlloc_kept hk (slabAlloc_some.mpr ⟨rfl,_,hf,rfl⟩)
    intro x
    have := ha x
    simp only [List.count_cons] at this ⊢
    omega
  | delayed => exact hk

/-- `uart_rx_buf_rsp` accepts the buffer it is given. -/
def Accepted (s : State) : Label → Prop
  | .isr (.rxBufRequest allocErr rspErr) =>
    (slabAlloc allocErr s.bridge).isSome = true → rspErr = 0
  | _ => True

instance (s : State) : ∀ a, Decidable (Accepted s a)
  | .isr (.rxBufRequest _ _) => inferInstanceAs (Decidable (_ → _))
  | .wait _ | .expire | .enter | .handler _ | .send _ | .setBaud _ | .call _ | .isr (.txDone _)
  | .isr (.txAborted _ _) | .isr (.rxBufReleased _) | .isr (.rxDisabled _ _) => .isTrue trivial

theorem reaction_refused {s : State} {c : Bridge} {e : Event} (h : Reaction s.bridge e c) :
    c.refused = [] ↔ s.bridge.refused = [] ∧ Accepted s (.isr e) := by
  cases h with
  | @keep e c h hq =>
    rw [h.refused]
    refine ⟨fun hr => ⟨hr,?_⟩,And.left⟩
    cases e with
    | rxBufRequest allocErr rspErr =>
      intro hf
      simp [hq allocErr rspErr rfl] at hf
    | _ => trivial
  | refill hf =>
    have hs : (slabAlloc 0 s.bridge).isSome = true := by simp [slabAlloc, hf]
    unfold uartRxBufRsp Accepted
    split <;> simp_all
  | _ => simp [slabFree, scheduleRetry, Accepted]

theorem step_kept {s t : State} {a : Label}
    (hk : Kept s.bridge (handlerBufs s.handler++callBufs s.call)) (h : step s a = some t) :
    Kept t.bridge (handlerBufs t.handler++callBufs t.call) ∧
      (t.bridge.refused = [] ↔ s.bridge.refused = [] ∧ Accepted s a) := by
  cases a with
  | wait ms =>
    obtain rfl := step_wait.mp h
    exact ⟨hk,by simp [Accepted]⟩
  | expire =>
    obtain ⟨w,_,rfl⟩ := step_expire.mp h
    exact ⟨hk,by simp [Accepted]⟩
  | enter =>
    obtain ⟨hi,w,_,rfl⟩ := step_enter.mp h
    rw [hi] at hk
    exact ⟨hk,by simp [Accepted]⟩
  | handler err =>
    obtain ⟨b,pc,hn,rfl⟩ := step_handler.mp h
    obtain ⟨hk,hr⟩ := handlerNext_kept hk hn
    exact ⟨hk,by simp [hr, Accepted]⟩
  | send data =>
    obtain ⟨hi,rfl⟩ := step_send.mp h
    rw [hi] at hk
    exact ⟨hk,by simp [Accepted]⟩
  | setBaud baud =>
    obtain ⟨hi,rfl⟩ := step_setBaud.mp h
    rw [hi] at hk
    exact ⟨hk,by simp [Accepted]⟩
  | call err =>
    obtain ⟨b,pc,hn,rfl⟩ := step_call.mp h
    obtain ⟨hk,hr⟩ := callNext_kept (kept_swap hk) hn
    exact ⟨kept_swap hk,by simp [hr, Accepted]⟩
  | isr e =>
    obtain ⟨b,hb,rfl⟩ := step_isr.mp h
    exact ⟨reaction_kept hk (uartCb_reaction hb),reaction_refused (uartCb_reaction hb)⟩

theorem run_kept {rate : UInt32} {es : List Label} (h : run step es (init rate) = some s) :
    Kept s.bridge (handlerBufs s.handler++callBufs s.call) ∧
      (s.bridge.refused = [] ↔ AllSteps step Accepted es (init rate)) := by
  refine history (C := fun _ _ => True) (I := fun es s =>
    Kept s.bridge (handlerBufs s.handler++callBufs s.call) ∧
      (s.bridge.refused = [] ↔ AllSteps step Accepted es (init rate))) ?_ ?_ h (allSteps_true es _)
  · refine ⟨?_,by simp [init, AllSteps]⟩
    intro buf
    fin_cases buf <;> rfl
  · rintro es s a t hs ⟨hk,hr⟩ _ ht
    obtain ⟨hk,hstep⟩ := step_kept hk ht
    refine ⟨hk,?_⟩
    rw [hstep, hr, allSteps_snoc Accepted es a _ s hs]

theorem kept_at_rest {b : Bridge} (hk : Kept b []) :
    (∀ buf, b.free.count buf+b.owned.count buf = 1) ↔ b.refused = [] := by
  constructor
  · intro hall
    rw [List.eq_nil_iff_forall_not_mem]
    intro buf hbuf
    have hplace := hk buf
    have hone := hall buf
    have hpos := List.count_pos_iff.mpr hbuf
    omega
  · intro hnil buf
    have hplace := hk buf
    rw [hnil, List.count_nil] at hplace
    exact hplace

/-- No buffer is ever in two places, and with the bridge at rest none is lost if
and only if the driver has accepted every buffer `uart_rx_buf_rsp` gave it. -/
theorem slab_conserved (rate : UInt32) (es : List Label) (s : State)
    (h : run step es (init rate) = some s) :
    (∀ buf, s.bridge.free.count buf+s.bridge.owned.count buf ≤ 1) ∧
      (s.handler = .idle → s.call = .idle →
        ((∀ buf, s.bridge.free.count buf+s.bridge.owned.count buf = 1) ↔
          AllSteps step Accepted es (init rate))) := by
  obtain ⟨hk,hr⟩ := run_kept h
  constructor
  · intro buf
    have hplace := hk buf
    omega
  · intro hh hc
    rw [hh, hc] at hk
    exact (kept_at_rest hk).trans hr

theorem slab_conserved_starved :
    starved.bridge.free.count 0+starved.bridge.owned.count 0 = 1 :=
  ((slab_conserved 115200 starving starved (by decide)).2 rfl rfl).mpr (by decide) 0

/-- The driver refuses a buffer it has asked for, and no one takes it back. -/
theorem refused_buffer_lost :
    ∃ es s buf, run step es (init 115200) = some s ∧ s.handler = .idle ∧ s.call = .idle ∧
      buf ∉ s.bridge.free ∧ buf ∉ s.bridge.owned :=
  ⟨[.isr (.rxBufRequest 0 (-13))],
    { init 115200 with
      bridge := { (init 115200).bridge with
        free := [1, 0]
        refused := [2] } },2,by decide,rfl,rfl,by decide,by decide⟩

end NrfProxy.UartReception
