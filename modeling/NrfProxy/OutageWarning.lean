import NrfProxy.UartReception

/-!
# One warning for each outage

An outage of the receiver runs from a `UART_RX_DISABLED` to the next successful
`uart_rx_enable`. The ISR and the retry handler clear the latch where they
restart reception. `uart_bridge_set_baud` does not, and an outage behind it may
find the latch of the one before.
-/

set_option autoImplicit false

namespace NrfProxy.OutageWarning
open NrfProxy.Runs NrfProxy.Delayable NrfProxy.UartBridge NrfProxy.UartReception

/-- What is seen of outages: the latch where one starts, the end of one, and an
attempt of the handler which has failed. -/
inductive Mark where
  | stopped (latched : Bool)
  | restarted
  | failed (logged : Bool)
  deriving DecidableEq, Repr

/-- The outage a mark leaves, with whether an attempt has failed in it. -/
def outage : Mark → Option Bool → Option Bool
  | .stopped _, _ => some false
  | .restarted, _ => none
  | .failed _, o => o.map (fun _ => true)

/-- An outage starts with the latch clear, and its first failed attempt is the
one which logs. -/
def Told : Mark → Option Bool → Prop
  | .stopped latched, _ => latched = false
  | .failed logged, some failed => logged = !failed
  | _, _ => True

def outages : List Mark → Option Bool → Option Bool
  | [], o => o
  | m::ms, o => outages ms (outage m o)

def OncePerOutage : List Mark → Option Bool → Prop
  | [], _ => True
  | m::ms, o => Told m o ∧ OncePerOutage ms (outage m o)

instance : ∀ m o, Decidable (Told m o)
  | .stopped _, _ | .failed _, some _ => inferInstanceAs (Decidable (_ = _))
  | .failed _, none | .restarted, _ => .isTrue trivial

instance onceDecidable : ∀ ms o, Decidable (OncePerOutage ms o)
  | [], _ => .isTrue trivial
  | m::ms, o =>
    have := onceDecidable ms (outage m o)
    inferInstanceAs (Decidable (_ ∧ _))

theorem outages_append (ms ns : List Mark) (o : Option Bool) :
    outages (ms++ns) o = outages ns (outages ms o) := by
  induction ms generalizing o with
  | nil => rfl
  | cons m ms ih => exact ih (outage m o)

theorem oncePerOutage_append (ms ns : List Mark) (o : Option Bool) :
    OncePerOutage (ms++ns) o ↔ OncePerOutage ms o ∧ OncePerOutage ns (outages ms o) := by
  induction ms generalizing o with
  | nil => simp [OncePerOutage, outages]
  | cons m ms ih => simp [OncePerOutage, outages, ih, and_assoc]

theorem latched_not_once {ms : List Mark} {o : Option Bool} (h : .stopped true ∈ ms) :
    ¬OncePerOutage ms o := by
  induction ms generalizing o with
  | nil => simp at h
  | cons m ms ih =>
    rintro ⟨ht,hm⟩
    rcases List.mem_cons.mp h with rfl | h
    · simp [Told] at ht
    · exact ih h hm

def restartsInline (b : Bridge) (allocErr enableErr : ℤ) : Bool :=
  !b.reconfiguring && (slabAlloc allocErr b).isSome && enableErr = 0

def starting : CallPc → Bool
  | .enable _ _ => true
  | _ => false

def marks (s : State) : Label → List Mark
  | .isr (.rxDisabled allocErr enableErr) => .stopped s.bridge.retryWarned ::
      if restartsInline s.bridge allocErr enableErr then [.restarted] else []
  | .handler err =>
    match s.handler with
    | .enable _ => if err = 0 then [.restarted] else []
    | .warn => [.failed (uartRxRetryWarnOnce s.bridge.retryWarned).1]
    | _ => []
  | .call err => if starting s.call ∧ err = 0 then [.restarted] else []
  | _ => []

/-- The handler has found reception on and is about to clear the latch. -/
def clearing : HandlerPc → Bool
  | .freeBusy _ | .clearLatch => true
  | _ => false

/-- The restart of a baud change finds the latch clear, an attempt fails only
with the receiver off, and reception does not stop before the handler has
cleared the latch it is about to clear. -/
def Orderly (s : State) : Label → Prop
  | .call err => starting s.call = true → err = 0 → s.bridge.retryWarned = false
  | .handler _ => s.handler = .warn → s.bridge.reception = .off
  | .isr (.rxDisabled _ _) => clearing s.handler = true → s.bridge.retryWarned = false
  | _ => True

instance (s : State) : ∀ a, Decidable (Orderly s a)
  | .call _ | .handler _ | .isr (.rxDisabled _ _) => inferInstanceAs (Decidable (_ → _))
  | .wait _ | .expire | .enter | .send _ | .setBaud _ | .isr (.txDone _) | .isr (.txAborted _ _)
  | .isr (.rxBufRequest _ _) | .isr (.rxBufReleased _) => .isTrue trivial

/-- The latch is the outage's. A set one is left over from the last outage only
until the handler which ended it clears it. -/
structure Watched (s : State) (o : Option Bool) : Prop where
  seen : o = if s.bridge.reception = .off then some s.bridge.retryWarned else none
  latch : s.bridge.retryWarned = true → (s.bridge.reception = .off ↔ clearing s.handler = false)

theorem init_watched (rate : UInt32) : Watched (init rate) none := ⟨rfl,by simp [init]⟩

variable {s t : State} {a : Label} {o : Option Bool}

structure SameLatch (b c : Bridge) : Prop where
  off : c.reception = .off ↔ b.reception = .off
  retryWarned : c.retryWarned = b.retryWarned

theorem sameRx_latch {b c : Bridge} (h : SameRx b c) : SameLatch b c :=
  ⟨by rw [h.reception],h.retryWarned⟩

theorem Watched.same (hs : Watched s o) (h : SameLatch s.bridge t.bridge)
    (hh : clearing t.handler = clearing s.handler) : Watched t o := by
  constructor
  · simp only [h.off, h.retryWarned]
    exact hs.seen
  · rw [h.off, h.retryWarned, hh]
    exact hs.latch

theorem watched_on (hr : t.bridge.reception ≠ .off) (hw : t.bridge.retryWarned = false) :
    Watched t none :=
  ⟨by rw [if_neg hr],by simp [hw]⟩

theorem callNext_latch {b c : Bridge} {err : ℤ} {p q : CallPc}
    (hp : ¬(starting p = true ∧ err = 0)) (h : callNext b err p = some (c,q)) : SameLatch b c := by
  cases call_move h with
  | disabled | wasOff | refused =>
    unfold uartRxDisable
    split
    · rename_i hd
      exact ⟨by simp [hd.2],rfl⟩
    · exact ⟨Iff.rfl,rfl⟩
  | configure =>
    unfold uartConfigure
    split <;> exact ⟨Iff.rfl,rfl⟩
  | alloc hd =>
    obtain ⟨_,_,_,rfl⟩ := slabAlloc_some.mp hd
    exact ⟨Iff.rfl,rfl⟩
  | enabled hd h0 => exact absurd ⟨rfl,h0⟩ hp
  | enableFailed hd h0 =>
    rcases uartRxEnable_some.mp hd with ⟨he,_,_⟩ | ⟨_,_,rfl⟩ | ⟨_,rfl⟩
    · exact absurd he h0
    · exact ⟨Iff.rfl,rfl⟩
    · exact ⟨Iff.rfl,rfl⟩
  | staged hd => exact sameRx_latch (txStage_rx hd)
  | started | startFailed => exact sameRx_latch (uartTx_rx _ err b)
  | _ => exact ⟨Iff.rfl,rfl⟩

theorem callNext_starts {b c : Bridge} {p q : CallPc} (hp : starting p = true)
    (h : callNext b 0 p = some (c,q)) : c.reception = .on ∧ c.retryWarned = b.retryWarned := by
  cases call_move h with
  | enabled hd _ =>
    obtain ⟨_,rfl⟩ := uartRxEnable_zero.mp hd
    exact ⟨rfl,rfl⟩
  | enableFailed _ h0 => exact absurd rfl h0
  | _ => simp [starting] at hp

theorem rxDisabled_latch {b c : Bridge} {allocErr enableErr : ℤ}
    (h : uartCb b (.rxDisabled allocErr enableErr) = some c) :
    b.reception ≠ .off ∧
      if restartsInline b allocErr enableErr then c.reception = .on ∧ c.retryWarned = false
      else c.reception = .off ∧ c.retryWarned = b.retryWarned := by
  cases isr_move h with
  | handed hr hc => exact ⟨hr,by simp [restartsInline, hc]⟩
  | restarted hr hc hf => exact ⟨hr,by simp [restartsInline, hc, slabAlloc, hf]⟩
  | delayed hr _ hf =>
    have hno : restartsInline b allocErr enableErr = false := by
      rcases hf with hf | he
      · simp [restartsInline, hf]
      · simp [restartsInline, succeeded_false he]
    exact ⟨hr,by simp [hno, scheduleRetry]⟩

theorem reaction_latch {b c : Bridge} {e : Event}
    (he : ∀ allocErr enableErr, e ≠ .rxDisabled allocErr enableErr) (h : Reaction b e c) : SameLatch b c := by
  cases h with
  | keep h _ => exact sameRx_latch h
  | refill _ =>
    unfold uartRxBufRsp
    split <;> exact ⟨Iff.rfl,rfl⟩
  | released _ => exact ⟨Iff.rfl,rfl⟩
  | handed _ | restarted _ | delayed => exact absurd rfl (he _ _)

theorem isr_watched {b : Bridge} {e : Event} (hs : Watched s o) (hc : Orderly s (.isr e))
    (h : uartCb s.bridge e = some b) :
    OncePerOutage (marks s (.isr e)) o ∧
      Watched { s with bridge := b } (outages (marks s (.isr e)) o) := by
  cases e with
  | rxDisabled allocErr enableErr =>
    obtain ⟨hon,hb⟩ := rxDisabled_latch h
    have hw : s.bridge.retryWarned = false := by
      cases hcl : clearing s.handler with
      | true => exact hc hcl
      | false =>
        rw [← Bool.not_eq_true]
        exact fun hw => hon ((hs.latch hw).mpr hcl)
    simp only [marks]
    split at hb <;> rename_i hi
    · rw [if_pos hi]
      exact ⟨⟨hw,trivial,trivial⟩,watched_on (by simp [hb.1]) hb.2⟩
    · rw [if_neg hi]
      exact ⟨⟨hw,trivial⟩,⟨by simp [outages, outage, hb.1, hb.2, hw],
        by simp [hb.2, hw]⟩⟩
  | _ => exact ⟨trivial,hs.same (reaction_latch (by simp) (uartCb_reaction h)) rfl⟩

theorem handler_watched {hp hq : HandlerPc} {b c : Bridge} {err : ℤ} {pc : CallPc}
    (hs : Watched ⟨b,hp,pc⟩ o) (hc : hp = .warn → b.reception = .off)
    (h : handlerNext b err hp = some (c,hq)) :
    OncePerOutage (marks ⟨b,hp,pc⟩ (.handler err)) o ∧
      Watched ⟨c,hq,pc⟩ (outages (marks ⟨b,hp,pc⟩ (.handler err)) o) := by
  cases handler_move h with
  | held | entered | starved | alloc | freeBusy | freeFailed | schedule | leave =>
    exact ⟨trivial,hs.same ⟨Iff.rfl,rfl⟩ rfl⟩
  | enabled h0 _ =>
    subst h0
    exact ⟨⟨trivial,trivial⟩,⟨rfl,by simp [clearing]⟩⟩
  | busy he hon =>
    subst he
    -- the receiver is on already, and the latch is about to be cleared
    exact ⟨trivial,⟨hs.seen,by simp [hon, clearing]⟩⟩
  | failed he =>
    simp only [marks, if_neg (succeeded_false he)]
    exact ⟨trivial,hs.same ⟨Iff.rfl,rfl⟩ rfl⟩
  | clearLatch =>
    -- with the receiver off again the latch is clear already
    have hl : b.reception = .off → b.retryWarned = false := by
      intro hoff
      rw [← Bool.not_eq_true]
      exact fun hw => absurd ((hs.latch hw).mp hoff) (by simp [clearing])
    refine ⟨trivial,⟨hs.seen.trans ?_,by simp⟩⟩
    by_cases hoff : b.reception = .off
    · simp [hoff, hl hoff]
    · simp [hoff]
  | warn =>
    have hoff := hc rfl
    have ho := hs.seen
    rw [if_pos hoff] at ho
    subst ho
    cases hw : b.retryWarned <;>
      exact ⟨⟨by simp [hw, uartRxRetryWarnOnce, Told],trivial⟩,
        ⟨by simp [outages, outage, marks, hoff, uartRxRetryWarnOnce],by simp [hoff, clearing]⟩⟩

theorem step_watched (hs : Watched s o) (hc : Orderly s a) (h : step s a = some t) :
    OncePerOutage (marks s a) o ∧ Watched t (outages (marks s a) o) := by
  cases a with
  | wait ms =>
    obtain rfl := step_wait.mp h
    exact ⟨trivial,hs.same ⟨Iff.rfl,rfl⟩ rfl⟩
  | expire =>
    obtain ⟨w,_,rfl⟩ := step_expire.mp h
    exact ⟨trivial,hs.same ⟨Iff.rfl,rfl⟩ rfl⟩
  | enter =>
    obtain ⟨hi,w,_,rfl⟩ := step_enter.mp h
    exact ⟨trivial,hs.same ⟨Iff.rfl,rfl⟩ (by rw [hi]; rfl)⟩
  | handler err =>
    obtain ⟨b,pc,hn,rfl⟩ := step_handler.mp h
    exact handler_watched hs hc hn
  | send data =>
    obtain ⟨_,rfl⟩ := step_send.mp h
    exact ⟨trivial,hs.same ⟨Iff.rfl,rfl⟩ rfl⟩
  | setBaud baud =>
    obtain ⟨_,rfl⟩ := step_setBaud.mp h
    exact ⟨trivial,hs.same ⟨Iff.rfl,rfl⟩ rfl⟩
  | call err =>
    obtain ⟨b,pc,hn,rfl⟩ := step_call.mp h
    simp only [marks]
    split
    · rename_i hst
      obtain ⟨hst,rfl⟩ := hst
      obtain ⟨hr,hw⟩ := callNext_starts hst hn
      exact ⟨⟨trivial,trivial⟩,watched_on (by simp [hr]) (hw.trans (hc hst rfl))⟩
    · rename_i hst
      exact ⟨trivial,hs.same (callNext_latch hst hn) rfl⟩
  | isr e =>
    obtain ⟨b,hb,rfl⟩ := step_isr.mp h
    exact isr_watched hs hc hb

/-- In every orderly run each outage starts with the latch clear, and of its
failed attempts the first alone is logged. -/
theorem one_warning_per_outage (rate : UInt32) (es : List Label) (s : State)
    (h : run step es (init rate) = some s) (hc : AllSteps step Orderly es (init rate)) :
    OncePerOutage (trace step marks es (init rate)) none := by
  have hs : OncePerOutage (trace step marks es (init rate)) none ∧
      Watched s (outages (trace step marks es (init rate)) none) := by
    refine history (C := Orderly) (I := fun es s =>
      OncePerOutage (trace step marks es (init rate)) none ∧
        Watched s (outages (trace step marks es (init rate)) none)) ?_ ?_ h hc
    · exact ⟨trivial,init_watched rate⟩
    · rintro es s a t hr ⟨ho,hw⟩ ha ht
      obtain ⟨hm,hw⟩ := step_watched hw ha ht
      rw [trace_snoc marks es a _ s hr, oncePerOutage_append, outages_append]
      exact ⟨⟨ho,hm⟩,hw⟩
  exact hs.1

def retriedOnce : List Label :=
  List.flatten [[.isr (.rxBufReleased slab.head?), .isr (.rxDisabled 0 (-1)), .wait 100, .expire,
    .enter, .handler 0, .handler 0, .handler (-1)], List.replicate 4 (.handler 0)]

def toldTwice : List Label :=
  List.flatten [retriedOnce, [.wait 100, .expire, .enter], List.replicate 5 (.handler 0),
    retriedOnce]

def secondOutage : State :=
  { init 115200 with
    bridge :=
      { (init 115200).bridge with
        now := 300
        free := slab
        owned := []
        reception := .off
        retryWork := ⟨some 400,false,.returned⟩
        retryWarned := true } }

theorem one_warning_per_outage_twice :
    OncePerOutage (trace step marks toldTwice (init 115200)) none :=
  one_warning_per_outage 115200 toldTwice secondOutage (by decide) (by decide)

def hiddenOutage : List Label :=
  List.flatten [retriedOnce, [.setBaud 9600], List.replicate 4 (.call 0), [.call (-EFAULT)],
    List.replicate 6 (.call 0), retriedOnce]

/-- No attempt is logged in the outage behind the change. -/
theorem outage_not_told :
    (run step hiddenOutage (init 115200)).isSome ∧
      trace step marks hiddenOutage (init 115200) =
        [.stopped false, .failed true, .restarted, .stopped true, .failed false] ∧
      ¬OncePerOutage (trace step marks hiddenOutage (init 115200)) none := by
  decide +kernel

theorem rxDisabled_possible {b : Bridge} (h : b.reception ≠ .off) :
    ∃ c, uartCb b (.rxDisabled 0 (-1)) = some c := by
  cases hr : b.reconfiguring with
  | true => simp [uartCb, h, hr]
  | false =>
    cases hf : b.free <;> simp [uartCb, h, hr, restartRx, slabAlloc, hf, uartRxEnable, EBUSY]

theorem next_outage_latched (h : s.bridge.reception ≠ .off) (hw : s.bridge.retryWarned = true) :
    ∃ t, step s (.isr (.rxDisabled 0 (-1))) = some t ∧
      .stopped true ∈ marks s (.isr (.rxDisabled 0 (-1))) := by
  obtain ⟨c,hc⟩ := rxDisabled_possible h
  exact ⟨_,step_isr.mpr ⟨c,hc,rfl⟩,by simp [marks, hw]⟩

/-- Behind each step out of order the latch is set at the start of an outage, which is
that step or the next. -/
theorem disorder_latched (ho : ¬Orderly s a) (h : step s a = some t) :
    ∃ es u, es.length ≤ 1 ∧ run step es t = some u ∧
      .stopped true ∈ marks s a++trace step marks es t := by
  have hnext (hr : t.bridge.reception ≠ .off) (hw : t.bridge.retryWarned = true) :
      ∃ es u, es.length ≤ 1 ∧ run step es t = some u ∧
        .stopped true ∈ marks s a++trace step marks es t := by
    obtain ⟨u,hu,hm⟩ := next_outage_latched hr hw
    exact ⟨[.isr (.rxDisabled 0 (-1))],u,le_rfl,by simp [run, hu],
      List.mem_append_right _ (by rw [trace_singleton]; exact hm)⟩
  cases a with
  | call err =>
    obtain ⟨hst,rfl,hw⟩ : starting s.call = true ∧ err = 0 ∧ s.bridge.retryWarned = true := by
      simpa [Orderly] using ho
    obtain ⟨b,pc,hn,rfl⟩ := step_call.mp h
    obtain ⟨hr,hl⟩ := callNext_starts hst hn
    exact hnext (by simp [hr]) (hl.trans hw)
  | handler err =>
    obtain ⟨hp,hon⟩ : s.handler = .warn ∧ s.bridge.reception ≠ .off := by
      simpa [Orderly] using ho
    obtain ⟨b,pc,hn,rfl⟩ := step_handler.mp h
    rw [hp] at hn
    obtain ⟨rfl,rfl⟩ := Prod.mk.inj (Option.some.inj hn)
    refine hnext hon ?_
    dsimp only [uartRxRetryWarnOnce]
    cases hw : s.bridge.retryWarned <;> rfl
  | isr e =>
    cases e with
    | rxDisabled allocErr enableErr =>
      have hw : s.bridge.retryWarned = true := by simpa [Orderly] using (Classical.not_imp.mp ho).2
      exact ⟨[],t,Nat.zero_le 1,rfl,by simp [marks, hw]⟩
    | _ => exact absurd trivial ho
  | _ => exact absurd trivial ho

/-- No condition of an orderly run can be dropped: that step or the next starts an
outage which is not told. -/
theorem disorder_not_told (rate : UInt32) (es : List Label) (s t : State) (a : Label)
    (h : run step es (init rate) = some s) (ho : ¬Orderly s a) (ht : step s a = some t) :
    ∃ fs u, fs.length ≤ 1 ∧ run step (es++a::fs) (init rate) = some u ∧
      ¬OncePerOutage (trace step marks (es++a::fs) (init rate)) none := by
  obtain ⟨fs,u,hlen,hu,hm⟩ := disorder_latched ho ht
  refine ⟨fs,u,hlen,by simp [run_append, h, run, ht, hu],?_⟩
  apply latched_not_once
  rw [trace_append marks es _ _ s h]
  simp only [trace, ht, Option.elim_some]
  exact List.mem_append_right _ hm

end NrfProxy.OutageWarning
