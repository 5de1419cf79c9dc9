import NrfProxy.UartReception

/-!
# The TX pump

`uart_tx_kick` moves a chunk from the ring to the staging buffer and starts the
driver on it. Both the calls and the ISR run it, and either leaves it to the
other where it finds a flag set. The bytes are followed from the ring through
the calls of `uart_tx` to what the driver reports, and the bytes in the ring
have at every moment an event, a call or a failed start to explain them.
-/

set_option autoImplicit false

namespace NrfProxy.UartTransmit
open NrfProxy.Runs NrfProxy.Delayable NrfProxy.UartBridge NrfProxy.UartReception

def accepts (s : State) : Label → List UInt8
  | .call _ =>
    match s.call with
    | .put data => data.take (txRingSize-s.bridge.txRing.length)
    | _ => []
  | _ => []

/-- The bridge as the ISR's kick finds it. -/
def completed (b : Bridge) : Event → Option Bridge
  | .txDone _ => (finishTx b).map (fun c => txIdle c.2)
  | .txAborted sent _ =>
    (finishTx b).map (fun c =>
      let aborted := if sent < b.txLen then b.txLen-sent else 0
      txIdle (if 0 < aborted then addDrops aborted c.2 else c.2))
  | _ => none

/-- The chunk the ISR's kick passes to `uart_tx`, and the result. -/
def kickStarts (err : ℤ) (b : Bridge) : List (List UInt8 × ℤ) :=
  match txStage b with
  | none => []
  | some (len,c) => [(c.txBuf.take len,err)]

def starts (s : State) : Label → List (List UInt8 × ℤ)
  | .call err =>
    match s.call with
    | .tx len _ => [(s.bridge.txBuf.take len,err)]
    | _ => []
  | .isr (.txDone txErr) =>
    (completed s.bridge (.txDone txErr)).elim [] (kickStarts txErr)
  | .isr (.txAborted sent txErr) =>
    (completed s.bridge (.txAborted sent txErr)).elim [] (kickStarts txErr)
  | _ => []

def reports (s : State) : Label → List ℕ
  | .isr (.txDone _) => s.bridge.inFlight.head?.toList.map List.length
  | .isr (.txAborted sent _) => [sent]
  | _ => []

structure SameTx (b c : Bridge) : Prop where
  ring : c.txRing = b.txRing
  buf : c.txBuf = b.txBuf
  inProgress : c.txInProgress = b.txInProgress
  len : c.txLen = b.txLen
  drops : c.dropsUartTx = b.dropsUartTx
  inFlight : c.inFlight = b.inFlight

theorem slabAlloc_tx {b c : Bridge} {buf : Buf} {err : ℤ} (h : slabAlloc err b = some (buf,c)) :
    SameTx b c := by
  obtain ⟨_,_,_,rfl⟩ := slabAlloc_some.mp h
  exact ⟨rfl,rfl,rfl,rfl,rfl,rfl⟩

theorem uartRxEnable_tx {b c : Bridge} {buf : Buf} {err : ℤ} (h : uartRxEnable buf err b = some c) :
    SameTx b c := by
  obtain ⟨_,_,rfl⟩ | ⟨_,_,rfl⟩ | ⟨_,rfl⟩ := uartRxEnable_some.mp h <;> exact ⟨rfl,rfl,rfl,rfl,rfl,rfl⟩

theorem handlerNext_tx {b c : Bridge} {err : ℤ} {p q : HandlerPc}
    (h : handlerNext b err p = some (c,q)) : SameTx b c := by
  cases handler_move h <;> exact ⟨rfl,rfl,rfl,rfl,rfl,rfl⟩

def isTx : Event → Bool
  | .txDone _ | .txAborted _ _ => true
  | _ => false

theorem uartCb_tx {b c : Bridge} {e : Event} (he : isTx e = false) (h : uartCb b e = some c) :
    SameTx b c := by
  cases isr_move h with
  | txDone | txAborted => simp [isTx] at he
  | refill =>
    unfold uartRxBufRsp
    split <;> exact ⟨rfl,rfl,rfl,rfl,rfl,rfl⟩
  | starved | noBuffer | released | handed | restarted | delayed => exact ⟨rfl,rfl,rfl,rfl,rfl,rfl⟩

def LastFailed (calls : List (List UInt8 × ℤ)) : Prop := ∃ x, calls.getLast? = some x ∧ x.2 ≠ 0

/-- The pump is off, or the driver has the whole staging buffer. -/
def Settled (b : Bridge) : Prop :=
  b.txInProgress = true ∧ b.inFlight = [b.txBuf] ∧ b.txLen = b.txBuf.length ∨
  b.txInProgress = false ∧ b.inFlight = []

def starting : CallPc → Bool
  | .tx _ _ | .countDrop _ _ _ | .keepErr _ _ | .txIdle _ => true
  | _ => false

def kicks : CallPc → Bool
  | .idle => false
  | pc => !starting pc

/-- What the flag, the buffer and the driver are for each place of the call. -/
def Pump (calls : List (List UInt8 × ℤ)) (b : Bridge) : CallPc → Prop
  | .tx len _ => b.txInProgress = true ∧ b.inFlight = [] ∧ b.txLen = len ∧ len = b.txBuf.length
  | .countDrop _ _ _ | .keepErr _ _ | .txIdle _ =>
    b.txInProgress = true ∧ b.inFlight = [] ∧ LastFailed calls
  | _ => Settled b

/-- The chunk which is out of the ring and not yet passed to `uart_tx`. -/
def staged (b : Bridge) : CallPc → List UInt8
  | .tx _ _ => b.txBuf
  | _ => []

/-- The length of a failed chunk until it is counted. -/
def pendingDrop : CallPc → ℕ
  | .countDrop len _ _ => len
  | _ => 0

def passed (calls : List (List UInt8 × ℤ)) : List UInt8 := (calls.map Prod.fst).flatten

/-- `ins` have been accepted, `calls` made and `sents` reported. -/
structure Flow (ins : List UInt8) (calls : List (List UInt8 × ℤ)) (sents : List ℕ) (b : Bridge)
    (pc : CallPc) : Prop where
  pump : Pump calls b pc
  order : ins = passed calls++staged b pc++b.txRing
  count : ∃ dropped, b.dropsUartTx = UInt32.ofNat dropped ∧
    (passed calls).length =
      (b.inFlight.map List.length).sum+sents.sum+dropped+pendingDrop pc
  primed : b.txRing ≠ [] → b.txInProgress = true ∨ kicks pc = true ∨ LastFailed calls

variable {ins : List UInt8} {calls : List (List UInt8 × ℤ)} {sents : List ℕ} {b c : Bridge}
  {p q : CallPc} {err : ℤ}

theorem pump_plain (h : starting p = false) : Pump calls b p ↔ Settled b := by
  cases p with
  | tx | countDrop | keepErr | txIdle => simp [starting] at h
  | _ => exact Iff.rfl

theorem staged_plain (h : starting p = false) : staged b p = [] := by
  cases p with
  | tx => simp [starting] at h
  | _ => rfl

theorem pendingDrop_plain (h : starting p = false) : pendingDrop p = 0 := by
  cases p with
  | countDrop => simp [starting] at h
  | _ => rfl

theorem settled_congr (h : SameTx b c) : Settled c ↔ Settled b := by
  simp [Settled, h.inProgress, h.inFlight, h.buf, h.len]

theorem Flow.same (hs : Flow ins calls sents b p) (h : SameTx b c) : Flow ins calls sents c p := by
  have hpump : Pump calls c p ↔ Pump calls b p := by
    cases p with
    | tx => simp [Pump, h.inProgress, h.inFlight, h.buf, h.len]
    | countDrop | keepErr | txIdle => simp [Pump, h.inProgress, h.inFlight]
    | _ => exact settled_congr h
  have hstaged : staged c p = staged b p := by
    cases p with
    | tx => exact h.buf
    | _ => rfl
  constructor
  · exact hpump.mpr hs.pump
  · rw [hstaged, h.ring]
    exact hs.order
  · rw [h.drops, h.inFlight]
    exact hs.count
  · rw [h.ring, h.inProgress]
    exact hs.primed

theorem Flow.move (hs : Flow ins calls sents b p) (hp : starting p = false)
    (hq : starting q = false) (hk : kicks p = true → kicks q = true) :
    Flow ins calls sents b q := by
  constructor
  · exact (pump_plain hq).mpr ((pump_plain hp).mp hs.pump)
  · rw [staged_plain hq, ← staged_plain (b := b) hp]
    exact hs.order
  · rw [pendingDrop_plain hq, ← pendingDrop_plain hp]
    exact hs.count
  · intro hr
    rcases hs.primed hr with hx | hx | hx
    · exact Or.inl hx
    · exact Or.inr (Or.inl (hk hx))
    · exact Or.inr (Or.inr hx)

theorem txStage_some {len : ℕ} : txStage b = some (len,c) ↔
    b.txInProgress = false ∧ b.reconfiguring = false ∧ len = min b.txRing.length uartBufSize ∧
      len ≠ 0 ∧ c = { b with
        txBuf := b.txRing.take len
        txRing := b.txRing.drop len
        txInProgress := true
        txLen := len } := by
  simp only [txStage, Option.ite_none_left_eq_some, Option.some.injEq, Prod.mk.injEq,
    Bool.or_eq_true, not_or, Bool.not_eq_true]
  constructor
  · rintro ⟨⟨hp,hr⟩,hl,rfl,rfl⟩
    exact ⟨hp,hr,rfl,hl,rfl⟩
  · rintro ⟨hp,hr,rfl,hl,rfl⟩
    exact ⟨⟨hp,hr⟩,hl,rfl,rfl⟩

theorem txStage_none (h : txStage b = none) :
    b.txInProgress = true ∨ b.reconfiguring = true ∨ b.txRing = [] := by
  simp only [txStage, ite_eq_left_iff, Bool.or_eq_true, not_or, reduceCtorEq, imp_false,
    Decidable.not_not] at h
  by_cases hp : b.txInProgress = true
  · exact Or.inl hp
  by_cases hr : b.reconfiguring = true
  · exact Or.inr (Or.inl hr)
  · have hz := h ⟨hp,hr⟩
    apply Or.inr
    apply Or.inr
    apply List.length_eq_zero_iff.mp
    simp only [uartBufSize] at hz
    omega

theorem passed_snoc (calls : List (List UInt8 × ℤ)) (chunk : List UInt8) (err : ℤ) :
    passed (calls++[(chunk,err)]) = passed calls++chunk := by
  simp [passed]

theorem lastFailed_snoc (calls : List (List UInt8 × ℤ)) (chunk : List UInt8) {err : ℤ}
    (h : err ≠ 0) : LastFailed (calls++[(chunk,err)]) := ⟨(chunk,err),by simp,h⟩

theorem put_flow {data : List UInt8} {ret : Option ℤ} (hs : Flow ins calls sents b (.put data)) :
    Flow (ins++data.take (txRingSize-b.txRing.length)) calls sents (txPut data b) (.kick ret) := by
  constructor
  · exact hs.pump
  · rw [hs.order]
    simp [staged, txPut]
  · exact hs.count
  · exact fun _ => Or.inr (Or.inl rfl)

theorem nothing_flow {ret : Option ℤ} (hs : Flow ins calls sents b (.kick ret))
    (hr : b.reconfiguring = false) (h : txStage b = none) : Flow ins calls sents b .idle := by
  refine ⟨hs.pump,hs.order,hs.count,?_⟩
  intro hne
  rcases txStage_none h with hx | hx | hx
  · exact Or.inl hx
  · simp [hr] at hx
  · exact absurd hx hne

theorem staged_flow {len : ℕ} {ret : Option ℤ} (hs : Flow ins calls sents b (.kick ret))
    (h : txStage b = some (len,c)) : Flow ins calls sents c (.tx len ret) := by
  obtain ⟨hp,_,hlen,_,rfl⟩ := txStage_some.mp h
  have hin : b.inFlight = [] := by
    rcases hs.pump with ⟨hx,_⟩ | ⟨_,hx⟩
    · simp [hp] at hx
    · exact hx
  refine ⟨⟨rfl,hin,rfl,?_⟩,?_,hs.count,fun _ => Or.inl rfl⟩
  · simp only [List.length_take]
    omega
  · rw [hs.order]
    simp [staged]

theorem started_flow {len : ℕ} {ret : Option ℤ} (hs : Flow ins calls sents b (.tx len ret)) :
    Flow ins (calls++[(b.txBuf.take len,0)]) sents (uartTx len 0 b) .idle := by
  obtain ⟨hp,hin,hl,hlen⟩ := hs.pump
  have htake : b.txBuf.take len = b.txBuf := by rw [hlen, List.take_length]
  have hcount := hs.count
  have horder := hs.order
  simp only [hin, List.map_nil, List.sum_nil, staged, pendingDrop] at hcount horder
  simp only [uartTx, if_true, htake]
  refine ⟨Or.inl ⟨hp,by simp [hin],hl.trans hlen⟩,?_,?_,fun _ => Or.inl hp⟩
  · rw [horder, passed_snoc]
    simp [staged]
  · obtain ⟨dropped,hd,hc⟩ := hcount
    refine ⟨dropped,hd,?_⟩
    simp only [passed_snoc, List.length_append, hc, hin, List.nil_append, List.map_cons,
      List.map_nil, List.sum_cons, List.sum_nil, pendingDrop]
    omega

theorem startFailed_flow {len : ℕ} {ret : Option ℤ} (hs : Flow ins calls sents b (.tx len ret))
    (he : err ≠ 0) : Flow ins (calls++[(b.txBuf.take len,err)]) sents (uartTx len err b)
      (.countDrop len err ret) := by
  obtain ⟨hp,hin,hl,hlen⟩ := hs.pump
  have htake : b.txBuf.take len = b.txBuf := by rw [hlen, List.take_length]
  have hcount := hs.count
  have horder := hs.order
  simp only [hin, List.map_nil, List.sum_nil, staged, pendingDrop] at hcount horder
  simp only [uartTx, he, if_false, htake]
  refine ⟨⟨hp,hin,lastFailed_snoc _ _ he⟩,?_,?_,fun _ => Or.inl hp⟩
  · rw [horder, passed_snoc]
    simp [staged]
  · obtain ⟨dropped,hd,hc⟩ := hcount
    refine ⟨dropped,hd,?_⟩
    simp only [passed_snoc, List.length_append, hc, hin, List.map_nil, List.sum_nil, pendingDrop]
    omega

theorem countDrop_flow {len : ℕ} {txErr : ℤ} {ret : Option ℤ}
    (hs : Flow ins calls sents b (.countDrop len txErr ret)) :
    Flow ins calls sents (addDrops len b) (.keepErr txErr ret) := by
  refine ⟨hs.pump,hs.order,?_,fun _ => Or.inl hs.pump.1⟩
  obtain ⟨dropped,hd,hc⟩ := hs.count
  refine ⟨dropped+len,?_,?_⟩
  · simp [addDrops, hd, UInt32.ofNat_add]
  · simp only [addDrops, pendingDrop] at hc ⊢
    omega

theorem txIdle_flow {ret : Option ℤ} (hs : Flow ins calls sents b (.txIdle ret)) :
    Flow ins calls sents (txIdle b) .idle :=
  ⟨Or.inr ⟨rfl,hs.pump.2.1⟩,hs.order,hs.count,fun _ => Or.inr (Or.inr hs.pump.2.2)⟩

theorem keepErr_flow {txErr : ℤ} {ret : Option ℤ} (hs : Flow ins calls sents b (.keepErr txErr ret)) :
    Flow ins calls sents (keepErr txErr b) (.txIdle ret) :=
  ⟨hs.pump,hs.order,hs.count,fun _ => Or.inl hs.pump.1⟩

theorem Flow.plain (hp : starting p = false) (hset : Settled b)
    (horder : ins = passed calls++b.txRing)
    (hcount : ∃ dropped, b.dropsUartTx = UInt32.ofNat dropped ∧
      (passed calls).length = (b.inFlight.map List.length).sum+sents.sum+dropped)
    (hprimed : b.txRing ≠ [] → b.txInProgress = true ∨ kicks p = true ∨ LastFailed calls) :
    Flow ins calls sents b p := by
  constructor
  · exact (pump_plain hp).mpr hset
  · rw [staged_plain hp, List.append_nil]
    exact horder
  · rw [pendingDrop_plain hp]
    exact hcount
  · exact hprimed

theorem uartTxKick_flow (hp : starting p = false) (hoff : b.txInProgress = false)
    (hin : b.inFlight = []) (horder : ins = passed calls++b.txRing)
    (hcount : ∃ dropped, b.dropsUartTx = UInt32.ofNat dropped ∧
      (passed calls).length = sents.sum+dropped)
    (hflag : b.reconfiguring = true → kicks p = true) :
    Flow ins (calls++kickStarts err b) sents (uartTxKick err b) p := by
  obtain ⟨dropped,hd,hc⟩ := hcount
  cases hst : txStage b with
  | none =>
    simp only [kickStarts, uartTxKick, hst, List.append_nil]
    apply Flow.plain hp (Or.inr ⟨hoff,hin⟩) horder
    · exact ⟨dropped,hd,by simp [hin, hc]⟩
    · intro hne
      rcases txStage_none hst with hx | hx | hx
      · simp [hoff] at hx
      · exact Or.inr (Or.inl (hflag hx))
      · exact absurd hx hne
  | some x =>
    obtain ⟨len,d⟩ := x
    obtain ⟨_,_,hlen,_,rfl⟩ := txStage_some.mp hst
    have htake : (b.txRing.take len).take len = b.txRing.take len := by simp [List.take_take]
    have hchunk : (b.txRing.take len).length = len := by
      rw [List.length_take]
      omega
    simp only [kickStarts, uartTxKick, hst, htake]
    by_cases he : err = 0
    · simp only [he, if_true, uartTx, htake, hin, List.nil_append]
      apply Flow.plain hp
      · exact Or.inl ⟨rfl,rfl,hchunk.symm⟩
      · rw [passed_snoc, horder, List.append_assoc, List.take_append_drop]
      · refine ⟨dropped,hd,?_⟩
        simp only [passed_snoc, List.length_append, hc, List.map_cons, List.map_nil, List.sum_cons,
          List.sum_nil]
        omega
      · exact fun _ => Or.inl rfl
    · simp only [he, if_false, uartTx]
      apply Flow.plain hp
      · exact Or.inr ⟨rfl,hin⟩
      · rw [passed_snoc, horder, List.append_assoc]
        simp [txIdle, keepErr, addDrops]
      · refine ⟨dropped+len,?_,?_⟩
        · simp [txIdle, keepErr, addDrops, hd, UInt32.ofNat_add]
        · simp only [passed_snoc, List.length_append, hc, hchunk, txIdle, keepErr, addDrops, hin,
            List.map_nil, List.sum_nil]
          omega
      · exact fun _ => Or.inr (Or.inr (lastFailed_snoc _ _ he))

theorem Flow.transfer (hs : Flow ins calls sents b p) (h : b.inFlight ≠ []) :
    starting p = false ∧ b.inFlight = [b.txBuf] ∧ b.txLen = b.txBuf.length := by
  have hp : starting p = false := by
    cases p with
    | tx => exact absurd hs.pump.2.1 h
    | countDrop | keepErr | txIdle => exact absurd hs.pump.2.1 h
    | _ => rfl
  rcases (pump_plain hp).mp hs.pump with ⟨_,hin,hl⟩ | ⟨_,hin⟩
  · exact ⟨hp,hin,hl⟩
  · exact absurd hin h

theorem kicks_of_owns (h : owns p = true) : kicks p = true := by
  cases p <;> first | rfl | simp [owns] at h

variable {s t : State} {a : Label}

theorem finishTx_transfer {chunk : List UInt8} (h : b.inFlight = [chunk]) :
    finishTx b = some (chunk,{ b with inFlight := [] }) := by
  simp [finishTx, h]

theorem txDone_flow (hs : Flow ins calls sents s.bridge s.call) (ha : Flagged s)
    (h : uartCb s.bridge (.txDone err) = some c) :
    Flow ins (calls++starts s (.isr (.txDone err))) (sents++reports s (.isr (.txDone err))) c
      s.call := by
  have hne : s.bridge.inFlight ≠ [] := by
    intro hin
    simp [uartCb, finishTx, hin] at h
  obtain ⟨hp,hin,_⟩ := hs.transfer hne
  have hfin := finishTx_transfer hin
  obtain ⟨dropped,hd,hc⟩ := hs.count
  have horder := hs.order
  rw [staged_plain hp, List.append_nil] at horder
  rw [pendingDrop_plain hp] at hc
  simp only [uartCb, hfin, Option.map_some, Option.some.injEq] at h
  obtain rfl := h
  have hrep : reports s (.isr (.txDone err)) = [s.bridge.txBuf.length] := by simp [reports, hin]
  simp only [starts, completed, hfin, Option.map_some, Option.elim_some, hrep]
  apply uartTxKick_flow hp
  · rfl
  · rfl
  · exact horder
  · refine ⟨dropped,hd,?_⟩
    simp only [hin, List.map_cons, List.map_nil, List.sum_cons, List.sum_nil] at hc
    simp only [List.sum_append, List.sum_cons, List.sum_nil]
    omega
  · exact fun hr => kicks_of_owns (ha.symm.trans hr)

theorem txAborted_flow {sent : ℕ} (hs : Flow ins calls sents s.bridge s.call) (ha : Flagged s)
    (h : uartCb s.bridge (.txAborted sent err) = some c) :
    Flow ins (calls++starts s (.isr (.txAborted sent err)))
      (sents++reports s (.isr (.txAborted sent err))) c s.call := by
  have hne : s.bridge.inFlight ≠ [] := by
    intro hin
    simp [uartCb, finishTx, hin] at h
  obtain ⟨hp,hin,hlen⟩ := hs.transfer hne
  have hfin := finishTx_transfer hin
  obtain ⟨dropped,hd,hc⟩ := hs.count
  have horder := hs.order
  rw [staged_plain hp, List.append_nil] at horder
  rw [pendingDrop_plain hp] at hc
  simp only [uartCb, hfin, Option.bind_some, Option.ite_none_right_eq_some, Option.some.injEq] at h
  obtain ⟨hle,rfl⟩ := h
  have hrep : reports s (.isr (.txAborted sent err)) = [sent] := rfl
  simp only [starts, completed, hfin, Option.map_some, Option.elim_some, hrep]
  simp only [hin, List.map_cons, List.map_nil, List.sum_cons, List.sum_nil] at hc
  have hflag (hr : s.bridge.reconfiguring = true) := kicks_of_owns (ha.symm.trans hr)
  -- what was not sent is counted, unless there is nothing to count
  by_cases hab : sent < s.bridge.txLen
  · have hpos : 0 < s.bridge.txLen-sent := by omega
    simp only [hab, if_true, hpos]
    apply uartTxKick_flow hp
    · rfl
    · rfl
    · exact horder
    · refine ⟨dropped+(s.bridge.txLen-sent),?_,?_⟩
      · simp [txIdle, addDrops, hd, UInt32.ofNat_add]
      · simp only [List.sum_append, List.sum_cons, List.sum_nil]
        omega
    · exact hflag
  · simp only [hab, if_false, lt_irrefl]
    apply uartTxKick_flow hp
    · rfl
    · rfl
    · exact horder
    · refine ⟨dropped,hd,?_⟩
      simp only [List.sum_append, List.sum_cons, List.sum_nil]
      omega
    · exact hflag

theorem callNext_tx (hput : ∀ data, p ≠ .put data) (hkick : ∀ ret, p ≠ .kick ret)
    (hp : starting p = false) (h : callNext b err p = some (c,q)) :
    SameTx b c ∧ starting q = false ∧ kicks q = true := by
  cases call_move h with
  | put => exact absurd rfl (hput _)
  | nothing | staged => exact absurd rfl (hkick _)
  | started | startFailed | countDrop | keepErr | txIdle => simp [starting] at hp
  | disabled | wasOff | refused =>
    unfold uartRxDisable
    split <;> exact ⟨⟨rfl,rfl,rfl,rfl,rfl,rfl⟩,rfl,rfl⟩
  | configure =>
    unfold uartConfigure
    split <;> exact ⟨⟨rfl,rfl,rfl,rfl,rfl,rfl⟩,rfl,rfl⟩
  | alloc hd => exact ⟨slabAlloc_tx hd,rfl,rfl⟩
  | enabled hd | enableFailed hd => exact ⟨uartRxEnable_tx hd,rfl,rfl⟩
  | _ => exact ⟨⟨rfl,rfl,rfl,rfl,rfl,rfl⟩,rfl,rfl⟩

theorem call_flow (hs : Flow ins calls sents s.bridge s.call) (ha : Flagged s)
    (h : callNext s.bridge err s.call = some (c,q)) :
    Flow (ins++accepts s (.call err)) (calls++starts s (.call err)) sents c q := by
  obtain ⟨b,hpc,p⟩ := s
  have hflag (ret : Option ℤ) (hp : p = .kick ret) : b.reconfiguring = false :=
    ha.trans (congrArg owns hp)
  cases call_move h with
  | put =>
    simp only [accepts, starts, List.append_nil]
    exact put_flow hs
  | nothing hn =>
    simp only [accepts, starts, List.append_nil]
    exact nothing_flow hs (hflag _ rfl) hn
  | staged hd =>
    simp only [accepts, starts, List.append_nil]
    exact staged_flow hs hd
  | started h0 =>
    subst h0
    simp only [accepts, starts, List.append_nil]
    exact started_flow hs
  | startFailed h0 =>
    simp only [accepts, starts, List.append_nil]
    exact startFailed_flow hs h0
  | countDrop =>
    simp only [accepts, starts, List.append_nil]
    exact countDrop_flow hs
  | keepErr =>
    simp only [accepts, starts, List.append_nil]
    exact keepErr_flow hs
  | txIdle =>
    simp only [accepts, starts, List.append_nil]
    exact txIdle_flow hs
  | _ =>
    obtain ⟨htx,hq,hk⟩ := callNext_tx (by simp) (by simp) rfl h
    simp only [accepts, starts, List.append_nil]
    exact (hs.same htx).move rfl hq (fun _ => hk)

structure Pumping (ins : List UInt8) (calls : List (List UInt8 × ℤ)) (sents : List ℕ) (s : State) :
    Prop where
  flagged : Flagged s
  flow : Flow ins calls sents s.bridge s.call

theorem init_pumping (rate : UInt32) : Pumping [] [] [] (init rate) :=
  ⟨init_flagged rate,Or.inr ⟨rfl,rfl⟩,rfl,⟨0,rfl,rfl⟩,fun h => absurd rfl h⟩

theorem step_pumping (hs : Pumping ins calls sents s) (h : step s a = some t) :
    Pumping (ins++accepts s a) (calls++starts s a) (sents++reports s a) t := by
  apply Pumping.mk (step_flagged hs.flagged h)
  cases a with
  | wait ms =>
    obtain rfl := step_wait.mp h
    simp only [accepts, starts, reports, List.append_nil]
    exact hs.flow.same ⟨rfl,rfl,rfl,rfl,rfl,rfl⟩
  | expire =>
    obtain ⟨w,_,rfl⟩ := step_expire.mp h
    simp only [accepts, starts, reports, List.append_nil]
    exact hs.flow.same ⟨rfl,rfl,rfl,rfl,rfl,rfl⟩
  | enter =>
    obtain ⟨_,w,_,rfl⟩ := step_enter.mp h
    simp only [accepts, starts, reports, List.append_nil]
    exact hs.flow.same ⟨rfl,rfl,rfl,rfl,rfl,rfl⟩
  | handler err =>
    obtain ⟨b,pc,hn,rfl⟩ := step_handler.mp h
    simp only [accepts, starts, reports, List.append_nil]
    exact hs.flow.same (handlerNext_tx hn)
  | send data =>
    obtain ⟨hi,rfl⟩ := step_send.mp h
    have hf := hs.flow
    rw [hi] at hf
    simp only [accepts, starts, reports, List.append_nil]
    exact hf.move rfl rfl (fun _ => rfl)
  | setBaud baud =>
    obtain ⟨hi,rfl⟩ := step_setBaud.mp h
    have hf := hs.flow
    rw [hi] at hf
    simp only [accepts, starts, reports, List.append_nil]
    exact hf.move rfl rfl (fun _ => rfl)
  | call err =>
    obtain ⟨b,pc,hn,rfl⟩ := step_call.mp h
    simp only [reports, List.append_nil]
    exact call_flow hs.flow hs.flagged hn
  | isr e =>
    obtain ⟨b,hb,rfl⟩ := step_isr.mp h
    cases e with
    | txDone txErr =>
      simp only [accepts, List.append_nil]
      exact txDone_flow hs.flow hs.flagged hb
    | txAborted sent txErr =>
      simp only [accepts, List.append_nil]
      exact txAborted_flow hs.flow hs.flagged hb
    | _ =>
      simp only [accepts, starts, reports, List.append_nil]
      exact hs.flow.same (uartCb_tx rfl hb)

theorem transfer_kept (hs : Flow ins calls sents s.bridge s.call) (hne : s.bridge.inFlight ≠ [])
    (ha : ∀ e, a = .isr e → isTx e = false) (h : step s a = some t) :
    t.bridge.txBuf = s.bridge.txBuf ∧ t.bridge.inFlight = s.bridge.inFlight := by
  obtain ⟨hp,_,_⟩ := hs.transfer hne
  cases a with
  | wait ms =>
    obtain rfl := step_wait.mp h
    exact ⟨rfl,rfl⟩
  | expire =>
    obtain ⟨w,_,rfl⟩ := step_expire.mp h
    exact ⟨rfl,rfl⟩
  | enter =>
    obtain ⟨_,w,_,rfl⟩ := step_enter.mp h
    exact ⟨rfl,rfl⟩
  | handler err =>
    obtain ⟨b,pc,hn,rfl⟩ := step_handler.mp h
    have htx := handlerNext_tx hn
    exact ⟨htx.buf,htx.inFlight⟩
  | send data =>
    obtain ⟨_,rfl⟩ := step_send.mp h
    exact ⟨rfl,rfl⟩
  | setBaud baud =>
    obtain ⟨_,rfl⟩ := step_setBaud.mp h
    exact ⟨rfl,rfl⟩
  | isr e =>
    obtain ⟨b,hb,rfl⟩ := step_isr.mp h
    have htx := uartCb_tx (ha e rfl) hb
    exact ⟨htx.buf,htx.inFlight⟩
  | call err =>
    obtain ⟨b,pc,hn,rfl⟩ := step_call.mp h
    have hon : s.bridge.txInProgress = true := by
      rcases (pump_plain hp).mp hs.pump with ⟨hon,_⟩ | ⟨_,hin⟩
      · exact hon
      · exact absurd hin hne
    by_cases hpk : (∃ data, s.call = .put data) ∨ ∃ ret, s.call = .kick ret
    · generalize hc : s.call = p at hn hpk
      cases call_move hn with
      | put | nothing => exact ⟨rfl,rfl⟩
      | staged hd =>
        -- the flag of the transfer holds the kick back
        rw [(txStage_some.mp hd).1] at hon
        contradiction
      | _ => simp at hpk
    · have htx := (callNext_tx (fun data hd => hpk (Or.inl ⟨data,hd⟩))
        (fun ret hr => hpk (Or.inr ⟨ret,hr⟩)) hp hn).1
      exact ⟨htx.buf,htx.inFlight⟩

/-- The bytes accepted into the TX ring, the calls of `uart_tx`, and the numbers
of bytes reported as sent. -/
def accepted (rate : UInt32) (es : List Label) : List UInt8 := trace step accepts es (init rate)

def started (rate : UInt32) (es : List Label) : List (List UInt8 × ℤ) :=
  trace step starts es (init rate)

def reported (rate : UInt32) (es : List Label) : List ℕ := trace step reports es (init rate)

theorem run_pumping {rate : UInt32} {es : List Label} (h : run step es (init rate) = some s) :
    Pumping (accepted rate es) (started rate es) (reported rate es) s := by
  apply history (I := fun es s => Pumping (accepted rate es) (started rate es) (reported rate es) s)
    (init_pumping rate) _ h (allSteps_true es _)
  intro es s a t hr hs _ ht
  unfold accepted started reported
  rw [trace_snoc _ es a _ s hr, trace_snoc _ es a _ s hr, trace_snoc _ es a _ s hr]
  exact step_pumping hs ht

/-- Between the calls, bytes in the ring have a transfer in flight whose
completion is owed, or the last `uart_tx` has failed, and no flag is left set. -/
theorem pump_never_stalls (rate : UInt32) (es : List Label) (s : State)
    (h : run step es (init rate) = some s) (hi : s.call = .idle) :
    (s.bridge.txRing ≠ [] →
      s.bridge.txInProgress = true ∧ s.bridge.inFlight = [s.bridge.txBuf] ∨
      LastFailed (started rate es)) ∧
    s.bridge.reconfiguring = false := by
  have hs := run_pumping h
  constructor
  · intro hne
    have hset := (pump_plain (by rw [hi]; rfl)).mp hs.flow.pump
    rcases hs.flow.primed hne with hx | hx | hx
    · rcases hset with ⟨_,hin,_⟩ | ⟨hoff,_⟩
      · exact Or.inl ⟨hx,hin⟩
      · simp [hx] at hoff
    · simp [hi, kicks] at hx
    · exact Or.inr hx
  · exact hs.flagged.trans (congrArg owns hi)

/-- A baud change aborts the first chunk of a write. The abort's own kick is held
back by the flag, the rest goes out at the end of the change, and the next write
waits in the ring for its completion. -/
def abortedChunk : List Label :=
  List.flatten [[.send (List.replicate 66 0x55)], List.replicate 3 (.call 0), [.setBaud 9600],
    List.replicate 3 (.call 0), [.isr (.txAborted 10 0), .call 0, .call (-EFAULT)],
    List.replicate 4 (.call 0), [.call (-EBUSY)], List.replicate 4 (.call 0), [.send [1, 2]],
    List.replicate 2 (.call 0)]

def waiting : State :=
  { init 9600 with
    bridge :=
      { (init 9600).bridge with
        retryWork := ⟨some 100,false,.returned⟩
        txRing := [1, 2]
        txBuf := [0x55, 0x55]
        txInProgress := true
        txLen := 2
        dropsUartTx := 54
        inFlight := [[0x55, 0x55]] } }

theorem pump_never_stalls_aborted :
    (waiting.bridge.txInProgress = true ∧ waiting.bridge.inFlight = [waiting.bridge.txBuf] ∨
      LastFailed (started 115200 abortedChunk)) ∧ waiting.bridge.reconfiguring = false := by
  have hp := pump_never_stalls 115200 abortedChunk waiting (by decide) rfl
  exact ⟨hp.1 (by decide),hp.2⟩

end NrfProxy.UartTransmit
