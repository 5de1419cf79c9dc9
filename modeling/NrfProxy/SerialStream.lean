import NrfProxy.SendSlices
import NrfProxy.ThreadInvariant

/-!
# The stream from the UART to the phone

Every byte of a `UART_RX_RDY` chunk is followed to the place it is at. The
writer finishes its claim before the slices of it go out, so the slice buffer is
one of these places. The stream is cut only at the end of a chunk, by a full
ring, and at the writer's end, by a drain or by a DROP verdict.
-/

set_option autoImplicit false

namespace NrfProxy.SerialStream
open NrfProxy.Runs NrfProxy.ProxyCore NrfProxy.MainState NrfProxy.MainThreads
open NrfProxy.ThreadInvariant

def chunks (es : List Label) : List (List UInt8) :=
  es.filterMap (fun a => match a with
    | .ready data => some data
    | _ => none)

def received (es : List Label) : List UInt8 := (chunks es).flatten

/-- A chunk of which the ring has taken `queued` bytes. -/
def cut (data : List UInt8) (queued : ℕ) : List (UInt8 × Bool) :=
  (data.take queued).map (·,true)++(data.drop queued).map (·,false)

def queued (q : Stream) : List UInt8 := (q.intake.filter (·.2)).map (·.1)

def overflowed (q : Stream) : ℕ := q.intake.countP (!·.2)

/-- What is left of the slice buffer. -/
def sliceBuffer : WriterPc → List UInt8
  | .send out sent _ => out.drop sent
  | _ => []

def offered : WriterPc → List UInt8
  | .send out sent maxSend => (out.drop sent).take (proxyNextSlice out.length sent maxSend)
  | _ => []

/-- `bt_nus_send` takes all of the slice, and does so iff it answers 0. -/
def notice (err : ℤ) (pc : WriterPc) : List UInt8 := if err = 0 then offered pc else []

/-- The bytes the phone gets in a step. -/
def notified (s : State) : Label → List UInt8
  | .writer _ err => notice err s.writer
  | _ => []

/-- The bytes the writer parts with when it goes on with this answer, and their fates. -/
def parted (q : Stream) (err : ℤ) : WriterPc → List (UInt8 × Fate)
  | .drainFinish state len => (q.ring.take len).map (·,.drained state)
  | .send out sent maxSend =>
    if err = 0 then (offered (.send out sent maxSend)).map (·,.sent)
    else if err = -ENOMEM ∨ err = -EAGAIN then []
    else (out.drop sent).map (·,.dropped err)
  | _ => []

def parting (s : State) : Label → List (UInt8 × Fate)
  | .writer _ err => parted s.stream err s.writer
  | _ => []

def draining : WriterPc → Bool
  | .drainClaim _ | .drainFinish _ _ => true
  | _ => false

/-- What the writer's snapshot of the link shows. -/
def glance (s : State) : Label → List (Bool × Bool)
  | .writer _ _ =>
    if s.writer = .snapshot then [(s.main.currentConn,s.main.linkSecure)] else []
  | _ => []

/-- A drain goes by the last snapshot, and that one showed no encrypted link. -/
def Dark (glances : List (Bool × Bool)) : WriterPc → Prop
  | .drainClaim state | .drainFinish state _ =>
    glances.getLast? = some (state.connected,state.linkSecure) ∧
      ¬(state.connected = true ∧ state.linkSecure = true)
  | _ => True

section

variable (port locked : Bool)

def notifications (es : List Label) : List UInt8 :=
  trace (step port) notified es (init locked)

def partings (es : List Label) : List (UInt8 × Fate) :=
  trace (step port) parting es (init locked)

def glances (es : List Label) : List (Bool × Bool) := trace (step port) glance es (init locked)

/-- Where the received bytes are after a run, with the model's own record of it. -/
structure Tracked (es : List Label) (s : State) : Prop where
  intake : ∃ cuts : List ℕ, cuts.length = (chunks es).length ∧
    s.stream.intake = (List.zipWith cut (chunks es) cuts).flatten
  drops : s.stream.drops = UInt32.ofNat (overflowed s.stream)
  placed : queued s.stream =
    (partings port locked es).map (·.1)++sliceBuffer s.writer++s.stream.ring
  fates : s.stream.fates = partings port locked es
  phone : s.stream.phone = notifications port locked es

/-- Who has got the bytes which are gone: the phone those which `bt_nus_send` took, a
DROP verdict those it failed for good on, and nobody those of a drain. -/
structure Accounted (es : List Label) (s : State) : Prop extends Tracked port locked es s where
  sent : ((partings port locked es).filter (·.2 == .sent)).map (·.1) = notifications port locked es
  dropped : ∀ b err, (b,.dropped err) ∈ partings port locked es → SendSlices.Fatal err
  drained : AllAlong (step port) (fun xs s _ => Dark (glances port locked xs) s.writer) [] es
    (init locked)

end

theorem cut_fst (data : List UInt8) (n : ℕ) : (cut data n).map (·.1) = data := by
  simp [cut, Function.comp_def]

theorem cut_queued (data : List UInt8) (n : ℕ) :
    ((cut data n).filter (·.2)).map (·.1) = data.take n := by
  simp only [cut, List.filter_append, List.filter_map, Function.comp_def, List.filter_true,
    List.filter_false, List.map_nil, List.append_nil, List.map_map, List.map_id_fun', id]

theorem cut_overflowed (data : List UInt8) (n : ℕ) :
    (cut data n).countP (!·.2) = (data.drop n).length := by
  simp only [cut, List.countP_append, List.countP_map, Function.comp_def, Bool.not_true,
    Bool.not_false, List.countP_true, List.countP_false, Function.const_apply, Nat.zero_add]

theorem put_intake (q : Stream) (data : List UInt8) :
    (q.put data).intake = q.intake++cut data (min data.length (rxRingSize-q.ring.length)) := by
  simp [Stream.put, cut]

theorem put_queued {q : Stream} {gone : List UInt8} (data : List UInt8)
    (h : queued q = gone++q.ring) : queued (q.put data) = gone++(q.put data).ring := by
  rw [queued, put_intake, List.filter_append, List.map_append, cut_queued]
  simp only [queued] at h
  rw [h, List.append_assoc]
  rfl

theorem put_drops (q : Stream) (data : List UInt8) (h : q.drops = UInt32.ofNat (overflowed q)) :
    (q.put data).drops = UInt32.ofNat (overflowed (q.put data)) := by
  rw [overflowed, put_intake, List.countP_append, cut_overflowed, UInt32.ofNat_add,
    List.length_drop]
  simp only [overflowed] at h
  rw [← h]
  rfl

def WriterFits (q : Stream) : WriterPc → Prop
  | .drainClaim state | .drainFinish state _ => proxyMayForward state = false
  | .claim maxSend => 0 < maxSend ∧ maxSend ≤ procBufSize
  | .hook claimed maxSend => 0 < maxSend ∧ claimed ≤ procBufSize ∧ claimed ≤ q.ring.length
  | .finish claimed out maxSend => 0 < maxSend ∧ out = q.ring.take claimed ∧ claimed ≤ q.ring.length
  | .send _ _ maxSend => 0 < maxSend
  | _ => True

theorem put_fits (q : Stream) (data : List UInt8) (pc : WriterPc) (h : WriterFits q pc) :
    WriterFits (q.put data) pc := by
  have hring : (q.put data).ring = q.ring++data.take (min data.length (rxRingSize-q.ring.length)) :=
    rfl
  cases pc with
  | hook claimed maxSend =>
    obtain ⟨hm,hp,hc⟩ := h
    refine ⟨hm,hp,?_⟩
    rw [hring, List.length_append]
    omega
  | finish claimed out maxSend =>
    obtain ⟨hm,ho,hc⟩ := h
    refine ⟨hm,?_,?_⟩
    · rw [hring, List.take_append_of_le_length hc, ho]
    · rw [hring, List.length_append]
      omega
  | _ => exact h

/-- The ATT MTU is at most what prj.conf allows. -/
def Configured (s : State) : Label → Prop
  | .writer n _ => s.writer = .mtu → n ≤ 247
  | _ => True

instance (s : State) : ∀ a, Decidable (Configured s a)
  | .writer _ _ => inferInstanceAs (Decidable (_ → _))
  | .wait _ | .expire _ | .enter _ | .work _ | .connect _ | .security _ _ | .disconnect | .host
  | .recycle | .receive _ | .rx _ | .ready _ | .give => .isTrue trivial

/-- One step of the writer loses no byte but those it parts with, and keeps a record
of these and of what the phone gets. -/
structure WriterStep (q r : Stream) (err : ℤ) (p p' : WriterPc) : Prop where
  fits : WriterFits r p'
  intake : r.intake = q.intake
  drops : r.drops = q.drops
  fates : r.fates = q.fates++parted q err p
  phone : r.phone = q.phone++notice err p
  kept : (parted q err p).map (·.1)++(sliceBuffer p'++r.ring) = sliceBuffer p++q.ring

variable {q r : Stream} {err : ℤ} {p p' : WriterPc}

theorem sent_of_fate (bytes : List UInt8) (fate : Fate) :
    ((bytes.map (·,fate)).filter (·.2 == .sent)).map (·.1) =
      if fate = .sent then bytes else [] := by
  by_cases hf : fate = .sent <;> simp [hf, List.filter_map, Function.comp_def]

theorem parted_sent (q : Stream) (err : ℤ) (p : WriterPc) :
    ((parted q err p).filter (·.2 == .sent)).map (·.1) = notice err p := by
  cases p with
  | drainFinish state len =>
    simp only [parted, sent_of_fate]
    simp [notice, offered]
  | send out sent maxSend =>
    simp only [parted, notice]
    split
    · rw [sent_of_fate, if_pos rfl]
    split
    · rfl
    · rw [sent_of_fate, if_neg (by simp)]
  | _ => simp [parted, notice, offered]

theorem parted_dropped {b : UInt8} {e : ℤ} (h : (b,.dropped e) ∈ parted q err p) :
    SendSlices.Fatal e := by
  cases p with
  | drainFinish state len =>
    simp only [parted, List.mem_map, Prod.mk.injEq, reduceCtorEq, and_false, exists_false] at h
  | send out sent maxSend =>
    simp only [parted] at h
    split at h
    · simp at h
    split at h
    · simp at h
    · rename_i h0 hr
      simp only [List.mem_map, Prod.mk.injEq, Fate.dropped.injEq] at h
      obtain ⟨_,_,_,rfl⟩ := h
      exact ⟨h0,not_or.mp hr⟩
  | _ => simp [parted] at h

theorem same_writerStep (hf : WriterFits q p') (hs : sliceBuffer p' = sliceBuffer p)
    (hp : parted q err p = []) : WriterStep q q err p p' := by
  refine ⟨hf,rfl,rfl,by simp [hp],?_,by simp [hp, hs]⟩
  rw [← parted_sent q, hp]
  simp

theorem drain_writerStep {state : LinkState} {len : ℕ} (hf : proxyMayForward state = false) :
    WriterStep q ((q.settle (q.ring.take len) (.drained state)).finish len) err
      (.drainFinish state len) (.drainClaim state) := by
  refine ⟨hf,rfl,rfl,rfl,?_,?_⟩
  · simp [notice, offered, Stream.settle, Stream.finish]
  · simp [parted, sliceBuffer, Stream.settle, Stream.finish, Function.comp_def]

theorem finish_writerStep {claimed maxSend : ℕ} {out : List UInt8} (hm : 0 < maxSend)
    (ho : out = q.ring.take claimed) :
    WriterStep q (q.finish claimed) err (.finish claimed out maxSend) (.send out 0 maxSend) := by
  refine ⟨hm,rfl,rfl,?_,?_,?_⟩
  · simp [parted, Stream.finish]
  · simp [notice, offered, Stream.finish]
  · simp [parted, sliceBuffer, Stream.finish, ho]

theorem accept_writerStep {out : List UInt8} {sent maxSend : ℕ} (hm : 0 < maxSend) :
    WriterStep q (q.accept (offered (.send out sent maxSend))) 0 (.send out sent maxSend)
      (.send out (sent+proxyNextSlice out.length sent maxSend) maxSend) := by
  refine ⟨hm,rfl,rfl,?_,?_,?_⟩
  · simp [parted, Stream.accept, Stream.settle]
  · simp [notice, Stream.accept]
  · simp only [parted, if_true, List.map_map, Function.comp_def, List.map_id', sliceBuffer,
      offered, Stream.accept, Stream.settle]
    rw [← List.drop_drop, ← List.append_assoc, List.take_append_drop]

theorem drop_writerStep {out : List UInt8} {sent maxSend : ℕ} (hf : SendSlices.Fatal err) :
    WriterStep q (q.settle (out.drop sent) (.dropped err)) err (.send out sent maxSend)
      (.unref true) := by
  have hr : ¬(err = -ENOMEM ∨ err = -EAGAIN) := fun hr => hr.elim hf.2.1 hf.2.2
  refine ⟨trivial,rfl,rfl,?_,?_,?_⟩
  · simp [parted, Stream.settle, hf.1, hr]
  · simp [notice, Stream.settle, hf.1]
  · simp [parted, sliceBuffer, Stream.settle, hf.1, hr, Function.comp_def]

theorem claim_le (q : Stream) (contiguous max : ℕ) :
    q.claim contiguous max ≤ q.ring.length ∧ q.claim contiguous max ≤ max := by
  unfold Stream.claim
  omega

theorem writerNext_step {m n : Main} {k : ℕ} (hf : WriterFits q p) (hm : p = .mtu → k ≤ 247)
    (h : writerNext m q k err p = some (n,r,p')) : WriterStep q r err p p' := by
  cases writer_move h with
  | discard hd => exact same_writerStep hd rfl rfl
  | drainClaim => exact same_writerStep hf rfl rfl
  | drainFinish => exact drain_writerStep hf
  | mtu hk =>
    refine same_writerStep ⟨chunkLimit_pos k hk,?_⟩ rfl rfl
    exact (chunkLimit_le k 247 (hm rfl) (by decide)).trans (by decide)
  | @claim maxSend =>
    have hc := claim_le q k maxSend
    exact same_writerStep ⟨hf.1,hc.2.trans hf.2,hc.1⟩ rfl rfl
  | hook =>
    refine same_writerStep ⟨hf.1,?_,hf.2.2⟩ rfl rfl
    rw [onUartRx_eq, List.take_take, Nat.min_eq_right hf.2.1]
  | finish => exact finish_writerStep hf.1 hf.2.1
  | @sent out sent maxSend hs =>
    have hend : out.drop sent = [] := List.drop_eq_nil_of_le ((nextSlice_eq_zero _ _ _ hf).mp hs)
    refine same_writerStep trivial hend.symm ?_
    simp [parted, offered, hend]
  | send hv =>
    obtain rfl := SendSlices.consumed_iff.mp hv
    exact accept_writerStep hf
  | again hv =>
    have hr := SendSlices.retry_iff.mp hv
    have h0 : err ≠ 0 := by
      rintro rfl
      simp [ENOMEM, EAGAIN] at hr
    exact same_writerStep hf rfl (by simp [parted, h0, hr])
  | drop hv => exact drop_writerStep (SendSlices.drop_iff.mp hv)
  | _ => exact same_writerStep trivial rfl rfl

theorem writerNext_dark {m n : Main} {k : ℕ} {xs : List (Bool × Bool)} (hd : Dark xs p)
    (h : writerNext m q k err p = some (n,r,p')) :
    Dark (xs++if p = .snapshot then [(m.currentConn,m.linkSecure)] else []) p' := by
  cases writer_move h with
  | discard hf => simpa [Dark, proxyMayForward, snapshotState] using hf
  | drainClaim | drainFinish => simpa [Dark] using hd
  | _ => trivial

theorem chunks_snoc (es : List Label) (a : Label) (h : ∀ data, a ≠ .ready data) :
    chunks (es++[a]) = chunks es := by
  cases a with
  | ready data => exact absurd rfl (h data)
  | _ => simp [chunks]

variable {port locked : Bool} {es : List Label} {s t : State} {a : Label}

theorem partings_snoc (hr : run (step port) es (init locked) = some s) :
    partings port locked (es++[a]) = partings port locked es++parting s a :=
  trace_snoc _ es a _ s hr

theorem notifications_snoc (hr : run (step port) es (init locked) = some s) :
    notifications port locked (es++[a]) = notifications port locked es++notified s a :=
  trace_snoc _ es a _ s hr

theorem init_tracked (port locked : Bool) : Tracked port locked [] (init locked) :=
  ⟨⟨[],rfl,rfl⟩,rfl,rfl,rfl,rfl⟩

theorem Tracked.frame (hs : Tracked port locked es s)
    (hr : run (step port) es (init locked) = some s) (hst : t.stream = s.stream)
    (hw : t.writer = s.writer) (ha : ∀ data, a ≠ .ready data) (hk : thread a ≠ .writer) :
    Tracked port locked (es++[a]) t := by
  have hp : parting s a = [] := by cases a <;> simp_all [parting, thread]
  have hn : notified s a = [] := by cases a <;> simp_all [notified, thread]
  refine ⟨?_,?_,?_,?_,?_⟩
  · rw [hst, chunks_snoc es a ha]
    exact hs.intake
  · rw [hst]
    exact hs.drops
  · rw [hst, hw, partings_snoc hr, hp, List.append_nil]
    exact hs.placed
  · rw [hst, partings_snoc hr, hp, List.append_nil]
    exact hs.fates
  · rw [hst, notifications_snoc hr, hn, List.append_nil]
    exact hs.phone

theorem ready_tracked {data : List UInt8} (hs : Tracked port locked es s)
    (hr : run (step port) es (init locked) = some s) (gives : Bool) :
    Tracked port locked (es++[.ready data])
      { s with stream := s.stream.put data, isrGives := gives } := by
  have hp : partings port locked (es++[.ready data]) = partings port locked es := by
    rw [partings_snoc hr]
    exact List.append_nil _
  have hn : notifications port locked (es++[.ready data]) = notifications port locked es := by
    rw [notifications_snoc hr]
    exact List.append_nil _
  have hchunks : chunks (es++[.ready data]) = chunks es++[data] := by simp [chunks]
  obtain ⟨cuts,hlen,hin⟩ := hs.intake
  refine ⟨⟨cuts++[min data.length (rxRingSize-s.stream.ring.length)],?_,?_⟩,
    put_drops _ _ hs.drops,?_,hs.fates.trans hp.symm,hs.phone.trans hn.symm⟩
  · simp [hchunks, hlen]
  · rw [hchunks, List.zipWith_append hlen.symm, List.flatten_append, ← hin]
    simp [put_intake]
  · rw [hp]
    exact put_queued data hs.placed

theorem writer_tracked {k : ℕ} {n : Main} {pc : WriterPc} (hs : Tracked port locked es s)
    (hr : run (step port) es (init locked) = some s)
    (h : WriterStep s.stream r err s.writer pc) :
    Tracked port locked (es++[.writer k err])
      { s with main := n, stream := r, writer := pc } := by
  have hp : partings port locked (es++[.writer k err]) =
      partings port locked es++parted s.stream err s.writer := partings_snoc hr
  have hn : notifications port locked (es++[.writer k err]) =
      notifications port locked es++notice err s.writer := notifications_snoc hr
  refine ⟨?_,?_,?_,?_,?_⟩
  · rw [chunks_snoc es _ (by simp), h.intake]
    exact hs.intake
  · simp only [overflowed, h.intake, h.drops]
    exact hs.drops
  · have hplaced := hs.placed
    simp only [List.append_assoc] at hplaced
    simp only [queued, h.intake, hp, List.map_append, List.append_assoc, h.kept]
    exact hplaced
  · rw [hp, ← hs.fates]
    exact h.fates
  · rw [hn, ← hs.phone]
    exact h.phone

theorem step_tracked (hs : Tracked port locked es s ∧ WriterFits s.stream s.writer)
    (hr : run (step port) es (init locked) = some s) (hc : Configured s a)
    (h : step port s a = some t) :
    Tracked port locked (es++[a]) t ∧ WriterFits t.stream t.writer := by
  obtain ⟨hs,hf⟩ := hs
  by_cases hw : thread a = .writer
  · cases a with
    | writer k err =>
      obtain ⟨n,r,pc,hn,rfl⟩ := step_writer.mp h
      have hstep := writerNext_step hf hc hn
      exact ⟨writer_tracked hs hr hstep,hstep.fits⟩
    | _ => simp [thread] at hw
  by_cases hi : thread a = .isr
  · cases a with
    | ready data =>
      obtain ⟨_,_,rfl⟩ := step_ready.mp h
      exact ⟨ready_tracked hs hr _,put_fits _ data _ hf⟩
    | give =>
      obtain ⟨_,rfl⟩ := step_give.mp h
      exact ⟨hs.frame hr rfl rfl (by simp) hw,hf⟩
    | _ => simp [thread] at hi
  · have hst := (step_frame h).stream hw hi
    have hwr := (step_frame h).writer hw
    rw [hst, hwr]
    refine ⟨hs.frame hr hst hwr ?_ hw,hf⟩
    rintro data rfl
    simp [thread] at hi

theorem step_dark (hd : Dark (glances port locked es) s.writer)
    (hr : run (step port) es (init locked) = some s) (h : step port s a = some t) :
    Dark (glances port locked (es++[a])) t.writer := by
  have hg : glances port locked (es++[a]) = glances port locked es++glance s a :=
    trace_snoc _ es a _ s hr
  rw [hg]
  by_cases hw : thread a = .writer
  · cases a with
    | writer k err =>
      obtain ⟨n,q,pc,hn,rfl⟩ := step_writer.mp h
      exact writerNext_dark hd hn
    | _ => simp [thread] at hw
  · have hno : glance s a = [] := by cases a <;> simp_all [glance, thread]
    rw [hno, List.append_nil, (step_frame h).writer hw]
    exact hd

theorem cuts_fst (cs : List (List UInt8)) (cuts : List ℕ) (h : cuts.length = cs.length) :
    (List.zipWith cut cs cuts).flatten.map (·.1) = cs.flatten := by
  induction cs generalizing cuts with
  | nil => rfl
  | cons c cs ih =>
    cases cuts with
    | nil => simp at h
    | cons n cuts =>
      rw [List.zipWith_cons_cons, List.flatten_cons, List.map_append, cut_fst,
        ih cuts (by simpa using h), List.flatten_cons]

/-- What the phone has got comes from the UART in order, every byte once. -/
theorem Accounted.phone_sublist (hs : Accounted port locked es s) :
    (notifications port locked es).Sublist (received es) := by
  obtain ⟨cuts,hlen,hin⟩ := hs.intake
  have hrec : s.stream.intake.map (·.1) = received es := by rw [hin, cuts_fst _ _ hlen, received]
  have hsent : (notifications port locked es).Sublist ((partings port locked es).map (·.1)) := by
    rw [← hs.sent]
    exact List.filter_sublist.map Prod.fst
  have hplaced : ((partings port locked es).map (·.1)).Sublist (queued s.stream) := by
    rw [hs.placed, List.append_assoc]
    exact List.sublist_append_left _ _
  have hqueued : (queued s.stream).Sublist (s.stream.intake.map (·.1)) :=
    List.filter_sublist.map Prod.fst
  rw [← hrec]
  exact (hsent.trans hplaced).trans hqueued

theorem parting_sent (s : State) (a : Label) :
    ((parting s a).filter (·.2 == .sent)).map (·.1) = notified s a := by
  cases a with
  | writer k err => exact parted_sent s.stream err s.writer
  | _ => rfl

/-- Every received byte has one place: past the full ring and counted, in the
ring or the slice buffer, with the phone, or given up for its reason. -/
theorem stream_accounted (port locked : Bool) (es : List Label) (s : State)
    (h : run (step port) es (init locked) = some s)
    (hc : AllSteps (step port) Configured es (init locked)) :
    Accounted port locked es s ∧ (notifications port locked es).Sublist (received es) := by
  have ht : Tracked port locked es s ∧ WriterFits s.stream s.writer :=
    history (I := fun es s => Tracked port locked es s ∧ WriterFits s.stream s.writer)
      ⟨init_tracked port locked,trivial⟩
      (fun es s a t hr hs hc ht => step_tracked hs hr hc ht) h hc
  have hs : Accounted port locked es s := by
    refine ⟨ht.1,?_,?_,?_⟩
    · rw [partings, trace_filter, trace_map]
      exact congrArg (fun out => trace (step port) out es (init locked))
        (funext fun s => funext fun a => parting_sent s a)
    · intro b err hb
      obtain ⟨t,a,hb⟩ := trace_mem hb
      cases a with
      | writer k e => exact parted_dropped hb
      | _ => simp [parting] at hb
    · exact allAlong_history (I := fun xs s => Dark (glances port locked xs) s.writer)
        (show Dark _ (init locked).writer from trivial)
        (fun es s a t hr hd ht => step_dark hd hr ht) h
  exact ⟨hs,hs.phone_sublist⟩

def threeBytes : List Label :=
  secureLink++[.ready [7, 8], .give, .writer 0 0, .writer 0 0, .writer 0 0, .writer 247 0,
    .writer 2 0, .writer 0 0, .writer 0 0, .writer 0 0, .writer 0 0, .writer 0 0, .disconnect]++
    List.replicate 4 .host++[.ready [9], .writer 0 0, .writer 0 0, .writer 1 0, .writer 0 0]

def afterThreeBytes : State :=
  { init false with
    main := { boot false with rxDataReady := true }
    writer := .drainClaim (snapshotState (boot false))
    isrGives := true
    stream :=
      { ring := []
        drops := 0
        intake := [(7,true), (8,true), (9,true)]
        fates := [(7,.sent), (8,.sent), (9,.drained (snapshotState (boot false)))]
        phone := [7, 8] }
    link := some 0
    links := 1 }

theorem stream_accounted_three_bytes :
    Accounted true false threeBytes afterThreeBytes ∧
      (notifications true false threeBytes).Sublist (received threeBytes) :=
  stream_accounted true false threeBytes afterThreeBytes (by decide) (by decide)

end NrfProxy.SerialStream
