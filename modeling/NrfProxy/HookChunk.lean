import NrfProxy.SerialStream

/-!
# The chunk the hook is given

The writer claims as much as one notification holds, the pass-through hook
copies as much as its scratch buffer holds, and the ring gives up what was
claimed. Up to an ATT MTU of 515 the notification is the smaller of the two.
Above it the hook cuts the chunk off, and the ring loses the rest of it.
-/

set_option autoImplicit false

namespace NrfProxy.HookChunk
open NrfProxy.Runs NrfProxy.ProxyCore NrfProxy.MainState NrfProxy.MainThreads
open NrfProxy.ThreadInvariant NrfProxy.SerialStream

/-- The limit is that of an MTU which `bt_gatt_get_mtu` can return. -/
def FromMtu (maxSend : ℕ) : Prop := ∃ mtu < 2^16, maxSend = proxyNusChunkLimit mtu

/-- What the writer knows of its chunk until it finishes the claim. -/
def ChunkFits (q : Stream) : WriterPc → Prop
  | .claim maxSend => FromMtu maxSend
  | .hook claimed maxSend => FromMtu maxSend ∧ claimed ≤ maxSend ∧ claimed ≤ q.ring.length
  | .finish claimed out maxSend => FromMtu maxSend ∧ claimed ≤ maxSend ∧ claimed ≤ q.ring.length ∧
      out = (q.ring.take claimed).take procBufSize
  | _ => True

theorem put_chunkFits (q : Stream) (data : List UInt8) (pc : WriterPc) (h : ChunkFits q pc) :
    ChunkFits (q.put data) pc := by
  have hring : (q.put data).ring = q.ring++data.take (min data.length (rxRingSize-q.ring.length)) :=
    rfl
  have hlen : q.ring.length ≤ (q.put data).ring.length := by simp [hring]
  cases pc with
  | hook claimed maxSend =>
    obtain ⟨hm,hmax,hc⟩ := h
    exact ⟨hm,hmax,hc.trans hlen⟩
  | finish claimed out maxSend =>
    obtain ⟨hm,hmax,hc,hout⟩ := h
    refine ⟨hm,hmax,hc.trans hlen,?_⟩
    rw [hout, hring, List.take_append_of_le_length hc]
  | _ => exact h

theorem writerNext_chunkFits {m n : Main} {q r : Stream} {k : ℕ} {err : ℤ} {p p' : WriterPc}
    (hf : ChunkFits q p) (h : writerNext m q k err p = some (n,r,p')) : ChunkFits r p' := by
  cases writer_move h with
  | mtu hk => exact ⟨k,hk,rfl⟩
  | @claim maxSend =>
    obtain ⟨hring,hmax⟩ := claim_le q k maxSend
    exact ⟨hf,hmax,hring⟩
  | hook =>
    obtain ⟨hm,hmax,hring⟩ := hf
    exact ⟨hm,hmax,hring,onUartRx_eq _ _⟩
  | _ => trivial

variable {port : Bool} {s t : State} {a : Label}

theorem step_chunkFits (hf : ChunkFits s.stream s.writer) (h : step port s a = some t) :
    ChunkFits t.stream t.writer := by
  by_cases hw : thread a = .writer
  · cases a with
    | writer k err =>
      obtain ⟨n,r,pc,hn,rfl⟩ := step_writer.mp h
      exact writerNext_chunkFits hf hn
    | _ => simp [thread] at hw
  by_cases hi : thread a = .isr
  · cases a with
    | ready data =>
      obtain ⟨_,_,rfl⟩ := step_ready.mp h
      exact put_chunkFits _ data _ hf
    | give =>
      obtain ⟨_,rfl⟩ := step_give.mp h
      exact hf
    | _ => simp [thread] at hi
  · rw [(step_frame h).stream hw hi, (step_frame h).writer hw]
    exact hf

theorem run_chunkFits {locked : Bool} {es : List Label}
    (h : run (step port) es (init locked) = some s) : ChunkFits s.stream s.writer :=
  invariant (I := fun s => ChunkFits s.stream s.writer)
    (show ChunkFits (init locked).stream .take from trivial)
    (fun _ _ _ hf hs => step_chunkFits hf hs) h

theorem chunkLimit_fits {mtu : ℕ} (h : mtu ≤ 515) : proxyNusChunkLimit mtu ≤ procBufSize :=
  chunkLimit_le mtu 515 h (by decide)

/-- How the writer goes on from `finish`, in `s`, to the slices, in `t`. -/
structure Handed (s t : State) (claimed : ℕ) (out : List UInt8) (maxSend : ℕ) : Prop where
  offered : t.writer = .send out 0 maxSend
  within : claimed ≤ s.stream.ring.length ∧ claimed ≤ maxSend
  consumed : s.stream.ring = s.stream.ring.take claimed++t.stream.ring
  clamped : out = (s.stream.ring.take claimed).take procBufSize
  complete : s.stream.ring = out++t.stream.ring ↔ claimed ≤ procBufSize

theorem take_take_eq_iff {α : Type*} (xs : List α) {n m : ℕ} (h : n ≤ xs.length) :
    (xs.take n).take m = xs.take n ↔ n ≤ m := by
  rw [List.take_eq_self_iff, List.length_take, Nat.min_eq_left h]

theorem finish_handed {k claimed maxSend : ℕ} {err : ℤ} {out : List UInt8}
    (hf : ChunkFits s.stream s.writer) (hw : s.writer = .finish claimed out maxSend)
    (h : step port s (.writer k err) = some t) : Handed s t claimed out maxSend := by
  rw [hw] at hf
  obtain ⟨_,hmax,hring,hout⟩ := hf
  obtain ⟨n,r,pc,hn,rfl⟩ := step_writer.mp h
  rw [hw] at hn
  obtain ⟨_,hn⟩ := Prod.mk.inj (Option.some.inj hn)
  obtain ⟨rfl,rfl⟩ := Prod.mk.inj hn
  have hcons : s.stream.ring = s.stream.ring.take claimed++(s.stream.finish claimed).ring :=
    (List.take_append_drop claimed s.stream.ring).symm
  refine ⟨rfl,⟨hring,hmax⟩,hcons,hout,?_⟩
  rw [← take_take_eq_iff s.stream.ring hring, ← hout]
  constructor
  · intro hc
    exact (List.append_cancel_right (hcons.symm.trans hc)).symm
  · intro hc
    rw [hc]
    exact hcons

/-- Whatever the ring holds, the hook passes a claimed chunk on and the ring
gives it up, all of it exactly if the scratch buffer has room for it. Every MTU
up to 515 sees to that. -/
theorem claimed_chunk_handed (port locked : Bool) (es : List Label) (s t : State)
    (claimed maxSend k : ℕ) (out : List UInt8) (err : ℤ)
    (h : run (step port) es (init locked) = some s) (hw : s.writer = .finish claimed out maxSend)
    (ht : step port s (.writer k err) = some t) :
    FromMtu maxSend ∧ Handed s t claimed out maxSend ∧
      ∀ mtu ≤ 515, maxSend = proxyNusChunkLimit mtu → s.stream.ring = out++t.stream.ring := by
  have hf := run_chunkFits h
  have hh := finish_handed hf hw ht
  rw [hw] at hf
  refine ⟨hf.1,hh,?_⟩
  rintro mtu hmtu rfl
  exact hh.complete.mpr (hh.within.2.trans (chunkLimit_fits hmtu))

def notification (data : List UInt8) (mtu : ℕ) : List Label :=
  secureLink++[.ready data, .give, .writer 0 0, .writer 0 0, .writer 0 0, .writer mtu 0,
    .writer data.length 0, .writer 0 0]

def chunk (n : ℕ) : List UInt8 := List.replicate n 0x55

def finishing (n m maxSend : ℕ) : State :=
  { init false with
    main := { boot false with currentConn := true, linkSecure := true, connRefs := 2 }
    writer := .finish n (chunk m) maxSend
    stream := ⟨chunk n,0,(chunk n).map (·,true),[],[]⟩
    link := some 0
    up := true
    links := 1 }

def sending (n m maxSend : ℕ) : State :=
  { finishing n m maxSend with
    writer := .send (chunk m) 0 maxSend
    stream := (finishing n m maxSend).stream.finish n }

theorem claimed_chunk_handed_two_bytes :
    FromMtu 20 ∧ Handed (finishing 2 2 20) (sending 2 2 20) 2 (chunk 2) 20 ∧
      ∀ mtu ≤ 515, 20 = proxyNusChunkLimit mtu →
        (finishing 2 2 20).stream.ring = chunk 2++(sending 2 2 20).stream.ring :=
  claimed_chunk_handed true false (notification (chunk 2) 23) (finishing 2 2 20) (sending 2 2 20)
    2 20 0 (chunk 2) 0 (by decide) rfl (by decide)

/-- An MTU of 516 and a chunk which fills the notification: the ring gives up
513 bytes, and the slices are cut out of 512. -/
theorem chunk_cut_off :
    ∃ s t, run (step true) (notification (chunk 513) 516) (init false) = some s ∧
      s.writer = .finish 513 (chunk 512) 513 ∧ s.stream.ring = chunk 513 ∧
      step true s (.writer 0 0) = some t ∧ t.writer = .send (chunk 512) 0 513 ∧ t.stream.ring = [] :=
  ⟨finishing 513 512 513,sending 513 512 513,by decide +kernel,rfl,rfl,rfl,rfl,by decide +kernel⟩

end NrfProxy.HookChunk
