import NrfProxy.ThreadInvariant

/-!
# The writer's wake-up

The semaphore is binary, so that any number of gives is one wake-up. The writer
gives it up before it looks at the ring, and leaves its loop only where it has
just seen the ring empty: by the test, by a drain which found nothing, or by a
claim of nothing under a positive limit.
-/

set_option autoImplicit false

namespace NrfProxy.WriterWakeup
open NrfProxy.Runs NrfProxy.ProxyCore NrfProxy.MainState NrfProxy.MainThreads
open NrfProxy.ThreadInvariant

/-- The writer looks at the ring again before it waits. -/
def looksAgain : WriterPc → Bool
  | .take | .report | .unref false => false
  | _ => true

/-- Bytes in the ring have somebody to fetch them or to wake the writer. -/
def Awake (m : Main) (gives : Bool) (q : Stream) (pc : WriterPc) : Prop :=
  q.ring ≠ [] → m.rxDataReady = true ∨ gives = true ∨ looksAgain pc = true

def Limited : WriterPc → Prop
  | .claim maxSend => 0 < maxSend
  | _ => True

theorem claim_eq_zero {q : Stream} {contiguous max : ℕ} (hn : contiguous ≠ 0) (hm : 0 < max)
    (h : q.claim contiguous max = 0) : q.ring = [] := by
  have hlen : q.ring.length = 0 := by
    simp only [Stream.claim] at h
    omega
  exact List.length_eq_zero_iff.mp hlen

theorem writerNext_awake {m n : Main} {gives : Bool} {q r : Stream} {k : ℕ} {err : ℤ}
    {p p' : WriterPc} (hl : Limited p) (ha : Awake m gives q p)
    (h : writerNext m q k err p = some (n,r,p')) : Awake n gives r p' := by
  cases writer_move h with
  | empty hr => exact fun hne => absurd hr hne
  | drained hn hz => exact fun hne => absurd (claim_eq_zero hn (by decide) hz) hne
  | claimed hn hz => exact fun hne => absurd (claim_eq_zero hn hl hz) hne
  | unref | report => exact ha
  | _ => exact fun _ => Or.inr (Or.inr rfl)

theorem writerNext_limited {m n : Main} {q r : Stream} {k : ℕ} {err : ℤ} {p p' : WriterPc}
    (h : writerNext m q k err p = some (n,r,p')) : Limited p' := by
  cases writer_move h with
  | mtu hk => exact chunkLimit_pos k hk
  | _ => trivial

variable {port : Bool} {s t : State} {a : Label}

theorem hostNext_ready {m n : Main} {p q : HostPc} (h : hostNext m p = some (n,q))
    (hr : m.rxDataReady = true) : n.rxDataReady = true := by
  cases p with
  | idle => simp [hostNext] at h
  | connLock err =>
    obtain ⟨rfl,_⟩ := Prod.mk.inj (Option.some.inj h)
    unfold connectedLock
    split <;> exact hr
  | discLock =>
    obtain ⟨rfl,_⟩ := Prod.mk.inj (Option.some.inj h)
    unfold disconnectedLock
    split <;> exact hr
  | secGive | discGive =>
    obtain ⟨rfl,_⟩ := Prod.mk.inj (Option.some.inj h)
    rfl
  | _ =>
    obtain ⟨rfl,_⟩ := Prod.mk.inj (Option.some.inj h)
    exact hr

theorem ready_frame (h : step port s a = some t) (ha : thread a ≠ .writer)
    (hr : s.main.rxDataReady = true) : t.main.rxDataReady = true := by
  cases main_cases h with
  | same hm | wait hm =>
    rw [hm]
    exact hr
  | item w v _ hm =>
    rw [hm]
    cases w <;> exact hr
  | work hn =>
    rcases workNext_main hn with hm | hm | hm | hm | hm | hm <;> rw [hm] <;> exact hr
  | host hn => exact hostNext_ready hn hr
  | rx hn => rcases rxNext_main hn with hm | hm | ⟨_,hm⟩ <;> rw [hm] <;> exact hr
  | give hm =>
    rw [hm]
    rfl
  | writer => exact absurd rfl ha

structure Wakeful (s : State) : Prop where
  awake : Awake s.main s.isrGives s.stream s.writer
  limited : Limited s.writer

theorem init_wakeful (locked : Bool) : Wakeful (init locked) := ⟨fun h => absurd rfl h,trivial⟩

theorem ready_awake {m : Main} {gives : Bool} {q : Stream} {pc : WriterPc} {data : List UInt8}
    (ha : Awake m gives q pc) (hg : gives = false) :
    Awake m (decide (0 < min data.length (rxRingSize-q.ring.length))) (q.put data) pc := by
  intro hr
  by_cases hq : q.ring = []
  · apply Or.inr
    apply Or.inl
    have hlen : 0 < (q.put data).ring.length := List.length_pos_iff.mpr hr
    simp only [Stream.put, hq, List.nil_append, List.length_take, List.length_nil] at hlen ⊢
    simpa using hlen
  · rcases ha hq with h | h | h
    · exact Or.inl h
    · simp [hg] at h
    · exact Or.inr (Or.inr h)

theorem step_wakeful (hs : Wakeful s) (h : step port s a = some t) : Wakeful t := by
  by_cases ha : thread a = .writer
  · cases a with
    | writer k err =>
      obtain ⟨n,q,pc,hn,rfl⟩ := step_writer.mp h
      exact ⟨writerNext_awake hs.limited hs.awake hn,writerNext_limited hn⟩
    | _ => simp [thread] at ha
  have hw := (step_frame h).writer ha
  apply Wakeful.mk _ (by rw [hw]; exact hs.limited)
  by_cases hi : thread a = .isr
  · cases a with
    | ready data =>
      obtain ⟨hg,_,rfl⟩ := step_ready.mp h
      exact ready_awake hs.awake hg
    | give =>
      obtain ⟨_,rfl⟩ := step_give.mp h
      exact fun _ => Or.inl rfl
    | _ => simp [thread] at hi
  · rw [hw, (step_frame h).stream ha hi, (step_frame h).gives hi]
    intro hr
    rcases hs.awake hr with hd | hd | hd
    · exact Or.inl (ready_frame h ha hd)
    · exact Or.inr (Or.inl hd)
    · exact Or.inr (Or.inr hd)

/-- A writer blocked in `k_sem_take` leaves no byte in the ring. -/
theorem no_lost_wakeup (port locked : Bool) (es : List Label) (s : State)
    (h : run (step port) es (init locked) = some s) (hw : s.writer = .take)
    (hr : s.main.rxDataReady = false) (hg : s.isrGives = false) : s.stream.ring = [] := by
  have hs : Wakeful s :=
    invariant (I := Wakeful) (init_wakeful locked) (fun _ _ _ => step_wakeful) h
  by_contra hne
  rcases hs.awake hne with hd | hd | hd
  · simp [hr] at hd
  · simp [hg] at hd
  · simp [hw, looksAgain] at hd

/-- A chunk lands after the drain has found the ring empty; its give wakes the
writer once more. -/
def lateChunk : List Label :=
  [.ready [7], .give, .writer 0 0, .writer 0 0, .writer 0 0, .writer 1 0, .writer 0 0, .writer 1 0,
    .ready [8], .writer 0 0, .give, .writer 0 0, .writer 0 0, .writer 0 0, .writer 1 0, .writer 0 0,
    .writer 1 0, .writer 0 0]

def afterLateChunk : State :=
  { init false with
    stream :=
      { ring := []
        drops := 0
        intake := [(7,true), (8,true)]
        fates := [(7,.drained (snapshotState (boot false))), (8,.drained (snapshotState (boot false)))]
        phone := [] } }

theorem no_lost_wakeup_late_chunk : afterLateChunk.stream.ring = [] :=
  no_lost_wakeup true false lateChunk afterLateChunk (by decide) rfl rfl rfl

end NrfProxy.WriterWakeup
