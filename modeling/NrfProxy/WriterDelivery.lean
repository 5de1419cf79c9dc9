import NrfProxy.SendSlices
import NrfProxy.SerialStream
import NrfProxy.WriterWakeup

/-!
# What is in the ring goes out

On an encrypted link, with a stack that takes what it is offered, the writer brings
what is in the slice buffer and in the ring to the phone, in order and without a
byte missing, and then waits. A send that has to be repeated delays it and changes
nothing else.
-/

set_option autoImplicit false

namespace NrfProxy.WriterDelivery
open NrfProxy.Runs NrfProxy.ProxyCore NrfProxy.MainState NrfProxy.MainThreads
open NrfProxy.ThreadInvariant NrfProxy.SerialStream NrfProxy.WriterWakeup

def Claimed : WriterPc → Prop
  | .hook claimed _ | .finish claimed _ _ => claimed ≠ 0
  | _ => True

def outgoing (s : State) : List UInt8 := sliceBuffer s.writer++s.stream.ring

/-- No new bytes, no change of the link, and no send that fails for good. -/
def Carries : Label → Prop
  | .ready _ => False
  | .writer _ err => proxySendResult err ≠ .drop
  | a => thread a ≠ .stack

/-- The MTU is a configured one, and the step carries bytes to the phone. -/
def Carrying (s : State) (a : Label) : Prop := Configured s a ∧ Carries a

def accepts : Label → Bool
  | .writer _ err => err = 0
  | _ => false

/-- How many steps the writer needs for a place of its loop and for a byte of the ring. -/
def writerLeft : WriterPc → ℕ
  | .take => 0
  | .report | .finish _ _ _ => 1
  | .unref false | .hook _ _ => 2
  | .claim _ => 3
  | .mtu => 4
  | .snapshot => 5
  | .test => 6
  | .unref true => 7
  | .send out sent _ => 8+(out.length-sent)
  | .drainClaim _ | .drainFinish _ _ => 0

def left (s : State) : ℕ :=
  writerLeft s.writer+9*s.stream.ring.length+7*s.main.rxDataReady.toNat+8*s.isrGives.toNat

structure Delivering (s : State) : Prop where
  forward : proxyMayForward (snapshotState s.main) = true
  draining : draining s.writer = false
  fits : WriterFits s.stream s.writer
  claimed : Claimed s.writer
  wakeful : Wakeful s

section Writer

variable {m n : Main} {q r : Stream} {k : ℕ} {err : ℤ} {p p' : WriterPc}

theorem writerNext_claimed (h : writerNext m q k err p = some (n,r,p')) (hc : Claimed p) :
    Claimed p' := by
  cases p with
  | claim maxSend =>
    simp only [writerNext, Option.ite_none_left_eq_some, Option.some.injEq, Prod.mk.injEq] at h
    obtain ⟨_,_,_,rfl⟩ := h
    split
    · trivial
    · assumption
  | hook =>
    obtain ⟨_,_,rfl⟩ := h
    exact hc
  | _ => cases writer_move h <;> trivial

theorem writerNext_draining (hfwd : proxyMayForward (snapshotState m) = true)
    (hd : draining p = false) (h : writerNext m q k err p = some (n,r,p')) :
    draining p' = false := by
  cases writer_move h with
  | discard hno => simp [hfwd] at hno
  | drained | drainClaim | drainFinish => simp [draining] at hd
  | _ => rfl

theorem parted_notice (hd : draining p = false) (he : proxySendResult err ≠ .drop) :
    (parted q err p).map (·.1) = notice err p := by
  cases p with
  | drainFinish => simp [draining] at hd
  | send out sent maxSend =>
    simp only [parted, notice]
    split
    · simp [Function.comp_def]
    split
    · rfl
    · rename_i h0 hr
      exact absurd (SendSlices.drop_iff.mpr ⟨h0,not_or.mp hr⟩) he
  | _ => simp [parted, notice, offered]

theorem writerNext_left (hf : WriterFits q p) (hc : Claimed p)
    (hfwd : proxyMayForward (snapshotState m) = true) (hd : draining p = false)
    (h : writerNext m q k err p = some (n,r,p')) :
    (decide (err = 0)).toNat+(writerLeft p'+9*r.ring.length+7*n.rxDataReady.toNat) ≤
      writerLeft p+9*q.ring.length+7*m.rxDataReady.toNat := by
  have hone : (decide (err = 0)).toNat ≤ 1 := by cases decide (err = 0) <;> simp
  cases writer_move h with
  | discard hno => simp [hfwd] at hno
  | drained | drainClaim | drainFinish => simp [draining] at hd
  | take hr =>
    simp only [writerLeft, hr, Bool.toNat_true, Bool.toNat_false]
    omega
  | @finish claimed maxSend out =>
    obtain ⟨_,ho,hlen⟩ := hf
    have hpos : claimed ≠ 0 := hc
    have hout : out.length = claimed := by rw [ho, List.length_take, Nat.min_eq_left hlen]
    simp only [writerLeft, Stream.finish, List.length_drop, hout]
    omega
  | @send out sent maxSend hv =>
    have hne : proxyNextSlice out.length sent maxSend ≠ 0 := by
      intro hz
      simp [writerNext, hz] at h
    have hw := SendSlices.slice_within hne
    simp only [writerLeft, Stream.accept, Stream.settle]
    omega
  | again hv =>
    have h0 : err ≠ 0 := fun h0 => by simp [h0, SendSlices.consumed_iff.mpr] at hv
    simp [h0]
  | drop hv =>
    have h0 : err ≠ 0 := fun h0 => by simp [h0, SendSlices.consumed_iff.mpr] at hv
    simp only [h0, decide_false, Bool.toNat_false, writerLeft, Stream.settle]
    omega
  | forward =>
    simp only [writerLeft, refConn]
    omega
  | unref | loop =>
    simp only [writerLeft, unrefConn]
    omega
  | _ =>
    simp only [writerLeft]
    omega

end Writer

variable {port : Bool} {s t : State} {a : Label}

theorem ready_same (h : step port s a = some t) (hw : thread a ≠ .writer) (hi : thread a ≠ .isr)
    (hs : thread a ≠ .stack) : t.main.rxDataReady = s.main.rxDataReady := by
  cases main_cases h with
  | same hm | wait hm => rw [hm]
  | item w v _ hm =>
    rw [hm]
    cases w <;> rfl
  | work hn =>
    rcases workNext_main hn with hm | hm | hm | hm | hm | hm <;> rw [hm] <;> rfl
  | rx hn =>
    rcases rxNext_main hn with hm | hm | ⟨_,hm⟩ <;> rw [hm]
    rfl
  | host => simp [thread] at hs
  | give => simp [thread] at hi
  | writer => simp [thread] at hw

theorem carries_stack (hc : Carries a) : thread a ≠ .stack := by
  cases a <;> simp_all [Carries, thread]

theorem forward_kept (hs : proxyMayForward (snapshotState s.main) = true)
    (h : step port s a = some t) (ha : thread a ≠ .stack) :
    proxyMayForward (snapshotState t.main) = true := by
  have hf := stack_frame h ha
  simpa [snapshotState, hf.conn, hf.secure] using hs

theorem step_delivering (hs : Delivering s) (hc : Carrying s a) (h : step port s a = some t) :
    Delivering t ∧ notified s a++outgoing t = outgoing s ∧
      (accepts a).toNat+left t ≤ left s := by
  have hst := carries_stack hc.2
  have hfwd := forward_kept hs.forward h hst
  have hwake := step_wakeful hs.wakeful h
  by_cases hw : thread a = .writer
  · cases a with
    | writer k err =>
      obtain ⟨n,q,pc,hn,rfl⟩ := step_writer.mp h
      have hstep := writerNext_step hs.fits hc.1 hn
      have hd := writerNext_draining hs.forward hs.draining hn
      have hout := hstep.kept
      rw [parted_notice hs.draining hc.2] at hout
      have hl := writerNext_left hs.fits hs.claimed hs.forward hs.draining hn
      refine ⟨⟨hfwd,hd,hstep.fits,writerNext_claimed hn hs.claimed,hwake⟩,hout,?_⟩
      simp only [accepts, left]
      omega
    | _ => simp [thread] at hw
  by_cases hi : thread a = .isr
  · cases a with
    | ready data => exact absurd hc.2 (by simp [Carries])
    | give =>
      obtain ⟨hg,rfl⟩ := step_give.mp h
      refine ⟨⟨hfwd,hs.draining,hs.fits,hs.claimed,hwake⟩,rfl,?_⟩
      simp only [accepts, left, giveRxDataReady, hg, Bool.toNat_true, Bool.toNat_false]
      omega
    | _ => simp [thread] at hi
  · have hstream := (step_frame h).stream hw hi
    have hwriter := (step_frame h).writer hw
    have hacc : accepts a = false := by cases a <;> simp_all [accepts, thread]
    have hno : notified s a = [] := by cases a <;> simp_all [notified, thread]
    refine ⟨⟨hfwd,by rw [hwriter]; exact hs.draining,by rw [hstream, hwriter]; exact hs.fits,
      by rw [hwriter]; exact hs.claimed,hwake⟩,
      by simp only [outgoing, hstream, hwriter, hno, List.nil_append],?_⟩
    simp only [left, hstream, hwriter, ready_same h hw hi hst, (step_frame h).gives hi, hacc,
      Bool.toNat_false, Nat.zero_add, le_refl]

def Waiting (s : State) : Prop :=
  s.writer = .take ∧ s.main.rxDataReady = false ∧ s.isrGives = false

theorem Delivering.empty (hs : Delivering s) (hw : Waiting s) : s.stream.ring = [] := by
  obtain ⟨hp,hr,hg⟩ := hw
  by_contra hne
  rcases hs.wakeful.awake hne with hd | hd | hd <;> simp [hr, hg, hp, looksAgain] at hd

/-- The answers with which the writer goes on: a configured MTU, and one byte before the
wrap at least. -/
def goOn : WriterPc → ℕ
  | .mtu => 247
  | _ => 1

theorem writerNext_total (m : Main) (q : Stream) {p : WriterPc}
    (hr : p = .take → m.rxDataReady = true) : ∃ c, writerNext m q (goOn p) 0 p = some c := by
  cases p with
  | take => exact ⟨_,by rw [writerNext, if_pos (hr rfl)]⟩
  | drainClaim => exact ⟨_,by rw [writerNext, if_neg (by simp [goOn])]⟩
  | mtu => exact ⟨_,by rw [writerNext, if_pos (by simp [goOn])]⟩
  | claim => exact ⟨_,by rw [writerNext, if_neg (by simp [goOn])]⟩
  | _ => exact ⟨_,rfl⟩

theorem delivering_progress (port : Bool) (hs : Delivering s) (hw : ¬Waiting s) :
    ∃ a t, Carrying s a ∧ step port s a = some t ∧ left t < left s := by
  by_cases hg : s.isrGives = true
  · refine ⟨.give,_,⟨trivial,by simp [Carries, thread]⟩,step_give.mpr ⟨hg,rfl⟩,?_⟩
    simp only [left, giveRxDataReady, hg, Bool.toNat_true, Bool.toNat_false]
    omega
  · have hready : s.writer = .take → s.main.rxDataReady = true := by
      intro hp
      by_contra hr
      exact hw ⟨hp,by simpa using hr,by simpa using hg⟩
    obtain ⟨⟨n,q,pc⟩,hn⟩ := writerNext_total s.main s.stream hready
    have hc : Carrying s (.writer (goOn s.writer) 0) := by
      refine ⟨fun hp => ?_,?_⟩
      · rw [hp]
        exact le_refl _
      · simp [Carries, SendSlices.consumed_iff.mpr]
    have hst : step port s (.writer (goOn s.writer) 0) =
        some { s with main := n, stream := q, writer := pc } :=
      step_writer.mpr ⟨n,q,pc,hn,rfl⟩
    refine ⟨_,_,hc,hst,?_⟩
    have hl := (step_delivering hs hc hst).2.2
    simp only [accepts, decide_true, Bool.toNat_true] at hl
    omega

theorem Waiting.slice (hw : Waiting s) : sliceBuffer s.writer = [] := by
  rw [hw.1]
  rfl

theorem Delivering.nothing_left (hs : Delivering s) (hw : Waiting s) : outgoing s = [] := by
  simp [outgoing, hw.slice, hs.empty hw]

theorem run_delivering {as : List Label} (hs : Delivering s)
    (hc : AllSteps (step port) Carrying as s) (h : run (step port) as s = some t) :
    Delivering t ∧ trace (step port) notified as s++outgoing t = outgoing s :=
  run_conserves outgoing (fun _ _ _ hi hc ht =>
    have hst := step_delivering hi hc ht
    ⟨hst.1,hst.2.1⟩) hs hc h

theorem step_fits (hs : WriterFits s.stream s.writer ∧ Claimed s.writer) (hc : Configured s a)
    (h : step port s a = some t) : WriterFits t.stream t.writer ∧ Claimed t.writer := by
  by_cases hw : thread a = .writer
  · cases a with
    | writer k err =>
      obtain ⟨n,q,pc,hn,rfl⟩ := step_writer.mp h
      exact ⟨(writerNext_step hs.1 hc hn).fits,writerNext_claimed hn hs.2⟩
    | _ => simp [thread] at hw
  rw [(step_frame h).writer hw]
  refine ⟨?_,hs.2⟩
  by_cases hi : thread a = .isr
  · cases a with
    | ready data =>
      obtain ⟨_,_,rfl⟩ := step_ready.mp h
      exact put_fits _ data _ hs.1
    | give =>
      obtain ⟨_,rfl⟩ := step_give.mp h
      exact hs.1
    | _ => simp [thread] at hi
  · rw [(step_frame h).stream hw hi]
    exact hs.1

theorem run_fits {locked : Bool} {es : List Label} (h : run (step port) es (init locked) = some s)
    (hc : AllSteps (step port) Configured es (init locked)) :
    WriterFits s.stream s.writer ∧ Claimed s.writer :=
  have h0 : WriterFits (init locked).stream (init locked).writer ∧ Claimed (init locked).writer :=
    ⟨trivial,trivial⟩
  invariant_of (I := fun s => WriterFits s.stream s.writer ∧ Claimed s.writer) h0
    (fun _ _ _ hi hc ht => step_fits hi hc ht) h hc

end NrfProxy.WriterDelivery
