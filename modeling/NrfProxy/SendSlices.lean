import NrfProxy.MainThreads

/-!
# Sending a hook output in slices

`send_processed` offers what is left of its output, as much as one notification
takes, and goes by the verdict on the answer. It is followed here over any
sequence of answers, which may end before the function returns, and the writer
of the threads' model makes the same calls.
-/

set_option autoImplicit false

namespace NrfProxy.SendSlices
open NrfProxy.Runs NrfProxy.ProxyCore NrfProxy.MainState NrfProxy.MainThreads

/-- A call of `bt_nus_send` with `slice` bytes from `data + sent`, and its answer. -/
structure Offer where
  sent : ℕ
  slice : ℕ
  bytes : List UInt8
  err : ℤ
  deriving DecidableEq, Repr

structure Sending where
  offers : List Offer
  returned : Bool
  deriving DecidableEq, Repr

def Sending.after (s : Sending) (x : Offer) : Sending := { s with offers := x::s.offers }

/-- `send_processed` from `sent` on. -/
def sendProcessed (out : List UInt8) (maxSend : ℕ) : ℕ → List ℤ → Sending
  | sent, [] => ⟨[],proxyNextSlice out.length sent maxSend = 0⟩
  | sent, err::errs =>
    let slice := proxyNextSlice out.length sent maxSend
    let offer := ⟨sent,slice,(out.drop sent).take slice,err⟩
    if slice = 0 then ⟨[],true⟩
    else match proxySendResult err with
      | .consumed => (sendProcessed out maxSend (sent+slice) errs).after offer
      | .retry => (sendProcessed out maxSend sent errs).after offer
      | .drop => ⟨[offer],true⟩

def accepted (offers : List Offer) : List UInt8 :=
  ((offers.filter (fun x => x.err == 0)).map Offer.bytes).flatten

/-- An answer which ends the function. -/
def Fatal (err : ℤ) : Prop := err ≠ 0 ∧ err ≠ -ENOMEM ∧ err ≠ -EAGAIN

/-- The next call goes on behind an accepted slice and repeats a refused one. -/
def Follows (x y : Offer) : Prop :=
  (x.err = 0 → y.sent = x.sent+x.slice) ∧
    (x.err = -ENOMEM ∨ x.err = -EAGAIN → y.sent = x.sent ∧ y.slice = x.slice ∧ y.bytes = x.bytes) ∧
    ¬Fatal x.err

/-- What `send_processed` does with an output of which `sent` bytes have gone, where
`bt_nus_send` answers its calls with `errs`, one after the other. -/
structure Exact (out : List UInt8) (maxSend sent : ℕ) (errs : List ℤ) (s : Sending) : Prop where
  answered : s.offers.map Offer.err <+: errs
  waits : s.returned = false → s.offers.map Offer.err = errs
  within : ∀ x ∈ s.offers, 1 ≤ x.slice ∧ x.slice ≤ maxSend ∧ x.sent+x.slice ≤ out.length ∧
    x.bytes = (out.drop x.sent).take x.slice
  first : ∀ x, s.offers.head? = some x →
    x.sent = sent ∧ x.slice = proxyNextSlice out.length sent maxSend
  follows : s.offers.IsChain Follows
  accepted : accepted s.offers <+: out.drop sent
  returned : s.returned = true ↔
    SendSlices.accepted s.offers = out.drop sent ∨ ∃ x ∈ s.offers, Fatal x.err

variable {out : List UInt8} {maxSend sent : ℕ} {err : ℤ} {errs : List ℤ}

theorem consumed_iff : proxySendResult err = .consumed ↔ err = 0 := by
  unfold proxySendResult
  split_ifs <;> simp_all

theorem retry_iff : proxySendResult err = .retry ↔ err = -ENOMEM ∨ err = -EAGAIN := by
  unfold proxySendResult
  split_ifs with h0 h1
  · subst h0
    decide
  · exact iff_of_true rfl h1
  · exact iff_of_false (by simp) h1

theorem drop_iff : proxySendResult err = .drop ↔ Fatal err := by
  unfold proxySendResult
  split_ifs with h0 h1
  · exact iff_of_false (by simp) (fun hf => hf.1 h0)
  · exact iff_of_false (by simp) (fun hf => h1.elim hf.2.1 hf.2.2)
  · exact iff_of_true rfl ⟨h0,not_or.mp h1⟩

theorem slice_within (h : proxyNextSlice out.length sent maxSend ≠ 0) :
    1 ≤ proxyNextSlice out.length sent maxSend ∧
      proxyNextSlice out.length sent maxSend ≤ maxSend ∧
      sent+proxyNextSlice out.length sent maxSend ≤ out.length := by
  unfold proxyNextSlice at *
  split_ifs at * <;> omega

def offer (out : List UInt8) (maxSend sent : ℕ) (err : ℤ) : Offer :=
  ⟨sent,proxyNextSlice out.length sent maxSend,
    (out.drop sent).take (proxyNextSlice out.length sent maxSend),err⟩

theorem stop_exact (hm : 0 < maxSend) (h : proxyNextSlice out.length sent maxSend = 0) :
    Exact out maxSend sent errs ⟨[],true⟩ := by
  have hend : out.drop sent = [] :=
    List.drop_eq_nil_of_le ((nextSlice_eq_zero _ _ _ hm).mp h)
  refine ⟨List.nil_prefix,by simp,by simp,by simp,List.isChain_nil,List.nil_prefix,?_⟩
  simp [accepted, hend]

theorem wait_exact (h : proxyNextSlice out.length sent maxSend ≠ 0) :
    Exact out maxSend sent [] ⟨[],false⟩ := by
  obtain ⟨hpos,_,hle⟩ := slice_within h
  refine ⟨List.nil_prefix,fun _ => rfl,by simp,by simp,List.isChain_nil,List.nil_prefix,?_⟩
  have hne : out.drop sent ≠ [] := by
    intro hd
    have := List.drop_eq_nil_iff.mp hd
    omega
  simp [accepted, hne.symm]

theorem drop_exact (h : proxyNextSlice out.length sent maxSend ≠ 0) (hf : Fatal err) :
    Exact out maxSend sent (err::errs) ⟨[offer out maxSend sent err],true⟩ := by
  obtain ⟨hpos,hmax,hle⟩ := slice_within h
  refine ⟨⟨errs,rfl⟩,by simp,?_,?_,List.isChain_singleton _,?_,?_⟩
  · intro x hx
    obtain rfl := List.mem_singleton.mp hx
    exact ⟨hpos,hmax,hle,rfl⟩
  · rintro x ⟨⟩
    exact ⟨rfl,rfl⟩
  · simp [accepted, offer, hf.1]
  · simp only [true_iff]
    exact Or.inr ⟨_,List.mem_singleton_self _,hf⟩

theorem consumed_exact {s : Sending} (h : proxyNextSlice out.length sent maxSend ≠ 0)
    (hs : Exact out maxSend (sent+proxyNextSlice out.length sent maxSend) errs s) :
    Exact out maxSend sent (0::errs) (s.after (offer out maxSend sent 0)) := by
  obtain ⟨hpos,hmax,hle⟩ := slice_within h
  have hacc : accepted (s.after (offer out maxSend sent 0)).offers =
      (out.drop sent).take (proxyNextSlice out.length sent maxSend)++accepted s.offers := by
    simp [accepted, Sending.after, offer]
  have hsplit : out.drop sent = (out.drop sent).take (proxyNextSlice out.length sent maxSend)++
      out.drop (sent+proxyNextSlice out.length sent maxSend) := by
    rw [← List.drop_drop, List.take_append_drop]
  have hfatal : ¬Fatal 0 := fun hf => hf.1 rfl
  refine ⟨List.cons_prefix_cons.mpr ⟨rfl,hs.answered⟩,
    fun hr => congrArg (0::·) (hs.waits hr),?_,?_,?_,?_,?_⟩
  · intro x hx
    rcases List.mem_cons.mp hx with rfl | hx
    · exact ⟨hpos,hmax,hle,rfl⟩
    · exact hs.within x hx
  · rintro x ⟨⟩
    exact ⟨rfl,rfl⟩
  · apply hs.follows.cons
    intro y hy
    refine ⟨fun _ => (hs.first y hy).1,?_,hfatal⟩
    intro hr
    simp [offer, ENOMEM, EAGAIN] at hr
  · generalize (out.drop sent).take _ = slice at hacc hsplit
    rw [hacc, hsplit]
    exact (List.prefix_append_right_inj _).mpr hs.accepted
  · generalize (out.drop sent).take _ = slice at hacc hsplit
    rw [hacc, hsplit, List.append_cancel_left_eq]
    simpa [Sending.after, offer, hfatal] using hs.returned

theorem retry_exact {s : Sending} (h : proxyNextSlice out.length sent maxSend ≠ 0)
    (hr : err = -ENOMEM ∨ err = -EAGAIN) (hs : Exact out maxSend sent errs s) :
    Exact out maxSend sent (err::errs) (s.after (offer out maxSend sent err)) := by
  obtain ⟨hpos,hmax,hle⟩ := slice_within h
  have h0 : err ≠ 0 := by
    rintro rfl
    simp [ENOMEM, EAGAIN] at hr
  have hacc : accepted (s.after (offer out maxSend sent err)).offers = accepted s.offers := by
    simp [accepted, Sending.after, offer, h0]
  have hfatal : ¬Fatal err := fun hf => hr.elim hf.2.1 hf.2.2
  refine ⟨List.cons_prefix_cons.mpr ⟨rfl,hs.answered⟩,
    fun hr => congrArg (err::·) (hs.waits hr),?_,?_,?_,?_,?_⟩
  · intro x hx
    rcases List.mem_cons.mp hx with rfl | hx
    · exact ⟨hpos,hmax,hle,rfl⟩
    · exact hs.within x hx
  · rintro x ⟨⟩
    exact ⟨rfl,rfl⟩
  · apply hs.follows.cons
    intro y hy
    obtain ⟨hsent,hslice⟩ := hs.first y hy
    refine ⟨fun hz => absurd hz h0,fun _ => ⟨hsent,hslice,?_⟩,hfatal⟩
    rw [(hs.within y (List.mem_of_mem_head? hy)).2.2.2, hsent, hslice]
    rfl
  · rw [hacc]
    exact hs.accepted
  · rw [hacc]
    simpa [Sending.after, offer, hfatal] using hs.returned

theorem sendProcessed_exact (hm : 0 < maxSend) (errs : List ℤ) :
    Exact out maxSend sent errs (sendProcessed out maxSend sent errs) := by
  induction errs generalizing sent with
  | nil =>
    by_cases h : proxyNextSlice out.length sent maxSend = 0
    · simpa [sendProcessed, h] using stop_exact hm h
    · simpa [sendProcessed, h] using wait_exact h
  | cons err errs ih =>
    by_cases h : proxyNextSlice out.length sent maxSend = 0
    · simpa [sendProcessed, h] using stop_exact hm h
    · simp only [sendProcessed, h, if_false]
      cases hv : proxySendResult err with
      | consumed =>
        obtain rfl := consumed_iff.mp hv
        exact consumed_exact h ih
      | retry => exact retry_exact h (retry_iff.mp hv) ih
      | drop => exact drop_exact h (drop_iff.mp hv)

/-- An answer which is not a retry ends the function or takes it one byte on. -/
theorem returned_of_answers (errs : List ℤ)
    (h : out.length-sent ≤ errs.countP (fun err => proxySendResult err ≠ .retry)) :
    (sendProcessed out maxSend sent errs).returned = true := by
  induction errs generalizing sent with
  | nil =>
    have hle : out.length ≤ sent := by
      simp only [List.countP_nil] at h
      omega
    simp [sendProcessed, proxyNextSlice, hle]
  | cons err errs ih =>
    by_cases hz : proxyNextSlice out.length sent maxSend = 0
    · simp [sendProcessed, hz]
    · obtain ⟨hpos,_,hle⟩ := slice_within hz
      simp only [sendProcessed, hz, if_false]
      rw [List.countP_cons] at h
      cases hv : proxySendResult err with
      | consumed =>
        have hone : decide (proxySendResult err ≠ .retry) = true := by
          rw [hv]
          rfl
        simp only [hone, if_true] at h
        exact ih (by omega)
      | retry =>
        simp only [hv] at h
        exact ih (by simpa using h)
      | drop => rfl

def answers (results : ℕ → ℤ) (n : ℕ) : List ℤ := (List.range n).map results

theorem answers_count (results : ℕ → ℤ) (k n : ℕ)
    (h : ∀ i, k ≤ i → proxySendResult (results i) ≠ .retry) :
    n ≤ (answers results (k+n)).countP (fun err => proxySendResult err ≠ .retry) := by
  induction n with
  | zero => omega
  | succ n ih =>
    have hlast := h (k+n) (by omega)
    rw [answers, ← Nat.add_assoc, List.range_succ, List.map_append, List.countP_append]
    simp only [List.map_cons, List.map_nil, List.countP_singleton, hlast, ne_eq, not_false_eq_true,
      decide_true, if_true]
    exact Nat.add_le_add_right ih 1

/-- Whatever the answers, the calls are answered by the first of them and offer slices
of the output from its start, accepted ones behind one another and refused ones again,
until the function returns; and with finitely many retries it does return. -/
theorem slices_exact (out : List UInt8) (maxSend : ℕ) (hm : 0 < maxSend) (results : ℕ → ℤ) :
    (∀ n, Exact out maxSend 0 (answers results n)
      (sendProcessed out maxSend 0 (answers results n))) ∧
      ({i | proxySendResult (results i) = .retry}.Finite →
        ∃ n, (sendProcessed out maxSend 0 (answers results n)).returned = true) := by
  constructor
  · intro n
    exact sendProcessed_exact hm _
  · intro hfin
    obtain ⟨k,hk⟩ := hfin.bddAbove
    refine ⟨(k+1)+out.length,returned_of_answers _ ?_⟩
    apply answers_count
    intro i hi hr
    have := hk hr
    omega

/-- Five bytes in slices of two, the second of them refused once. -/
theorem slices_exact_refused :
    Exact [1, 2, 3, 4, 5] 2 0 [0, -ENOMEM, 0, 0]
      ⟨[⟨0,2,[1, 2],0⟩, ⟨2,2,[3, 4],-ENOMEM⟩, ⟨2,2,[3, 4],0⟩, ⟨4,1,[5],0⟩],true⟩ :=
  (slices_exact [1, 2, 3, 4, 5] 2 (by decide) (fun i => if i = 1 then -ENOMEM else 0)).1 4

def writerSend (m : Main) (k : ℕ) (c : Stream × WriterPc) (err : ℤ) : Option (Stream × WriterPc) :=
  (writerNext m c.1 k err c.2).map Prod.snd

/-- The writer calls `bt_nus_send` as `send_processed` does, and leaves it where
this returns. -/
theorem writer_sends (m : Main) (k : ℕ) (sent : ℕ) (q : Stream) (errs : List ℤ) :
    ∃ r p, run (writerSend m k) ((sendProcessed out maxSend sent errs).offers.map Offer.err)
        (q,.send out sent maxSend) = some (r,p) ∧
      r.phone = q.phone++accepted (sendProcessed out maxSend sent errs).offers ∧
      (p = .unref true ∨ ∃ sent', p = .send out sent' maxSend ∧
        ((sendProcessed out maxSend sent errs).returned = true ↔
          proxyNextSlice out.length sent' maxSend = 0)) := by
  induction errs generalizing q sent with
  | nil =>
    refine ⟨q,_,rfl,by simp [sendProcessed, accepted],Or.inr ⟨sent,rfl,?_⟩⟩
    simp [sendProcessed]
  | cons err errs ih =>
    by_cases hz : proxyNextSlice out.length sent maxSend = 0
    · refine ⟨q,_,by simp [sendProcessed, hz, run],?_,Or.inr ⟨sent,rfl,?_⟩⟩
      · simp [sendProcessed, hz, accepted]
      · simp [sendProcessed, hz]
    · cases hv : proxySendResult err with
      | consumed =>
        obtain rfl := consumed_iff.mp hv
        obtain ⟨r,p,hrun,hphone,hp⟩ := ih (sent+proxyNextSlice out.length sent maxSend)
          (q.accept ((out.drop sent).take (proxyNextSlice out.length sent maxSend)))
        refine ⟨r,p,?_,?_,?_⟩
        · simpa [sendProcessed, hz, hv, Sending.after, run, writerSend, writerNext] using hrun
        · rw [hphone]
          simp [sendProcessed, hz, hv, Sending.after, accepted, Stream.accept]
        · simpa [sendProcessed, hz, hv, Sending.after] using hp
      | retry =>
        have h0 : err ≠ 0 := by
          rintro rfl
          simp [consumed_iff.mpr] at hv
        obtain ⟨r,p,hrun,hphone,hp⟩ := ih sent q
        refine ⟨r,p,?_,?_,?_⟩
        · simpa [sendProcessed, hz, hv, Sending.after, run, writerSend, writerNext] using hrun
        · rw [hphone]
          simp [sendProcessed, hz, hv, Sending.after, accepted, h0]
        · simpa [sendProcessed, hz, hv, Sending.after] using hp
      | drop =>
        have h0 := (drop_iff.mp hv).1
        refine ⟨q.settle (out.drop sent) (.dropped err),.unref true,?_,?_,Or.inl rfl⟩
        · simp [sendProcessed, hz, hv, run, writerSend, writerNext]
        · simp [sendProcessed, hz, hv, accepted, h0, Stream.settle]

end NrfProxy.SendSlices
