import NrfProxy.ConnReferences
import NrfProxy.SerialStream
import NrfProxy.WriterWakeup

/-!
# A clean stream for the next client

`on_disconnected` leaves the flush of the ring to the writer, which discards
when it finds no encrypted link. Bytes are told apart by their place in what the
ring has taken in: a disconnect marks the end of what its client has left, and
the bytes of a slice begin at the place the writer claimed them from.
-/

set_option autoImplicit false

namespace NrfProxy.CleanStream
open NrfProxy.Runs NrfProxy.ProxyCore NrfProxy.MainState NrfProxy.MainThreads
open NrfProxy.ThreadInvariant NrfProxy.EncryptionGate NrfProxy.ConnReferences
open NrfProxy.SerialStream
open NrfProxy.WriterWakeup (claim_eq_zero)

/-- How many of the queued bytes have left the ring. -/
def taken (q : Stream) : ℕ := (queued q).length-q.ring.length

/-- `on_disconnected` ends, for this link and behind this many bytes. -/
def leaving (s : State) : Label → List (ℕ × ℕ)
  | .host => if s.host = .discGive then s.link.toList.map (·,(queued s.stream).length) else []
  | _ => []

def consumed (q : Stream) : WriterPc → List ℕ
  | .finish _ _ _ => [taken q]
  | _ => []

def consuming (s : State) : Label → List ℕ
  | .writer _ _ => consumed s.stream s.writer
  | _ => []

/-- Nothing a client has left is in the ring, unless it is being drained. -/
def Flushed (marks : List (ℕ × ℕ)) (q : Stream) (pc : WriterPc) : Prop :=
  draining pc = true ∨ ∀ m ∈ marks, m.2 ≤ taken q

def OpensFlushed (marks : List (ℕ × ℕ)) (s : State) : Label → Prop
  | .host => s.host = .secLock → Flushed marks s.stream s.writer
  | _ => True

instance (marks : List (ℕ × ℕ)) (q : Stream) (pc : WriterPc) : Decidable (Flushed marks q pc) :=
  inferInstanceAs (Decidable (_ ∨ _))

instance (marks : List (ℕ × ℕ)) (s : State) : ∀ a, Decidable (OpensFlushed marks s a)
  | .host => inferInstanceAs (Decidable (_ → _))
  | .wait _ | .expire _ | .enter _ | .work _ | .connect _ | .security _ _ | .disconnect | .recycle
  | .receive _ | .rx _ | .ready _ | .give | .writer _ _ => .isTrue trivial

def Suffix (q : Stream) : Prop := q.ring <:+ queued q

theorem queued_put (q : Stream) (data : List UInt8) :
    queued (q.put data) = queued q++data.take (min data.length (rxRingSize-q.ring.length)) := by
  rw [queued, put_intake, List.filter_append, List.map_append, cut_queued]
  rfl

theorem put_suffix {q : Stream} (data : List UInt8) (h : Suffix q) : Suffix (q.put data) := by
  obtain ⟨gone,hg⟩ := h
  refine ⟨gone,?_⟩
  rw [queued_put, ← hg, List.append_assoc]
  rfl

theorem put_taken (q : Stream) (data : List UInt8) : taken (q.put data) = taken q := by
  have hring : (q.put data).ring =
      q.ring++data.take (min data.length (rxRingSize-q.ring.length)) := rfl
  simp only [taken, queued_put, hring, List.length_append]
  omega

theorem finish_taken (q : Stream) (len : ℕ) : taken q ≤ taken (q.finish len) := by
  have hlen : (q.finish len).ring.length ≤ q.ring.length := by simp [Stream.finish]
  have hq : queued (q.finish len) = queued q := rfl
  simp only [taken, hq]
  omega

theorem Suffix.drop_taken {q : Stream} (h : Suffix q) : (queued q).drop (taken q) = q.ring := by
  obtain ⟨gone,hg⟩ := h
  have htaken : taken q = gone.length := by simp [taken, ← hg]
  rw [htaken, ← hg, List.drop_left]

theorem empty_taken {q : Stream} (h : q.ring = []) : taken q = (queued q).length := by
  simp [taken, h]

/-- Every client but that of `link` has left what it left before the place `n`. -/
def Before (marks : List (ℕ × ℕ)) (link : Option ℕ) (n : ℕ) : Prop :=
  ∀ m ∈ marks, link ≠ some m.1 → m.2 ≤ n

/-- The writer claims behind what other clients have left, and its slice buffer
is what the last claim was about. -/
def Held (marks : List (ℕ × ℕ)) (link : Option ℕ) (base : Option ℕ) (q : Stream) :
    WriterPc → Prop
  | .mtu | .claim _ | .hook _ _ => Before marks link (taken q)
  | .finish _ out _ => Before marks link (taken q) ∧ out <+: q.ring
  | .send out _ _ => ∃ b, base = some b ∧ out <+: (queued q).drop b ∧ Before marks link b
  | _ => True

structure Clean (marks : List (ℕ × ℕ)) (bases : List ℕ) (s : State) : Prop where
  refs : Referenced s
  suffix : Suffix s.stream
  placed : ∀ m ∈ marks, m.2 ≤ (queued s.stream).length
  opened : s.main.linkSecure = true → Flushed marks s.stream s.writer
  held : Held marks s.link bases.getLast? s.stream s.writer

variable {port : Bool} {s t : State} {a : Label} {marks : List (ℕ × ℕ)} {bases : List ℕ}

theorem init_clean (locked : Bool) : Clean [] [] (init locked) :=
  ⟨init_referenced locked,List.suffix_refl _,by simp,by simp [init, boot],trivial⟩

theorem put_held {q : Stream} {link base : Option ℕ} {pc : WriterPc} (data : List UInt8)
    (h : Held marks link base q pc) : Held marks link base (q.put data) pc := by
  cases pc with
  | mtu | claim | hook =>
    simp only [Held, put_taken] at h ⊢
    exact h
  | finish claimed out maxSend =>
    simp only [Held, put_taken] at h ⊢
    exact ⟨h.1,h.2.trans (List.prefix_append _ _)⟩
  | send out sent maxSend =>
    obtain ⟨b,hb,ho,hm⟩ := h
    refine ⟨b,hb,ho.trans ?_,hm⟩
    rw [queued_put, List.drop_append]
    exact List.prefix_append _ _
  | _ => trivial

theorem mark_held {q : Stream} {link base : Option ℕ} {pc : WriterPc} {l n : ℕ}
    (hl : link = some l) (h : Held marks link base q pc) :
    Held (marks++[(l,n)]) link base q pc := by
  have hb {k : ℕ} (h : Before marks link k) : Before (marks++[(l,n)]) link k := by
    intro m hm hne
    rcases List.mem_append.mp hm with hm | hm
    · exact h m hm hne
    · obtain rfl := List.mem_singleton.mp hm
      exact absurd hl hne
  cases pc with
  | mtu | claim | hook => exact hb h
  | finish claimed out maxSend => exact ⟨hb h.1,h.2⟩
  | send out sent maxSend =>
    obtain ⟨b,hbase,ho,hm⟩ := h
    exact ⟨b,hbase,ho,hb hm⟩
  | _ => trivial

theorem writerNext_ring {m n : Main} {q r : Stream} {k : ℕ} {err : ℤ} {p p' : WriterPc}
    (h : writerNext m q k err p = some (n,r,p')) :
    queued r = queued q ∧ ∃ len, r.ring = q.ring.drop len := by
  cases writer_move h with
  | @drainFinish _ len => exact ⟨rfl,len,rfl⟩
  | @finish claimed => exact ⟨rfl,claimed,rfl⟩
  | _ => exact ⟨rfl,0,rfl⟩

theorem writerNext_clean {m n : Main} {q r : Stream} {k : ℕ} {err : ℤ} {p p' : WriterPc}
    {link : Option ℕ} (hq : Suffix q)
    (hplaced : ∀ x ∈ marks, x.2 ≤ (queued q).length)
    (hopen : m.linkSecure = true → Flushed marks q p) (hh : Held marks link bases.getLast? q p)
    (h : writerNext m q k err p = some (n,r,p')) :
    (m.linkSecure = true → Flushed marks r p') ∧
      Held marks link (bases++consumed q p).getLast? r p' := by
  cases writer_move h with
  | forward hf =>
    have hsec : m.linkSecure = true := by
      simp only [proxyMayForward, snapshotState, Bool.and_eq_true] at hf
      exact hf.2
    rcases hopen hsec with hd | hm
    · simp [draining] at hd
    · exact ⟨fun _ => Or.inr hm,fun x hx _ => hm x hx⟩
  | discard => exact ⟨fun _ => Or.inl rfl,trivial⟩
  | drained hn hz =>
    refine ⟨fun _ => Or.inr (fun x hx => ?_),trivial⟩
    rw [empty_taken (claim_eq_zero hn (by decide) hz)]
    exact hplaced x hx
  | drainClaim | drainFinish => exact ⟨fun _ => Or.inl rfl,trivial⟩
  | mtu | claim => exact ⟨hopen,hh⟩
  | hook =>
    refine ⟨hopen,hh,?_⟩
    rw [onUartRx_eq]
    exact (List.take_prefix _ _).trans (List.take_prefix _ _)
  | @finish claimed =>
    obtain ⟨hb,ho⟩ := hh
    constructor
    · intro hsec
      rcases hopen hsec with hd | hm
      · simp [draining] at hd
      · exact Or.inr (fun x hx => (hm x hx).trans (finish_taken q claimed))
    · refine ⟨taken q,by simp [consumed],?_,hb⟩
      have hdrop := hq.drop_taken
      rw [← hdrop] at ho
      exact ho
  | @send out sent maxSend | @again out sent maxSend =>
    have hnil : consumed q (.send out sent maxSend) = [] := rfl
    refine ⟨hopen,?_⟩
    rw [hnil, List.append_nil]
    exact hh
  | _ => exact ⟨hopen,trivial⟩

theorem step_held_link {base : Option ℕ} (hs : Referenced s) (h : step port s a = some t)
    (hh : Held marks s.link base s.stream s.writer) :
    Held marks t.link base s.stream s.writer := by
  by_cases hr : writerRefs s.writer = 1
  · have hp : 0 < s.main.connRefs := by
      rw [hs.counted]
      omega
    obtain ⟨l,hl⟩ := Option.isSome_iff_exists.mp (hs.allocated hp)
    rw [link_kept hp hl h, ← hl]
    exact hh
  · cases hw : s.writer <;> simp [hw, writerRefs] at hr <;> trivial

theorem Clean.frame (hs : Clean marks bases s) (h : step port s a = some t)
    (hst : t.stream = s.stream) (hw : t.writer = s.writer)
    (ho : t.main.linkSecure = true → Flushed marks s.stream s.writer) : Clean marks bases t := by
  apply Clean.mk (step_referenced hs.refs h)
  · rw [hst]
    exact hs.suffix
  · rw [hst]
    exact hs.placed
  · rw [hst, hw]
    exact ho
  · rw [hst, hw]
    exact step_held_link hs.refs h hs.held

theorem hostNext_opens {m n : Main} {p q : HostPc} (h : hostNext m p = some (n,q))
    (hn : n.linkSecure = true) : m.linkSecure = true ∨ p = .secLock := by
  cases p with
  | idle => simp [hostNext] at h
  | secLock => exact Or.inr rfl
  | connLock err =>
    obtain ⟨rfl,_⟩ := Prod.mk.inj (Option.some.inj h)
    unfold connectedLock at hn
    split at hn
    · simp at hn
    · exact Or.inl hn
  | discLock =>
    obtain ⟨rfl,_⟩ := Prod.mk.inj (Option.some.inj h)
    unfold disconnectedLock at hn
    split at hn <;> simp at hn
  | _ =>
    obtain ⟨rfl,_⟩ := Prod.mk.inj (Option.some.inj h)
    exact Or.inl hn

theorem host_clean (hs : Clean marks bases s) (ho : OpensFlushed marks s .host)
    (h : step port s .host = some t) : Clean (marks++leaving s .host) bases t := by
  have hc : Clean marks bases t := by
    apply hs.frame h ((step_frame h).stream (by simp [thread]) (by simp [thread]))
      ((step_frame h).writer (by simp [thread]))
    intro hsec
    obtain ⟨n,pc,hn,rfl⟩ := step_host.mp h
    rcases hostNext_opens hn hsec with hm | hp
    · exact hs.opened hm
    · exact ho hp
  by_cases hg : s.host = .discGive
  · cases hl : s.link with
    | none => simpa [leaving, hg, hl] using hc
    | some l =>
      have hleave : leaving s .host = [(l,(queued s.stream).length)] := by simp [leaving, hg, hl]
      rw [hleave]
      have hst := (step_frame h).stream (by simp [thread]) (by simp [thread])
      obtain ⟨n,pc,hn,rfl⟩ := step_host.mp h
      have hf := hs.refs.wf.host
      rw [hg] at hf
      simp only [hg, hostNext, Option.some.injEq, Prod.mk.injEq] at hn
      obtain ⟨rfl,rfl⟩ := hn
      refine ⟨hc.refs,hc.suffix,?_,?_,mark_held hl hc.held⟩
      · intro m hm
        rcases List.mem_append.mp hm with hm | hm
        · exact hc.placed m hm
        · obtain rfl := List.mem_singleton.mp hm
          exact le_refl _
      · intro hsec
        have hconn := hs.refs.wf.secure_conn hsec
        simp [hf.1] at hconn
  · simpa [leaving, hg] using hc

theorem step_clean (hs : Clean marks bases s) (ho : OpensFlushed marks s a)
    (h : step port s a = some t) : Clean (marks++leaving s a) (bases++consuming s a) t := by
  have hr := step_referenced hs.refs h
  cases a with
  | host => simpa [consuming] using host_clean hs ho h
  | ready data =>
    obtain ⟨_,_,rfl⟩ := step_ready.mp h
    simp only [leaving, consuming, List.append_nil]
    refine ⟨hr,put_suffix data hs.suffix,?_,?_,put_held data hs.held⟩
    · intro m hm
      rw [queued_put, List.length_append]
      exact (hs.placed m hm).trans (Nat.le_add_right _ _)
    · intro hsec
      simp only [Flushed, put_taken]
      exact hs.opened hsec
  | give =>
    simp only [leaving, consuming, List.append_nil]
    obtain ⟨_,rfl⟩ := step_give.mp h
    exact hs.frame h rfl rfl hs.opened
  | writer k err =>
    have hf := stack_frame h (by simp [thread])
    obtain ⟨n,q,pc,hn,rfl⟩ := step_writer.mp h
    obtain ⟨hq,len,hring⟩ := writerNext_ring hn
    obtain ⟨hopen,hheld⟩ := writerNext_clean hs.suffix hs.placed hs.opened hs.held hn
    simp only [leaving, consuming, List.append_nil]
    refine ⟨hr,?_,?_,?_,hheld⟩
    · rw [Suffix, hring, hq]
      exact (List.drop_suffix len _).trans hs.suffix
    · dsimp only
      rw [hq]
      exact hs.placed
    · rw [hf.secure]
      exact hopen
  | _ =>
    simp only [leaving, consuming, List.append_nil]
    apply hs.frame h ((step_frame h).stream (by simp [thread]) (by simp [thread]))
      ((step_frame h).writer (by simp [thread]))
    rw [(link_frame h (by simp)).secure]
    exact hs.opened

variable (port) (locked : Bool)

def marksOf (es : List Label) : List (ℕ × ℕ) := trace (step port) leaving es (init locked)

def basesOf (es : List Label) : List ℕ := trace (step port) consuming es (init locked)

/-- Where the ring is flushed before the gate opens, `bt_nus_send` is called with
bytes which reached the ring after every other client had left. -/
theorem clean_stream (es : List Label) (s : State)
    (h : run (step port) es (init locked) = some s)
    (ho : AllAlong (step port) (fun xs => OpensFlushed (marksOf port locked xs)) [] es (init locked))
    (out : List UInt8) (sent maxSend : ℕ) (hw : s.writer = .send out sent maxSend) :
    ∃ l base, s.link = some l ∧ (basesOf port locked es).getLast? = some base ∧
      out <+: (queued s.stream).drop base ∧
      ∀ m ∈ marksOf port locked es, m.1 ≠ l → m.2 ≤ base := by
  have hs : Clean (marksOf port locked es) (basesOf port locked es) s := by
    apply history_along (I := fun es s => Clean (marksOf port locked es) (basesOf port locked es) s)
      (init_clean locked) _ h ho
    intro es s a t hr hs ho ht
    unfold marksOf basesOf
    rw [trace_snoc _ es a _ s hr, trace_snoc _ es a _ s hr]
    exact step_clean hs ho ht
  have hp : 0 < s.main.connRefs := by
    rw [hs.refs.counted, hw]
    simp [writerRefs]
  obtain ⟨l,hl⟩ := Option.isSome_iff_exists.mp (hs.refs.allocated hp)
  have hheld := hs.held
  rw [hw] at hheld
  obtain ⟨base,hb,hout,hm⟩ := hheld
  refine ⟨l,base,hl,hb,hout,?_⟩
  intro m hx hne
  apply hm m hx
  rw [hl]
  intro he
  exact hne (Option.some.inj he).symm

def leftByte : List Label :=
  secureLink++[.ready [7], .give, .disconnect]++List.replicate 4 .host

def takeByte : List Label :=
  [.writer 0 0, .writer 0 0, .writer 0 0, .writer 247 0, .writer 1 0, .writer 0 0, .writer 0 0]

def flushedByte : List Label :=
  leftByte++[.writer 0 0, .writer 0 0, .writer 0 0, .writer 1 0, .writer 0 0, .writer 1 0,
    .writer 0 0, .recycle]++secureLink++[.ready [8], .give]++takeByte

def sendingTo (b : UInt8) (intake : List (UInt8 × Bool)) (fates : List (UInt8 × Fate)) : State :=
  { init false with
    main := { boot false with currentConn := true, connRefs := 2, linkSecure := true }
    writer := .send [b] 0 244
    stream := { (init false).stream with intake, fates }
    link := some 1
    up := true
    links := 2 }

def afterFlush : State :=
  sendingTo 8 [(7,true), (8,true)] [(7,.drained (snapshotState (boot false)))]

theorem clean_stream_flushed : ∃ l base, afterFlush.link = some l ∧
    (basesOf true false flushedByte).getLast? = some base ∧
    [8] <+: (queued afterFlush.stream).drop base ∧
    ∀ m ∈ marksOf true false flushedByte, m.1 ≠ l → m.2 ≤ base :=
  clean_stream true false flushedByte afterFlush (by decide) (by decide) [8] 0 244 rfl

/-- The writer does not run until the next client is encrypted. -/
def keptByte : List Label := leftByte++[.recycle]++secureLink++takeByte

/-- The byte in front of the first client's mark is accepted on the second link. -/
theorem left_byte_reaches_next_client :
    run (step true) keptByte (init false) = some (sendingTo 7 [(7,true)] []) ∧
    marksOf true false keptByte = [(0,1)] ∧ (basesOf true false keptByte).getLast? = some 0 ∧
    (sendingTo 7 [(7,true)] []).link = some 1 ∧
    ∃ t, step true (sendingTo 7 [(7,true)] []) (.writer 0 0) = some t ∧ t.stream.phone = [7] :=
  ⟨by decide,by decide,by decide,rfl,_,rfl,rfl⟩

end NrfProxy.CleanStream
