import NrfProxy.ThreadInvariant

/-!
# The encryption gate over a run

Links are told apart by the number of connections before them. What the gate has
let through is traced back to the callback which reported the encryption of that
very link. The writer outlives the link it has seen, and its reference keeps the
connection object from the next one.
-/

set_option autoImplicit false

namespace NrfProxy.EncryptionGate
open NrfProxy.Runs NrfProxy.Delayable NrfProxy.ProxyCore NrfProxy.MainState
open NrfProxy.MainThreads NrfProxy.ThreadInvariant

def writerRefs : WriterPc → ℕ
  | .mtu | .claim _ | .hook _ _ | .finish _ _ _ | .send _ _ _ | .unref _ => 1
  | _ => 0

def workRefs : WorkPc → ℕ
  | .watchdogDisconnect | .watchdogUnref => 1
  | _ => 0

/-- Every reference to the connection object has its holder. -/
def Counted (s : State) : Prop :=
  s.main.connRefs = s.main.currentConn.toNat+writerRefs s.writer+workRefs s.work

theorem hostNext_refs {link : Option ℕ} {up : Bool} {m n : Main} {p q : HostPc} {k : ℕ}
    (hf : HostFits link up m.currentConn m.linkSecure p) (h : hostNext m p = some (n,q))
    (hc : m.connRefs = m.currentConn.toNat+k) : n.connRefs = n.currentConn.toNat+k := by
  cases p with
  | idle => simp [hostNext] at h
  | connLock err =>
    obtain ⟨rfl,_⟩ := Prod.mk.inj (Option.some.inj h)
    have hconn := hf.1
    unfold connectedLock
    split
    · simp only [hconn, Bool.toNat_false, Bool.toNat_true] at *
      omega
    · exact hc
  | discLock =>
    obtain ⟨rfl,_⟩ := Prod.mk.inj (Option.some.inj h)
    simp only [hf.1, disconnectedLock, if_true, Bool.toNat_false, Bool.toNat_true] at *
    omega
  | _ =>
    obtain ⟨rfl,_⟩ := Prod.mk.inj (Option.some.inj h)
    exact hc

theorem rxNext_refs {port : Bool} {m n : Main} {err : ℤ} {p q : RxPc}
    (h : rxNext port m err p = some (n,q)) : n.connRefs = m.connRefs := by
  rcases rxNext_main h with rfl | rfl | ⟨enable,rfl⟩ <;> rfl

theorem workNext_refs {port : Bool} {m n : Main} {p q : WorkPc} {k : ℕ}
    (h : workNext port m p = some (n,q)) (hc : m.connRefs = k+workRefs p) :
    n.connRefs = k+workRefs q := by
  cases p with
  | idle => simp [workNext] at h
  | graceDecide =>
    obtain ⟨rfl,rfl⟩ := Prod.mk.inj (Option.some.inj h)
    unfold relayGraceDecide relayApply
    split <;> [split <;> exact hc; exact hc]
  | watchdogLock =>
    simp only [workNext] at h
    split at h <;> obtain ⟨rfl,rfl⟩ := Prod.mk.inj (Option.some.inj h)
    · simpa [refConn, workRefs] using hc
    · exact hc
  | watchdogDisconnect | watchdogReturn =>
    obtain ⟨rfl,rfl⟩ := Prod.mk.inj (Option.some.inj h)
    exact hc
  | watchdogUnref =>
    obtain ⟨rfl,rfl⟩ := Prod.mk.inj (Option.some.inj h)
    simp only [unrefConn, workRefs] at *
    omega

theorem writerNext_ref {m n : Main} {q r : Stream} {k : ℕ} {err : ℤ} {p p' : WriterPc}
    (h : writerNext m q k err p = some (n,r,p')) :
    n.connRefs = m.connRefs ∧ writerRefs p' = writerRefs p ∨
    n.connRefs = m.connRefs+1 ∧ writerRefs p = 0 ∧ writerRefs p' = 1 ∧
      m.currentConn = true ∧ m.linkSecure = true ∨
    n.connRefs = m.connRefs-1 ∧ writerRefs p = 1 ∧ writerRefs p' = 0 := by
  cases writer_move h with
  | forward hf =>
    exact Or.inr (Or.inl ⟨rfl,rfl,rfl,by simpa [proxyMayForward, snapshotState] using hf⟩)
  | unref | loop => exact Or.inr (Or.inr ⟨rfl,rfl,rfl⟩)
  | _ => exact Or.inl ⟨rfl,rfl⟩

variable {port : Bool} {s t : State} {a : Label}

theorem init_counted (locked : Bool) : Counted (init locked) := rfl

theorem Counted.frame (hc : Counted s) (hr : t.main.connRefs = s.main.connRefs)
    (hconn : t.main.currentConn = s.main.currentConn) (hw : writerRefs t.writer = writerRefs s.writer)
    (hk : workRefs t.work = workRefs s.work) : Counted t := by
  rw [Counted, hr, hconn, hw, hk]
  exact hc

theorem step_counted (hw : Wf s) (hc : Counted s) (h : step port s a = some t) : Counted t := by
  cases a with
  | host =>
    obtain ⟨n,pc,hn,rfl⟩ := step_host.mp h
    have := hostNext_refs (k := writerRefs s.writer+workRefs s.work) hw.host hn
      (by rw [hc, Nat.add_assoc])
    simpa [Counted, Nat.add_assoc] using this
  | work err =>
    have hf := stack_frame h (by simp [thread])
    obtain ⟨n,pc,hn,rfl⟩ := step_work.mp h
    rw [Counted, hf.conn]
    exact workNext_refs hn hc
  | writer k err =>
    have hf := stack_frame h (by simp [thread])
    obtain ⟨n,q,pc,hn,rfl⟩ := step_writer.mp h
    rw [Counted] at hc ⊢
    rw [hf.conn]
    dsimp only
    rcases writerNext_ref hn with ⟨hr,hp⟩ | ⟨hr,hp,hq,_⟩ | ⟨hr,hp,hq⟩ <;> omega
  | enter w =>
    obtain ⟨hi,v,_,rfl⟩ := step_enter.mp h
    refine hc.frame ?_ ?_ rfl ?_ <;> cases w <;> simp [setItem, handler, hi, workRefs]
  | expire w =>
    obtain ⟨v,_,rfl⟩ := step_expire.mp h
    refine hc.frame ?_ ?_ rfl rfl <;> cases w <;> rfl
  | rx err =>
    have hf := stack_frame h (by simp [thread])
    obtain ⟨n,pc,hn,rfl⟩ := step_rx.mp h
    exact hc.frame (rxNext_refs hn) hf.conn rfl rfl
  | connect err =>
    obtain ⟨_,_,rfl⟩ := step_connect.mp h
    split <;> exact hc
  | wait ms =>
    obtain rfl := step_wait.mp h
    exact hc
  | security level err =>
    obtain ⟨_,_,rfl⟩ := step_security.mp h
    exact hc
  | disconnect =>
    obtain ⟨_,_,rfl⟩ := step_disconnect.mp h
    exact hc
  | recycle =>
    obtain ⟨_,_,_,_,_,rfl⟩ := step_recycle.mp h
    exact hc
  | receive data =>
    obtain ⟨_,_,_,_,rfl⟩ := step_receive.mp h
    exact hc
  | ready data =>
    obtain ⟨_,_,rfl⟩ := step_ready.mp h
    exact hc
  | give =>
    obtain ⟨_,rfl⟩ := step_give.mp h
    exact hc

/-- Link `l` is the one brought up after `l` others. -/
def Born (es : List Label) (l : ℕ) : Prop :=
  ∃ xs ys, es = xs++.connect 0::ys ∧ xs.count (.connect 0) = l

/-- `on_security_changed` reported level 2 for the link `l` since it connected. -/
def SecuredSince (port locked : Bool) (es : List Label) (l : ℕ) : Prop :=
  ∃ xs level ys u, es = xs++.security level 0::ys ∧ Born xs l ∧
    run (step port) xs (init locked) = some u ∧ u.link = some l ∧ btSecurityL2 ≤ level

variable {locked : Bool} {es : List Label} {l : ℕ}

theorem Born.snoc (h : Born es l) (a : Label) : Born (es++[a]) l := by
  obtain ⟨xs,ys,rfl,hl⟩ := h
  exact ⟨xs,ys++[a],by simp,hl⟩

theorem SecuredSince.snoc (h : SecuredSince port locked es l) (a : Label) :
    SecuredSince port locked (es++[a]) l := by
  obtain ⟨xs,level,ys,u,rfl,hb⟩ := h
  exact ⟨xs,level,ys++[a],u,by simp,hb⟩

/-- `on_security_changed` is about to set `linkSecure`. -/
def reporting : HostPc → Bool
  | .secEntry level err => err = 0 ∧ btSecurityL2 ≤ level
  | .secLock => true
  | _ => false

structure Traced (port locked : Bool) (es : List Label) (s : State) : Prop where
  wf : Wf s
  counted : Counted s
  links : s.links = es.count (.connect 0)
  born : ∀ l, s.link = some l → Born es l
  secured : s.main.linkSecure = true ∨ reporting s.host = true →
    ∀ l, s.link = some l → SecuredSince port locked es l
  acts : acting s.rx = true → SecuredSince port locked es s.served
  sends : writerRefs s.writer = 1 → ∃ l, s.link = some l ∧ SecuredSince port locked es l

theorem init_traced : Traced port locked [] (init locked) :=
  ⟨init_wf locked,init_counted locked,rfl,by simp [init],by simp [init],by simp [init, acting],
    by simp [init, writerRefs]⟩

theorem hostNext_reporting {m n : Main} {p q : HostPc} (h : hostNext m p = some (n,q))
    (hn : n.linkSecure = true ∨ reporting q = true) :
    m.linkSecure = true ∨ reporting p = true := by
  cases p with
  | idle => simp [hostNext] at h
  | secLock => exact Or.inr rfl
  | connLock err =>
    obtain ⟨rfl,rfl⟩ := Prod.mk.inj (Option.some.inj h)
    by_cases he : err = 0 <;> simp_all [connectedLock, reporting]
  | secEntry level err =>
    obtain ⟨rfl,rfl⟩ := Prod.mk.inj (Option.some.inj h)
    split at hn <;> simp_all [reporting]
  | discHeld =>
    obtain ⟨rfl,rfl⟩ := Prod.mk.inj (Option.some.inj h)
    split at hn <;> simpa [reporting] using hn
  | discLock =>
    obtain ⟨rfl,rfl⟩ := Prod.mk.inj (Option.some.inj h)
    unfold disconnectedLock at hn
    split at hn <;> simp [reporting] at hn
  | _ =>
    obtain ⟨rfl,rfl⟩ := Prod.mk.inj (Option.some.inj h)
    exact hn

/-- A connection names a new link, and the object of the last one goes back to
the pool with no reference left. Every other step keeps the link. -/
theorem link_cases (h : step port s a = some t) :
    a ≠ .connect 0 ∧ t.link = s.link ∧ t.links = s.links ∨
    a = .connect 0 ∧ s.link = none ∧ t.link = some s.links ∧ t.links = s.links+1 ∨
    a = .recycle ∧ s.main.connRefs = 0 ∧ t.link = none ∧ t.links = s.links := by
  cases a with
  | connect err =>
    obtain ⟨_,hl,rfl⟩ := step_connect.mp h
    by_cases he : err = 0
    · subst he
      exact Or.inr (Or.inl ⟨rfl,hl,rfl,rfl⟩)
    · simp [he]
  | recycle =>
    obtain ⟨_,_,_,hr,_,rfl⟩ := step_recycle.mp h
    exact Or.inr (Or.inr ⟨rfl,hr,rfl,rfl⟩)
  | security level err =>
    obtain ⟨_,_,rfl⟩ := step_security.mp h
    exact Or.inl ⟨by simp,rfl,rfl⟩
  | disconnect =>
    obtain ⟨_,_,rfl⟩ := step_disconnect.mp h
    exact Or.inl ⟨by simp,rfl,rfl⟩
  | host =>
    obtain ⟨n,pc,_,rfl⟩ := step_host.mp h
    exact Or.inl ⟨by simp,rfl,rfl⟩
  | _ =>
    have hf := stack_frame h (by simp [thread])
    exact Or.inl ⟨by simp,hf.link,hf.links⟩

theorem step_link (h : step port s a = some t) (hl : t.link = some l) :
    s.link = some l ∨ a = .connect 0 ∧ l = s.links := by
  rcases link_cases h with ⟨_,hk,_⟩ | ⟨ha,_,hk,_⟩ | ⟨_,_,hk,_⟩ <;> rw [hk] at hl
  · exact Or.inl hl
  · exact Or.inr ⟨ha,(Option.some.inj hl).symm⟩
  · contradiction

theorem step_links (h : step port s a = some t) : t.links = s.links+[a].count (.connect 0) := by
  rcases link_cases h with ⟨ha,_,hn⟩ | ⟨rfl,_,_,hn⟩ | ⟨rfl,_,_,hn⟩
  · simp [hn, ha]
  · simp [hn]
  · simp [hn]

theorem link_kept (hr : 0 < s.main.connRefs) (hl : s.link = some l)
    (h : step port s a = some t) : t.link = some l := by
  rcases link_cases h with ⟨_,hk,_⟩ | ⟨_,hn,_⟩ | ⟨_,hz,_⟩
  · rw [hk, hl]
  · simp [hl] at hn
  · omega

theorem link_held (hc : Counted s) (hw : writerRefs s.writer = 1) (hl : s.link = some l)
    (h : step port s a = some t) : t.link = some l := by
  apply link_kept _ hl h
  rw [Counted] at hc
  omega

theorem step_secured (ht : Traced port locked es s) (hs : run (step port) es (init locked) = some s)
    (h : step port s a = some t) (hn : t.main.linkSecure = true ∨ reporting t.host = true)
    (hl : t.link = some l) : SecuredSince port locked (es++[a]) l := by
  have hold (hr : s.main.linkSecure = true ∨ reporting s.host = true) (hl : s.link = some l) :=
    (ht.secured hr l hl).snoc a
  cases a with
  | connect err =>
    obtain ⟨_,hnone,rfl⟩ := step_connect.mp h
    have hsec : s.main.linkSecure = false := by
      by_contra hsec
      simpa [(ht.wf.pooled hnone).1] using ht.wf.secure_conn (by simpa using hsec)
    split at hn <;> simp [hsec, reporting] at hn
  | security level err =>
    obtain ⟨_,_,rfl⟩ := step_security.mp h
    rcases hn with hn | hn
    · exact hold (Or.inl hn) hl
    · simp only [reporting, decide_eq_true_eq] at hn
      obtain ⟨rfl,hlevel⟩ := hn
      exact ⟨es,level,[],s,rfl,ht.born l hl,hs,hl,hlevel⟩
  | host =>
    obtain ⟨n,pc,hn',rfl⟩ := step_host.mp h
    exact hold (hostNext_reporting hn' hn) hl
  | disconnect =>
    obtain ⟨_,_,rfl⟩ := step_disconnect.mp h
    simp only [reporting, Bool.false_eq_true, or_false] at hn
    exact hold (Or.inl hn) hl
  | recycle =>
    obtain ⟨_,_,_,_,_,rfl⟩ := step_recycle.mp h
    simp at hl
  | _ =>
    have hf := stack_frame h (by simp [thread])
    rw [hf.secure, hf.host] at hn
    rw [hf.link] at hl
    exact hold hn hl

theorem step_acts (ht : Traced port locked es s) (h : step port s a = some t)
    (hx : acting t.rx = true) : SecuredSince port locked (es++[a]) t.served := by
  by_cases hr : thread a = .rx
  · cases a with
    | receive data =>
      obtain ⟨_,_,_,_,rfl⟩ := step_receive.mp h
      simp [acting] at hx
    | rx err =>
      obtain ⟨n,pc,hn,rfl⟩ := step_rx.mp h
      rcases rxNext_acting hn hx with ⟨data,hp,hl⟩ | ⟨enable,ack,hp,_⟩
      · have hserved := (ht.wf.rx_link (by simp [hp])).1
        exact (ht.secured (Or.inl hl) _ hserved).snoc _
      · exact (ht.acts (by simp [hp, acting])).snoc _
    | _ => simp [thread] at hr
  · obtain ⟨hrx,hserved⟩ := (step_frame h).rx hr
    rw [hrx] at hx
    rw [hserved]
    exact (ht.acts hx).snoc a

theorem step_sends (ht : Traced port locked es s) (h : step port s a = some t)
    (hw : writerRefs t.writer = 1) :
    ∃ l, t.link = some l ∧ SecuredSince port locked (es++[a]) l := by
  by_cases hr : writerRefs s.writer = 1
  · obtain ⟨l,hl,hs⟩ := ht.sends hr
    exact ⟨l,link_held ht.counted hr hl h,hs.snoc a⟩
  by_cases ha : thread a = .writer
  · cases a with
    | writer k err =>
      obtain ⟨n,q,pc,hn,rfl⟩ := step_writer.mp h
      rcases writerNext_ref hn with ⟨_,hp⟩ | ⟨_,_,_,hconn,hsec⟩ | ⟨_,hp,_⟩
      · exact absurd (hp.symm.trans hw) hr
      · obtain ⟨l,hl⟩ := Option.isSome_iff_exists.mp (ht.wf.conn_link hconn)
        exact ⟨l,hl,(ht.secured (Or.inl hsec) l hl).snoc _⟩
      · exact absurd hp hr
    | _ => simp [thread] at ha
  · rw [(step_frame h).writer ha] at hw
    exact absurd hw hr

theorem step_traced (ht : Traced port locked es s) (hs : run (step port) es (init locked) = some s)
    (h : step port s a = some t) : Traced port locked (es++[a]) t := by
  refine ⟨step_wf ht.wf h,step_counted ht.wf ht.counted h,?_,?_,?_,step_acts ht h,step_sends ht h⟩
  · rw [step_links h, ht.links, List.count_append]
  · intro l hl
    rcases step_link h hl with hl | ⟨rfl,rfl⟩
    · exact (ht.born l hl).snoc a
    · exact ⟨es,[],rfl,ht.links.symm⟩
  · exact fun hn l hl => step_secured ht hs h hn hl

/-- UART data goes out, and a write takes effect, only on a link whose
encryption was reported since it connected. -/
theorem encryption_gate (port locked : Bool) (es : List Label) (s : State)
    (h : run (step port) es (init locked) = some s) :
    (∀ out sent maxSend, s.writer = .send out sent maxSend →
      ∃ l, s.link = some l ∧ SecuredSince port locked es l) ∧
    (acting s.rx = true → s.link = some s.served ∧ SecuredSince port locked es s.served) := by
  have ht : Traced port locked es s :=
    history (I := Traced port locked) init_traced (fun es s a t hs ht _ h => step_traced ht hs h) h
      (allSteps_true es _)
  constructor
  · intro out sent maxSend hw
    exact ht.sends (by simp [hw, writerRefs])
  · intro hx
    exact ⟨(ht.wf.rx_link (fun hi => by simp [hi, acting] at hx)).1,ht.acts hx⟩

def oneByte : List Label :=
  secureLink++[.ready [7], .give, .writer 0 0, .writer 0 0, .writer 0 0, .writer 247 0, .writer 1 0,
    .writer 0 0, .writer 0 0]

def sending : State :=
  { init false with
    main := { boot false with currentConn := true, connRefs := 2, linkSecure := true }
    writer := .send [7] 0 244
    stream := { (init false).stream with intake := [(7,true)] }
    link := some 0
    up := true
    links := 1 }

theorem encryption_gate_one_byte :
    ∃ l, sending.link = some l ∧ SecuredSince true false oneByte l :=
  (encryption_gate true false oneByte sending (by decide)).1 [7] 0 244 rfl

end NrfProxy.EncryptionGate
