import NrfProxy.DeviceParts
import NrfProxy.EncryptionGate
import NrfProxy.LockedMode
import NrfProxy.OwnerLock

/-!
# The pairing lock

The bonds, the accept list, the mode and the advertiser's filter make the device a
lock with one owner: whoever pairs with it first owns it, and nobody else comes to
a link again. What the threads of the data paths then let through is the owner's,
on a link whose encryption was reported.
-/

set_option autoImplicit false

namespace NrfProxy.PairingLock
open NrfProxy.Runs NrfProxy.Simulation NrfProxy.MainState NrfProxy.MainThreads
open NrfProxy.ThreadInvariant NrfProxy.EncryptionGate NrfProxy.Advertiser NrfProxy.LockedMode
open NrfProxy.Device NrfProxy.DeviceParts NrfProxy.OwnerLock

/-- The connection object is with a peer, from its attempt to its return. -/
def taken : Obj → Bool
  | .attempt | .failed | .link | .dropped => true
  | _ => false

def lockOf (s : Device.State) : Lock ℕ :=
  ⟨s.bonds.head?,if taken s.obj then some s.peer else none⟩

def lockEvents (_ : Device.State) : Device.Label → List (Event ℕ)
  | .attempt peer => [.enter peer]
  | .pairingComplete => [.claim]
  | .returned => [.leave]
  | _ => []

/-- The accept-list calls of the device succeed when no advertiser is live. -/
def AcceptCalls (s : Device.State) (a : Device.Label) : Prop :=
  ∀ b ∈ radioLabels s a, AcceptCallsSucceed (advView s) b

instance (s : Device.State) (a : Device.Label) : Decidable (AcceptCalls s a) :=
  inferInstanceAs (Decidable (∀ b ∈ radioLabels s a, AcceptCallsSucceed (advView s) b))

/-- The radio is in its mode, and there is at most one bond. -/
structure Locking (s : Device.State) (l : Lock ℕ) : Prop where
  mode : ∃ v, Seen s v ∧ Mode v
  bonds : s.bonds.length ≤ 1
  held : Held l
  lock : l = lockOf s

variable {port : Bool} {s t : Device.State} {a : Device.Label}

theorem graft_acceptCalls {g : Main} {b : Advertiser.Label} (h : AcceptCallsSucceed (advView s) b) :
    AcceptCallsSucceed (graftState (advView s) g) b := by
  intro hcall hlive
  refine h ?_ hlive
  cases b with
  | host err =>
    cases hh : (advView s).host with
    | refresh pc => simpa [acceptCall, graftState, hh, skipArm] using hcall
    | callback pc => cases pc <;> simp [acceptCall, graftState, hh, skipArm] at hcall
  | run T err sync => exact hcall
  | _ => simp [acceptCall] at hcall

theorem radioLabels_one (s : Device.State) (a : Device.Label) :
    radioLabels s a = [] ∨ ∃ b, radioLabels s a = [b] := by
  cases a with
  | host =>
    by_cases hh : s.fw.main.host = .discArm
    · exact Or.inl (by simp [radioLabels, hh])
    · exact Or.inr ⟨.host 0,by simp [radioLabels, hh]⟩
  | fw b => exact Or.inl rfl
  | _ => exact Or.inr ⟨_,rfl⟩

theorem step_seen {v : Advertiser.State} (hv : Seen s v) (hm : Mode v) (hc : AcceptCalls s a)
    (h : Device.step port s a = some t) : ∃ w, Seen t w ∧ Mode w := by
  obtain ⟨w,hw,ht⟩ := radio_part port s a t v hv trivial h
  have hall : AllSteps Advertiser.step AcceptCallsSucceed (radioLabels s a) v := by
    obtain ⟨_,g,_,rfl⟩ := hv
    rcases radioLabels_one s a with hb | ⟨b,hb⟩ <;> rw [hb]
    · trivial
    · refine ⟨graft_acceptCalls (hc b (by simp [hb])),?_⟩
      cases Advertiser.step (graftState (advView s) g) b <;> trivial
  exact ⟨w,ht,invariant_of hm (fun _ _ _ hi hc hs => step_mode hi hc hs) hw hall⟩

theorem live_mode {v : Advertiser.State} {slow filtered : Bool} (hm : Mode v)
    (ho : v.radio.obj = .advertiser slow filtered) :
    filtered = decide (v.radio.bonds ≠ []) ∧
      (v.radio.bonds ≠ [] → v.radio.acceptList = v.radio.bonds) := by
  rcases hm with ⟨pc,hb⟩ | hm
  · rw [hb.obj] at ho
    simp at ho
  · have hhost := hm.host
    cases hh : v.host with
    | refresh pc =>
      rw [hh] at hhost
      rw [hhost.1] at ho
      simp at ho
    | callback pc =>
      rw [hh] at hhost
      rw [hm.live slow filtered ho]
      exact hhost

theorem adv_kept {v w : Advertiser.State} {b : Advertiser.Label} (hb : ownsAdv b = true)
    (h : Advertiser.step v b = some w) :
    w.radio.bonds = v.radio.bonds ∧ (taken v.radio.obj = true → w.radio.obj = v.radio.obj) ∧
      taken w.radio.obj = taken v.radio.obj := by
  cases b with
  | expire i =>
    obtain ⟨x,_,rfl⟩ := Advertiser.step_expire.mp h
    exact ⟨rfl,fun _ => rfl,rfl⟩
  | enter i =>
    obtain ⟨_,x,_,rfl⟩ := Advertiser.step_enter.mp h
    exact ⟨rfl,fun _ => rfl,rfl⟩
  | run T err sync =>
    obtain ⟨pc,r,q,_,_,hn,rfl⟩ := Advertiser.step_run.mp h
    cases pc with
    | refresh p =>
      obtain ⟨rfl,_⟩ := Prod.mk.inj (Option.some.inj hn)
      obtain ⟨hbonds,hobj⟩ := refreshNext_kept v.radio err p
      exact ⟨hbonds,fun _ => hobj,by rw [hobj]⟩
    | _ =>
      obtain ⟨hmode,hobj,_⟩ := pcNext_mode (by simp) hn
      refine ⟨hmode.bonds,?_⟩
      rcases hobj with ho | ⟨hl,ho⟩ | ⟨hfree,slow,ho⟩
      · exact ⟨fun _ => ho,by rw [ho]⟩
      · cases hv : v.radio.obj <;> simp_all [taken, Obj.live]
      · simp [ho, hfree, taken]
  | recycled =>
    obtain ⟨_,_,rfl⟩ := Advertiser.step_recycled.mp h
    exact ⟨rfl,fun _ => rfl,rfl⟩
  | _ => simp [ownsAdv] at hb

theorem insert_bond {bonds : List ℕ} {p : ℕ} (hb : bonds.length ≤ 1)
    (ho : ∀ o, bonds.head? = some o → p = o) : bonds.insert p = [p] := by
  cases bonds with
  | nil => simp
  | cons o rest =>
    obtain rfl : rest = [] := by simpa using hb
    obtain rfl : p = o := ho o rfl
    simp

theorem Locking.kept {l : Lock ℕ} (hl : Locking s l) (hm : ∃ v, Seen t v ∧ Mode v)
    (hb : t.bonds = s.bonds) (ho : taken t.obj = taken s.obj) (hp : t.peer = s.peer) :
    Locking t l := by
  refine ⟨hm,by rw [hb]; exact hl.bonds,hl.held,?_⟩
  rw [hl.lock, lockOf, lockOf, hb, ho, hp]

theorem step_same (h : Device.step port s a = some t) (ha : lockEvents s a = []) :
    t.bonds = s.bonds ∧ taken t.obj = taken s.obj ∧ t.peer = s.peer := by
  cases a with
  | wait ms =>
    obtain ⟨f,_,rfl⟩ := Device.step_wait.mp h
    exact ⟨rfl,rfl,rfl⟩
  | fw b =>
    obtain ⟨_,_,_,f,_,rfl⟩ := Device.step_fw.mp h
    exact ⟨rfl,rfl,rfl⟩
  | adv b =>
    obtain ⟨ho,_,w,hw,rfl⟩ := Device.step_adv.mp h
    obtain ⟨hbonds,_,hobj⟩ := adv_kept ho hw
    exact ⟨hbonds,hobj,rfl⟩
  | connected err =>
    obtain ⟨_,ho,f,_,rfl⟩ := Device.step_connected.mp h
    refine ⟨rfl,?_,rfl⟩
    dsimp only
    rw [ho]
    split <;> rfl
  | security level err =>
    obtain ⟨_,_,f,_,rfl⟩ := Device.step_security.mp h
    exact ⟨rfl,rfl,rfl⟩
  | disconnected =>
    obtain ⟨_,ho,f,_,rfl⟩ := Device.step_disconnected.mp h
    exact ⟨rfl,by rw [ho]; rfl,rfl⟩
  | host =>
    obtain ⟨_,f,_,rfl⟩ := Device.step_host.mp h
    exact ⟨rfl,rfl,rfl⟩
  | refresh err =>
    obtain ⟨pc,_,rfl⟩ := step_refresh_some h
    obtain ⟨hbonds,hobj⟩ := refreshNext_kept (advView s).radio err pc
    exact ⟨hbonds,congrArg taken hobj,rfl⟩
  | attempt | pairingComplete | returned => simp [lockEvents] at ha

/-- The device is a lock with one owner. -/
theorem lock_part (port : Bool) :
    Simulates (Device.step port) OwnerLock.step AcceptCalls lockEvents Locking := by
  intro s a t l hl hc h
  obtain ⟨v,hv,hm⟩ := hl.mode
  have hm' := step_seen hv hm hc h
  cases a with
  | attempt peer =>
    obtain ⟨slow,filtered,ho,hp,rfl⟩ := Device.step_attempt.mp h
    have hview : ∃ g, v = graftState (advView s) g := hv.2.imp (fun _ hg => hg.2)
    obtain ⟨g,rfl⟩ := hview
    obtain ⟨hfilter,hlist⟩ := live_mode hm (show s.obj = .advertiser slow filtered from ho)
    -- a filtered advertiser takes those on its list, which are the bonds
    have hfits : s.bonds.head? = none ∨ s.bonds.head? = some peer := by
      by_cases hb : s.bonds = []
      · exact Or.inl (by simp [hb])
      · have hmem : peer ∈ s.bonds := by
          have hlist' : s.acceptList = s.bonds := hlist hb
          rw [← hlist']
          exact hp (by rw [hfilter]; exact decide_eq_true hb)
        obtain ⟨o,ho⟩ := List.length_eq_one_iff.mp
          (Nat.le_antisymm hl.bonds (List.length_pos_iff.mpr hb))
        rw [ho] at hmem ⊢
        exact Or.inr (by simp_all)
    have hlock := hl.lock
    simp only [lockOf, ho, taken, Bool.false_eq_true, if_false] at hlock
    have henter : OwnerLock.step l (.enter peer) = some ⟨s.bonds.head?,some peer⟩ := by
      rw [hlock]
      exact if_pos ⟨rfl,hfits⟩
    exact ⟨_,by simp [lockEvents, run, henter],hm',hl.bonds,step_held henter,rfl⟩
  | pairingComplete =>
    obtain ⟨hh,ho,rfl⟩ := Device.step_pairingComplete.mp h
    have hlock := hl.lock
    simp only [lockOf, ho, taken, if_true] at hlock
    -- whoever pairs is in the session, so that an owner pairs once more
    have hown : ∀ o, s.bonds.head? = some o → s.peer = o :=
      fun o hb => hl.held o s.peer (by rw [hlock, hb]) (by rw [hlock])
    have hbonds := insert_bond hl.bonds hown
    refine ⟨⟨some s.peer,some s.peer⟩,?_,hm',by simp [hbonds],?_,?_⟩
    · simp [lockEvents, run, OwnerLock.step, hlock]
    · intro o p
      simp_all
    · simp [lockOf, hbonds, ho, taken]
  | returned =>
    obtain ⟨_,ht⟩ := Device.step_returned.mp h
    have hlock := hl.lock
    have htaken : taken s.obj = true := by
      rcases ht with ⟨ho,_⟩ | ⟨ho,_⟩ <;> rw [ho] <;> rfl
    have hleft : t.bonds = s.bonds ∧ t.obj = .free := by
      rcases ht with ⟨_,rfl⟩ | ⟨_,f,_,rfl⟩ <;> exact ⟨rfl,rfl⟩
    simp only [lockOf, htaken, if_true] at hlock
    refine ⟨⟨s.bonds.head?,none⟩,?_,hm',by rw [hleft.1]; exact hl.bonds,?_,?_⟩
    · simp [lockEvents, run, OwnerLock.step, hlock]
    · intro o p
      simp
    · simp [lockOf, hleft.1, hleft.2, taken]
  | _ =>
    obtain ⟨hb,ho,hp⟩ := step_same h rfl
    exact ⟨l,rfl,hl.kept hm' hb ho hp⟩

structure Linked (s : Device.State) : Prop where
  link : s.fw.main.link.isSome = true ↔ s.obj = .link ∨ s.obj = .dropped
  up : s.fw.main.up = true ↔ s.obj = .link

theorem init_linked (bonds : List ℕ) (rate : UInt32) : Linked (Device.init bonds rate) := by
  constructor <;> simp [Device.init, Firmware.init, MainThreads.init]

theorem Linked.kept (hl : Linked s) (hlink : t.fw.main.link = s.fw.main.link)
    (hup : t.fw.main.up = s.fw.main.up) (ho : t.obj = s.obj) : Linked t := by
  constructor
  · rw [hlink, ho]
    exact hl.link
  · rw [hup, ho]
    exact hl.up

theorem fw_link {f g : Firmware.State} {b : Firmware.Label} (hb : ownsFw b = true)
    (h : Firmware.step port f b = some g) : g.main.link = f.main.link ∧ g.main.up = f.main.up := by
  cases b with
  | wait ms => simp [ownsFw] at hb
  | main c =>
    obtain ⟨m,hm,rfl⟩ := main_step h
    have hf := stack_frame hm (by cases c <;> simp [ownsFw, thread] at hb ⊢)
    exact ⟨hf.link,hf.up⟩
  | uart c =>
    obtain ⟨_,u,_,rfl⟩ := Firmware.step_uart.mp h
    exact ⟨rfl,rfl⟩
  | call err =>
    obtain ⟨l,u,_,_,ht⟩ := Firmware.step_call.mp h
    rcases Firmware.afterCall_some ht with ⟨_,rfl⟩ | ⟨_,m,hm,rfl⟩
    · exact ⟨rfl,rfl⟩
    · have hf := stack_frame hm (by simp [thread])
      exact ⟨hf.link,hf.up⟩

theorem step_linked (hl : Linked s) (h : Device.step port s a = some t) : Linked t := by
  cases a with
  | wait ms =>
    obtain ⟨f,hf,rfl⟩ := Device.step_wait.mp h
    obtain ⟨m,u,hm,_,rfl⟩ := Firmware.step_wait.mp hf
    obtain rfl := MainThreads.step_wait.mp hm
    exact hl.kept rfl rfl rfl
  | fw b =>
    obtain ⟨ho,_,_,f,hf,rfl⟩ := Device.step_fw.mp h
    obtain ⟨hlink,hup⟩ := fw_link ho hf
    exact hl.kept hlink hup rfl
  | adv b =>
    obtain ⟨ho,_,w,hw,rfl⟩ := Device.step_adv.mp h
    obtain ⟨_,hkept,htaken⟩ := adv_kept ho hw
    by_cases ht : taken s.obj = true
    · exact hl.kept rfl rfl (hkept ht)
    · have hfree : w.radio.obj ≠ .link ∧ w.radio.obj ≠ .dropped ∧ s.obj ≠ .link ∧ s.obj ≠ .dropped := by
        have hw' : taken w.radio.obj = taken s.obj := htaken
        refine ⟨?_,?_,?_,?_⟩ <;> intro ho <;> simp_all [taken]
      constructor
      · have := hl.link
        simp_all [setAdv, setMain]
      · have := hl.up
        simp_all [setAdv, setMain]
  | attempt peer =>
    obtain ⟨slow,filtered,ho,_,rfl⟩ := Device.step_attempt.mp h
    constructor
    · have := hl.link
      simp_all
    · have := hl.up
      simp_all
  | connected err =>
    obtain ⟨_,ho,f,hf,rfl⟩ := Device.step_connected.mp h
    obtain ⟨m,hm,rfl⟩ := main_step hf
    obtain ⟨_,hnone,rfl⟩ := MainThreads.step_connect.mp hm
    have hup := hl.up
    by_cases he : err = 0 <;> constructor <;> simp_all
  | security level err =>
    obtain ⟨_,_,f,hf,rfl⟩ := Device.step_security.mp h
    obtain ⟨m,hm,rfl⟩ := main_step hf
    obtain ⟨_,_,rfl⟩ := MainThreads.step_security.mp hm
    exact hl.kept rfl rfl rfl
  | pairingComplete =>
    obtain ⟨_,_,rfl⟩ := Device.step_pairingComplete.mp h
    exact hl.kept rfl rfl rfl
  | disconnected =>
    obtain ⟨_,ho,f,hf,rfl⟩ := Device.step_disconnected.mp h
    obtain ⟨m,hm,rfl⟩ := main_step hf
    obtain ⟨_,_,rfl⟩ := MainThreads.step_disconnect.mp hm
    have hlink := hl.link
    constructor <;> simp_all
  | host =>
    obtain ⟨_,f,hf,rfl⟩ := Device.step_host.mp h
    obtain ⟨m,hm,rfl⟩ := main_step hf
    obtain ⟨n,q,_,rfl⟩ := MainThreads.step_host.mp hm
    exact hl.kept rfl rfl rfl
  | refresh err =>
    obtain ⟨pc,_,rfl⟩ := step_refresh_some h
    exact hl.kept rfl rfl (refreshNext_kept (advView s).radio err pc).2
  | returned =>
    obtain ⟨_,ht⟩ := Device.step_returned.mp h
    rcases ht with ⟨ho,rfl⟩ | ⟨ho,f,hf,rfl⟩
    · have hlink := hl.link
      have hup := hl.up
      constructor <;> simp_all
    · obtain ⟨m,hm,rfl⟩ := main_step hf
      obtain ⟨_,_,hup,_,_,rfl⟩ := MainThreads.step_recycle.mp hm
      constructor <;> simp_all

def behindGate : RxPc → Bool
  | .idle | .gate _ => false
  | _ => true

theorem rxNext_gate {m n : Main} {err : ℤ} {p q : RxPc} (h : rxNext port m err p = some (n,q))
    (hq : behindGate q = true) : behindGate p = true ∨ m.linkSecure = true := by
  cases p with
  | idle => simp [rxNext] at h
  | gate data =>
    obtain ⟨_,rfl⟩ := Prod.mk.inj (Option.some.inj h)
    cases hl : m.linkSecure with
    | false => simp [hl, dispatch, behindGate] at hq
    | true => exact Or.inr rfl
  | _ => exact Or.inl rfl

/-- The link is, or is about to be, known to be encrypted, or has been when a
thread passed the gate. -/
def Granted (x : MainThreads.State) : Prop :=
  (x.main.linkSecure = true ∨ reporting x.host = true) ∨ behindGate x.rx = true ∨
    writerRefs x.writer = 1

variable {x y : MainThreads.State} {c : MainThreads.Label}

theorem granted_threads (hc : thread c ≠ .stack) (h : MainThreads.step port x c = some y)
    (hg : Granted y) : Granted x := by
  have hf := stack_frame h hc
  rcases hg with hlink | hrx | hw
  · rw [hf.secure, hf.host] at hlink
    exact Or.inl hlink
  · by_cases hr : thread c = .rx
    · cases c with
      | receive data =>
        obtain ⟨_,_,_,_,rfl⟩ := MainThreads.step_receive.mp h
        simp [behindGate] at hrx
      | rx err =>
        obtain ⟨n,q,hn,rfl⟩ := MainThreads.step_rx.mp h
        rcases rxNext_gate hn hrx with hp | hs
        · exact Or.inr (Or.inl hp)
        · exact Or.inl (Or.inl hs)
      | _ => simp [thread] at hr
    · rw [((step_frame h).rx hr).1] at hrx
      exact Or.inr (Or.inl hrx)
  · by_cases hr : thread c = .writer
    · cases c with
      | writer k err =>
        obtain ⟨n,q,pc,hn,rfl⟩ := MainThreads.step_writer.mp h
        rcases writerNext_ref hn with ⟨_,hp⟩ | ⟨_,_,_,_,hs⟩ | ⟨_,_,hp⟩
        · exact Or.inr (Or.inr (hp.symm.trans hw))
        · exact Or.inl (Or.inl hs)
        · simp [hp] at hw
      | _ => simp [thread] at hr
    · rw [(step_frame h).writer hr] at hw
      exact Or.inr (Or.inr hw)

theorem granted_step (h : MainThreads.step port x c = some y)
    (hc : ∀ level, btSecurityL2 ≤ level → c ≠ .security level 0) (hg : Granted y) : Granted x := by
  by_cases hs : thread c = .stack
  · cases c with
    | host =>
      obtain ⟨n,q,hn,rfl⟩ := MainThreads.step_host.mp h
      exact hg.imp_left (hostNext_reporting hn)
    | security level err =>
      obtain ⟨_,_,rfl⟩ := MainThreads.step_security.mp h
      refine hg.imp_left (Or.imp_right (fun hr => ?_))
      simp only [reporting, decide_eq_true_eq] at hr
      exact absurd (by rw [hr.1]) (hc level hr.2)
    | connect err =>
      obtain ⟨_,_,rfl⟩ := MainThreads.step_connect.mp h
      split at hg <;> exact hg.imp_left (Or.imp_right (by simp [reporting]))
    | disconnect =>
      obtain ⟨_,_,rfl⟩ := MainThreads.step_disconnect.mp h
      exact hg.imp_left (Or.imp_right (by simp [reporting]))
    | recycle =>
      obtain ⟨_,_,_,_,_,rfl⟩ := MainThreads.step_recycle.mp h
      exact hg
    | _ => simp [thread] at hs
  · exact granted_threads hs h hg

/-- What keeps a grant on its link. -/
structure Grounded (x : MainThreads.State) : Prop where
  wf : Wf x
  counted : Counted x
  writer : writerRefs x.writer = 1 → x.link.isSome = true

theorem init_grounded (locked : Bool) : Grounded (MainThreads.init locked) :=
  ⟨init_wf locked,init_counted locked,by simp [MainThreads.init, writerRefs]⟩

theorem step_grounded (hx : Grounded x) (h : MainThreads.step port x c = some y) : Grounded y := by
  refine ⟨step_wf hx.wf h,step_counted hx.wf hx.counted h,fun hw => ?_⟩
  by_cases hr : writerRefs x.writer = 1
  · obtain ⟨l,hl⟩ := Option.isSome_iff_exists.mp (hx.writer hr)
    rw [link_held hx.counted hr hl h]
    rfl
  by_cases hc : thread c = .writer
  · cases c with
    | writer k err =>
      obtain ⟨n,q,pc,hn,rfl⟩ := MainThreads.step_writer.mp h
      rcases writerNext_ref hn with ⟨_,hp⟩ | ⟨_,_,_,hconn,_⟩ | ⟨_,hp,_⟩
      · exact absurd (hp.symm.trans hw) hr
      · exact hx.wf.conn_link hconn
      · exact absurd hp hr
    | _ => simp [thread] at hc
  · rw [(step_frame h).writer hc] at hw
    exact absurd hw hr

theorem Grounded.link (hx : Grounded x) (hg : Granted x) : x.link.isSome = true := by
  rcases hg with (hs | hr) | hrx | hw
  · exact hx.wf.conn_link (hx.wf.secure_conn hs)
  · have hf := hx.wf.host
    apply hx.wf.conn_link
    cases hh : x.host <;> rw [hh] at hr hf <;> simp [reporting] at hr <;> exact hf.1
  · have hidle : x.rx ≠ .idle := fun hi => by simp [hi, behindGate] at hrx
    rw [(hx.wf.rx_link hidle).1]
    rfl
  · exact hx.writer hw

/-- An invariant of main.c's threads which no write of the advertising threads can
break is one of the device. -/
theorem main_invariant {I : MainThreads.State → Prop} {bonds : List ℕ} {rate : UInt32}
    (h0 : I (MainThreads.init false))
    (hstep : ∀ x c y, I x → MainThreads.step port x c = some y → I y)
    (hwrite : ∀ x m, I x → AdvWrite x.main m → I { x with main := m }) {es : List Device.Label}
    (h : run (Device.step port) es (Device.init bonds rate) = some s) : I s.fw.main :=
  fw_invariant (I := fun f => I f.main) h0
    (fun f b g hi hs => invariant hi (fun x c y => hstep x c y) (Firmware.main_part port f b g hs))
    (fun f m hi hw => hwrite f.main m hi hw) h

theorem run_grounded {bonds : List ℕ} {rate : UInt32} {es : List Device.Label}
    (h : run (Device.step port) es (Device.init bonds rate) = some s) : Grounded s.fw.main := by
  refine main_invariant (init_grounded false) (fun _ _ _ hi hs => step_grounded hi hs) ?_ h
  rintro x m hx ⟨_,_,_,_,rfl⟩
  exact ⟨⟨hx.wf.host,hx.wf.secure_conn,hx.wf.conn_link,hx.wf.up_link,hx.wf.rx_link⟩,hx.counted,
    hx.writer⟩

theorem fw_granted {f g : Firmware.State} {b : Firmware.Label}
    (h : Firmware.step port f b = some g)
    (hb : ∀ level, btSecurityL2 ≤ level → b ≠ .main (.security level 0)) (hg : Granted g.main) :
    Granted f.main := by
  cases b with
  | wait ms =>
    obtain ⟨m,u,hm,_,rfl⟩ := Firmware.step_wait.mp h
    exact granted_step hm (by simp) hg
  | main c =>
    obtain ⟨m,hm,rfl⟩ := main_step h
    exact granted_step hm (fun level hl hc => hb level hl (by rw [hc])) hg
  | uart c =>
    obtain ⟨_,u,_,rfl⟩ := Firmware.step_uart.mp h
    exact hg
  | call err =>
    obtain ⟨l,u,_,_,ht⟩ := Firmware.step_call.mp h
    rcases Firmware.afterCall_some ht with ⟨_,rfl⟩ | ⟨_,m,hm,rfl⟩
    · exact hg
    · exact granted_step hm (by simp) hg

theorem fwLabels_one (h : Device.step port s a = some t) :
    fwLabels s a = [] ∨ ∃ b, fwLabels s a = [b] ∧
      ∀ level, b = .main (.security level 0) → a = .security level 0 := by
  cases a with
  | fw b =>
    obtain ⟨ho,_⟩ := Device.step_fw.mp h
    refine Or.inr ⟨b,rfl,?_⟩
    rintro level rfl
    simp [ownsFw] at ho
  | security level err => exact Or.inr ⟨_,rfl,by simp⟩
  | wait | connected | disconnected | host => exact Or.inr ⟨_,rfl,by simp⟩
  | returned =>
    by_cases ho : s.obj = .dropped
    · exact Or.inr ⟨.main .recycle,by simp [fwLabels, ho],by simp⟩
    · exact Or.inl (by simp [fwLabels, ho])
  | adv | attempt | pairingComplete | refresh => exact Or.inl rfl

theorem device_granted (h : Device.step port s a = some t)
    (ha : ∀ level, btSecurityL2 ≤ level → a ≠ .security level 0) (hg : Granted t.fw.main) :
    Granted s.fw.main := by
  obtain ⟨f,m,hf,⟨_,_,_,_,rfl⟩,ht⟩ := fw_part h
  have hgf : Granted f.main := by
    rw [ht] at hg
    exact hg
  rcases fwLabels_one h with hb | ⟨b,hb,hsec⟩ <;> rw [hb] at hf
  · obtain rfl : s.fw = f := Option.some.inj hf
    exact hgf
  · exact fw_granted (by simpa [run] using hf)
      (fun level hl hbs => ha level hl (hsec level hbs)) hgf

/-- The last attempt was this peer's. -/
def AttemptBy (es : List Device.Label) (p : ℕ) : Prop :=
  ∃ xs ys, es = xs++.attempt p::ys ∧ ∀ q, .attempt q ∉ ys

/-- Encryption was reported since, and the last attempt was this peer's. -/
def SecuredBy (es : List Device.Label) (p : ℕ) : Prop :=
  ∃ xs ys level, es = xs++.attempt p::ys ∧ (∀ q, .attempt q ∉ ys) ∧ .security level 0 ∈ ys ∧
    btSecurityL2 ≤ level

variable {es : List Device.Label} {p : ℕ}

theorem AttemptBy.snoc (h : AttemptBy es p) (ha : ∀ q, a ≠ .attempt q) : AttemptBy (es++[a]) p := by
  obtain ⟨xs,ys,rfl,hy⟩ := h
  refine ⟨xs,ys++[a],by simp,fun q hq => ?_⟩
  rcases List.mem_append.mp hq with hq | hq
  · exact hy q hq
  · exact ha q (List.mem_singleton.mp hq).symm

theorem AttemptBy.secured {level : ℕ} (h : AttemptBy es p) (hl : btSecurityL2 ≤ level) :
    SecuredBy (es++[.security level 0]) p := by
  obtain ⟨xs,ys,rfl,hy⟩ := h
  exact ⟨xs,ys++[.security level 0],level,by simp,by simpa using hy,by simp,hl⟩

theorem SecuredBy.snoc (h : SecuredBy es p) (ha : ∀ q, a ≠ .attempt q) : SecuredBy (es++[a]) p := by
  obtain ⟨xs,ys,level,rfl,hy,hs,hl⟩ := h
  refine ⟨xs,ys++[a],level,by simp,fun q hq => ?_,by simp [hs],hl⟩
  rcases List.mem_append.mp hq with hq | hq
  · exact hy q hq
  · exact ha q (List.mem_singleton.mp hq).symm

theorem peer_kept (h : Device.step port s a = some t) (ha : ∀ q, a ≠ .attempt q) :
    t.peer = s.peer ∧ (taken t.obj = true → taken s.obj = true) := by
  cases a with
  | attempt q => exact absurd rfl (ha q)
  | pairingComplete =>
    obtain ⟨_,_,rfl⟩ := Device.step_pairingComplete.mp h
    exact ⟨rfl,id⟩
  | returned =>
    obtain ⟨_,ht⟩ := Device.step_returned.mp h
    rcases ht with ⟨_,rfl⟩ | ⟨_,f,_,rfl⟩ <;> exact ⟨rfl,by simp [taken]⟩
  | _ =>
    obtain ⟨_,ho,hp⟩ := step_same h rfl
    exact ⟨hp,fun ht => ho.symm.trans ht⟩

/-- What is granted is granted to the peer of the session. -/
structure Session (es : List Device.Label) (s : Device.State) : Prop where
  linked : Linked s
  attempt : taken s.obj = true → AttemptBy es s.peer
  secured : Granted s.fw.main → SecuredBy es s.peer

theorem Granted.linked (hs : Linked s) (hx : Grounded s.fw.main) (hg : Granted s.fw.main) :
    s.obj = .link ∨ s.obj = .dropped :=
  hs.link.mp (hx.link hg)

theorem step_session (hs : Session es s) (hx : Grounded s.fw.main)
    (h : Device.step port s a = some t) : Session (es++[a]) t := by
  have hlinked := step_linked hs.linked h
  by_cases ha : ∃ q, a = .attempt q
  · obtain ⟨q,rfl⟩ := ha
    obtain ⟨slow,filtered,ho,_,rfl⟩ := Device.step_attempt.mp h
    refine ⟨hlinked,fun _ => ⟨es,[],rfl,by simp⟩,fun hg => ?_⟩
    have := Granted.linked hs.linked hx hg
    simp [ho] at this
  · have hne : ∀ q, a ≠ .attempt q := fun q hq => ha ⟨q,hq⟩
    obtain ⟨hp,htaken⟩ := peer_kept h hne
    refine ⟨hlinked,fun ht => ?_,fun hg => ?_⟩ <;> rw [hp]
    · exact (hs.attempt (htaken ht)).snoc hne
    · by_cases hsec : ∃ level, btSecurityL2 ≤ level ∧ a = .security level 0
      · obtain ⟨level,hl,rfl⟩ := hsec
        obtain ⟨_,ho,_⟩ := Device.step_security.mp h
        exact (hs.attempt (by rw [ho]; rfl)).secured hl
      · exact (hs.secured (device_granted h (fun level hl he => hsec ⟨level,hl,he⟩) hg)).snoc hne

theorem init_session (bonds : List ℕ) (rate : UInt32) : Session [] (Device.init bonds rate) :=
  ⟨init_linked bonds rate,by simp [Device.init, taken],
    by simp [Granted, Device.init, Firmware.init, MainThreads.init, boot, reporting, behindGate,
      writerRefs]⟩

theorem run_session {bonds : List ℕ} {rate : UInt32}
    (h : run (Device.step port) es (Device.init bonds rate) = some s) : Session es s :=
  history (C := fun _ _ => True) (I := Session) (init_session bonds rate)
    (fun _ _ _ _ hr hs _ ht => step_session hs (run_grounded hr) ht) h (allSteps_true _ _)

theorem init_locking {bonds : List ℕ} (hb : bonds.length ≤ 1) (rate : UInt32) :
    Locking (Device.init bonds rate) ⟨bonds.head?,none⟩ :=
  ⟨⟨_,init_seen bonds rate,Or.inl ⟨.count,init_booting bonds⟩⟩,hb,by simp [Held],rfl⟩

theorem Locking.bond {l : Lock ℕ} {o : ℕ} (hl : Locking s l) (ho : l.owner = some o) :
    s.bonds = [o] := by
  rw [hl.lock] at ho
  have hb := hl.bonds
  cases hs : s.bonds with
  | nil => simp [lockOf, hs] at ho
  | cons b rest =>
    have hrest : rest = [] := by simpa [hs] using hb
    simpa [lockOf, hs, hrest] using ho

theorem Locking.peer {l : Lock ℕ} {o : ℕ} (hl : Locking s l) (ho : o ∈ s.bonds)
    (ht : taken s.obj = true) : s.peer = o := by
  refine hl.held o s.peer ?_ (by simp [hl.lock, lockOf, ht])
  obtain ⟨b,hb⟩ := List.length_eq_one_iff.mp
    (Nat.le_antisymm hl.bonds (List.length_pos_of_mem ho))
  rw [hb] at ho
  simp [hl.lock, lockOf, hb, List.mem_singleton.mp ho]

/-- Once there is an owner it stays the only one, nobody else's attempt reaches the
device, and whoever is on the link is the owner. -/
theorem one_owner (port : Bool) (bonds : List ℕ) (rate : UInt32) (xs ys : List Device.Label)
    (s t : Device.State) (o : ℕ) (hb : bonds.length ≤ 1)
    (hs : run (Device.step port) xs (Device.init bonds rate) = some s) (ho : o ∈ s.bonds)
    (ht : run (Device.step port) ys s = some t)
    (hc : AllSteps (Device.step port) AcceptCalls (xs++ys) (Device.init bonds rate)) :
    t.bonds = [o] ∧ (∀ p, .attempt p ∈ ys → p = o) ∧ (taken t.obj = true → t.peer = o) := by
  obtain ⟨hcx,hcy⟩ := (allSteps_append _ _ _ _).mp hc
  rw [hs] at hcy
  obtain ⟨l,_,hl⟩ := (lock_part port).run (init_locking hb rate) hs hcx
  obtain ⟨m,hm,hlm⟩ := (lock_part port).run hl ht hcy
  have hown : l.owner = some o := by
    have hone := Nat.le_antisymm hl.bonds (List.length_pos_of_mem ho)
    obtain ⟨b,hb⟩ := List.length_eq_one_iff.mp hone
    rw [hb] at ho
    simp [hl.lock, lockOf, hb, List.mem_singleton.mp ho]
  obtain ⟨hkept,henter⟩ := owner_kept hl.held hown hm
  have hbond := hlm.bond hkept
  refine ⟨hbond,fun p hp => henter p (mem_trace ht hp (fun _ => by simp [lockEvents])),fun htk => ?_⟩
  exact hlm.peer (by simp [hbond]) htk

def pairing : List Device.Label :=
  List.flatten [List.replicate 7 (.adv (.run .boot 0 false)), [.attempt 7, .connected 0],
    List.replicate 3 .host, [.security 2 0], List.replicate 5 .host, [.pairingComplete]]

def paired : Device.State :=
  { Device.init [] 115200 with
    fw := ⟨Firmware.secured,UartBridge.init 115200⟩
    obj := .link
    bonds := [7]
    threads := ⟨none,none,none⟩
    refresh := some .count
    peer := 7 }

def comeBack : List Device.Label :=
  List.flatten [List.replicate 5 (.refresh 0), [.disconnected], List.replicate 4 .host,
    [.returned, .adv .recycled], List.replicate 4 (.adv (.run .recycled 0 false)), [.attempt 7]]

def back : Device.State :=
  { Device.init [7] 115200 with
    fw := setMain ⟨{ MainThreads.init false with links := 1 },UartBridge.init 115200⟩
      { boot true with
        advActive := true
        rxDataReady := true
        advSlowWork := ⟨some advFastDuration,false,.returned⟩ }
    obj := .attempt
    acceptList := [7]
    threads := ⟨none,none,none⟩
    peer := 7 }

theorem one_owner_comes_back : back.bonds = [7] ∧ (∀ p, .attempt p ∈ comeBack → p = 7) ∧
    (taken back.obj = true → back.peer = 7) :=
  one_owner true [] 115200 pairing comeBack paired back 7 (by decide) (by decide) (by decide)
    (by decide) (by decide)

/-- Whatever passes the gate, a byte offered to `bt_nus_send` or a write on its way to
the UART, the relay or the baud rate, is for the peer of the session, which has
reported encryption, and is the owner where there is one. -/
theorem owner_served (port : Bool) (bonds : List ℕ) (rate : UInt32) (es : List Device.Label)
    (s : Device.State) (hb : bonds.length ≤ 1)
    (h : run (Device.step port) es (Device.init bonds rate) = some s)
    (hc : AllSteps (Device.step port) AcceptCalls es (Device.init bonds rate))
    (hg : behindGate s.fw.main.rx = true ∨
      ∃ out sent maxSend, s.fw.main.writer = .send out sent maxSend) :
    SecuredBy es s.peer ∧ (s.obj = .link ∨ s.obj = .dropped) ∧ ∀ o ∈ s.bonds, s.peer = o := by
  have hs := run_session h
  have hgr : Granted s.fw.main := by
    rcases hg with hr | ⟨out,sent,maxSend,hw⟩
    · exact Or.inr (Or.inl hr)
    · exact Or.inr (Or.inr (by simp [hw, writerRefs]))
  have hobj := Granted.linked hs.linked (run_grounded h) hgr
  obtain ⟨l,_,hl⟩ := (lock_part port).run (init_locking hb rate) h hc
  refine ⟨hs.secured hgr,hobj,fun o ho => hl.peer ho ?_⟩
  rcases hobj with hobj | hobj <;> rw [hobj] <;> rfl

def writing : Device.State :=
  { paired with fw := ⟨{ Firmware.secured with rx := .forward [1] },UartBridge.init 115200⟩ }

theorem owner_served_writing :
    SecuredBy (pairing++[.fw (.main (.receive [1])), .fw (.main (.rx 0))]) 7 ∧
      (writing.obj = .link ∨ writing.obj = .dropped) ∧ ∀ o ∈ writing.bonds, writing.peer = o :=
  owner_served true [] 115200 (pairing++[.fw (.main (.receive [1])), .fw (.main (.rx 0))]) writing
    (by decide) (by decide) (by decide) (Or.inl rfl)

end NrfProxy.PairingLock
