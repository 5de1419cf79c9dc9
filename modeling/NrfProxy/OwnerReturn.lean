import NrfProxy.AdvertiserRecovery
import NrfProxy.DeviceProgress

/-!
# The owner comes back

The lock keeps everyone out but the owner, and it never keeps the owner out. From
wherever the threads, the callbacks and somebody's link stand, the device can be led
to an encrypted link with its owner, with no new pairing and whatever the starts of the
advertiser have answered before.
-/

set_option autoImplicit false

namespace NrfProxy.OwnerReturn
open NrfProxy.Runs NrfProxy.Delayable NrfProxy.ProxyCore NrfProxy.MainState NrfProxy.MainThreads
open NrfProxy.EncryptionGate NrfProxy.Advertiser
open NrfProxy.AdvertiserInvariant NrfProxy.AdvertiserRecovery NrfProxy.LockedMode
open NrfProxy.OwnerLock NrfProxy.Device NrfProxy.DeviceParts NrfProxy.PairingLock
open NrfProxy.DeviceProgress

/-- The accept list takes what it is told, and nobody pairs. -/
def Plain (s : Device.State) (a : Device.Label) : Prop := AcceptCalls s a ∧ a ≠ .pairingComplete

/-- The phone is on an encrypted link, and nothing runs but the writer. -/
structure Served (p : ℕ) (s : Device.State) : Prop where
  obj : s.obj = .link
  peer : s.peer = p
  encrypted : s.fw.main.main.encrypted = true
  rest : Resting s

variable {port : Bool} {bonds : List ℕ} {rate : UInt32} {s t : Device.State} {a : Device.Label}
variable {p : ℕ} {Q : Device.State → Prop}

def Reached (port : Bool) (bonds : List ℕ) (rate : UInt32) (s : Device.State) : Prop :=
  Leads (Device.step port) AcceptCalls (Device.init bonds rate) s

theorem Reached.step (hs : Reached port bonds rate s) (ha : Plain s a)
    (h : Device.step port s a = some t) : Reached port bonds rate t :=
  hs.snoc ha.1 h

theorem Reached.seen (hs : Reached port bonds rate s) :
    ∃ v, Seen s v ∧ Truthful v ∧ Uncancelled v ∧ Lit v := by
  obtain ⟨es,_,h⟩ := hs
  obtain ⟨v,hv,hseen⟩ := (radio_part port).run (init_seen bonds rate) h (allSteps_true _ _)
  refine ⟨v,hseen,?_⟩
  refine invariant (I := fun v => Truthful v ∧ Uncancelled v ∧ Lit v)
    ⟨init_truthful bonds,rfl,init_lit bonds⟩ ?_ hv
  rintro u a w ⟨ht,hu,hl⟩ hst
  exact ⟨step_truthful ht hst,step_uncancelled hu hst,step_lit ht hu hl hst⟩

theorem Reached.locking (hb : bonds.length ≤ 1) (hs : Reached port bonds rate s) :
    ∃ l, Locking s l := by
  obtain ⟨es,hc,h⟩ := hs
  obtain ⟨l,_,hl⟩ := (lock_part port).run (init_locking hb rate) h hc
  exact ⟨l,hl⟩

theorem Reached.linked (hs : Reached port bonds rate s) : Linked s := by
  obtain ⟨es,_,h⟩ := hs
  exact (run_session h).linked

theorem Reached.grounded (hs : Reached port bonds rate s) : Grounded s.fw.main := by
  obtain ⟨es,_,h⟩ := hs
  exact run_grounded h

theorem Reached.serving (hs : Reached port bonds rate s) :
    Firmware.Serving s.fw.uart.call s.fw.main.rx := by
  obtain ⟨es,_,h⟩ := hs
  exact run_serving h

structure Kept (s t : Device.State) : Prop where
  bonds : t.bonds = s.bonds
  peer : t.peer = s.peer
  obj : taken s.obj = true → t.obj = s.obj

theorem Kept.trans {u : Device.State} (hst : Kept s t) (htu : Kept t u) : Kept s u := by
  refine ⟨htu.bonds.trans hst.bonds,htu.peer.trans hst.peer,fun hs => ?_⟩
  have ht := hst.obj hs
  exact (htu.obj (by rw [ht]; exact hs)).trans ht

theorem onward_kept (ha : Onward s a) (h : Device.step port s a = some t) : Kept s t := by
  cases a with
  | wait ms =>
    obtain ⟨f,_,rfl⟩ := Device.step_wait.mp h
    exact ⟨rfl,rfl,fun _ => rfl⟩
  | fw b =>
    obtain ⟨_,_,_,f,_,rfl⟩ := Device.step_fw.mp h
    exact ⟨rfl,rfl,fun _ => rfl⟩
  | adv b =>
    obtain ⟨ho,_,w,hw,rfl⟩ := Device.step_adv.mp h
    obtain ⟨hbonds,hobj,_⟩ := adv_kept ho hw
    exact ⟨hbonds,rfl,hobj⟩
  | host =>
    obtain ⟨_,f,_,rfl⟩ := Device.step_host.mp h
    exact ⟨rfl,rfl,fun _ => rfl⟩
  | refresh err =>
    obtain ⟨pc,_,rfl⟩ := step_refresh_some h
    obtain ⟨hbonds,hobj⟩ := refreshNext_kept (advView s).radio err pc
    exact ⟨hbonds,rfl,fun _ => hobj⟩
  | attempt | pairingComplete | returned => exact absurd ha.lock (by simp [lockEvents])
  | connected | security | disconnected => exact absurd ha.begun (by simp [begins])

theorem onward_plain (ha : Onward s a) : Plain s a :=
  ⟨ha.accept,by rintro rfl; exact absurd ha.begun (by simp [begins])⟩

theorem rest_leads (hs : Reached port bonds rate s) :
    ∃ t, Leads (Device.step port) Plain s t ∧ Reached port bonds rate t ∧ Kept s t ∧
      Resting t := by
  have hstep (r : Device.State) (hr : Reached port bonds rate r ∧ Kept s r) (hn : ¬Resting r) :
      ∃ a t, Plain r a ∧ Device.step port r a = some t ∧
        (Reached port bonds rate t ∧ Kept s t) ∧ left t < left r := by
    obtain ⟨a,t,hon,hst,hlt⟩ := progress port hr.1.serving hn
    have hplain := onward_plain hon
    exact ⟨a,t,hplain,hst,⟨hr.1.step hplain hst,hr.2.trans (onward_kept hon hst)⟩,hlt⟩
  obtain ⟨as,t,hc,ht,⟨hr,hk⟩,hrest⟩ :=
    exists_rest_along left hstep ⟨hs,⟨rfl,rfl,fun _ => rfl⟩⟩
  exact ⟨t,⟨as,hc,ht⟩,hr,hk,hrest⟩

/-- The device can be led there, with the bonds it has. -/
def Can (port : Bool) (Q : Device.State → Prop) (s : Device.State) : Prop :=
  ∃ t, Leads (Device.step port) Plain s t ∧ t.bonds = s.bonds ∧ Q t

theorem Can.after (h : Can port Q t) (hst : Leads (Device.step port) Plain s t)
    (hb : t.bonds = s.bonds) : Can port Q s := by
  obtain ⟨u,htu,hbu,hu⟩ := h
  exact ⟨u,hst.trans htu,hbu.trans hb,hu⟩

theorem Can.step (h : Can port Q t) (ha : Plain s a) (hst : Device.step port s a = some t)
    (hb : t.bonds = s.bonds) : Can port Q s :=
  h.after ((Leads.refl s).snoc ha hst) hb

theorem Can.next (hs : Reached port bonds rate s) (ha : Plain s a)
    (hst : Device.step port s a = some t) (hb : t.bonds = s.bonds)
    (h : Reached port bonds rate t → Can port Q t) : Can port Q s :=
  (h (hs.step ha hst)).step ha hst hb

theorem Can.begin (hs : Reached port bonds rate s) (ha : Plain s a)
    (hst : Device.step port s a = some t) (hb : t.bonds = s.bonds)
    (h : ∀ u, Reached port bonds rate u → Kept t u → Resting u → Can port Q u) : Can port Q s := by
  refine Can.next hs ha hst hb (fun hrt => ?_)
  obtain ⟨u,htu,hru,hk,hrest⟩ := rest_leads hrt
  exact (h u hru hk hrest).after htu hk.bonds

theorem plain_of_answer (ha : a ≠ .pairingComplete) (h : ∀ b ∈ radioLabels s a, answer b = 0) :
    Plain s a :=
  ⟨fun b hb _ _ => h b hb,ha⟩

def setHost (s : Device.State) (m : Main) (pc : HostPc) : Device.State :=
  { s with fw := { s.fw with main := { s.fw.main with main := m, host := pc } } }

theorem host_step {m : Main} {pc : HostPc} (hl : locked s.threads = false)
    (h : hostNext s.fw.main.main s.fw.main.host = some (m,pc)) :
    Device.step port s .host = some (setHost s m pc) :=
  Device.step_host.mpr ⟨fun _ => hl,_,
    Firmware.step_main.mpr ⟨rfl,_,MainThreads.step_host.mpr ⟨m,pc,h,rfl⟩,rfl⟩,rfl⟩

theorem Can.host {m : Main} {pc : HostPc} (hl : locked s.threads = false)
    (h : hostNext s.fw.main.main s.fw.main.host = some (m,pc)) (hc : Can port Q (setHost s m pc)) :
    Can port Q s := by
  refine hc.step (plain_of_answer (by simp) ?_) (host_step hl h) rfl
  intro b hb
  by_cases hd : s.fw.main.host = .discArm <;> simp_all [radioLabels, answer]

theorem linked_served (hs : Reached port bonds rate s) (hr : Resting s) (ho : s.obj = .link)
    (hp : s.peer = p) : Can port (Served p) s := by
  have hup : s.fw.main.up = true := hs.linked.up.mpr ho
  have hconn : s.fw.main.main.currentConn = true := (hs.grounded.wf.idle_conn hr.host).trans hup
  have hbegin : Device.step port s (.security 2 0) =
      some (setHost s s.fw.main.main (.secEntry 2 0)) :=
    Device.step_security.mpr ⟨hr.refresh,ho,_,
      Firmware.step_main.mpr ⟨rfl,_,MainThreads.step_security.mpr ⟨hr.host,hup,rfl⟩,rfl⟩,rfl⟩
  refine Can.step ?_ (plain_of_answer (by simp) (by simp [radioLabels, answer])) hbegin rfl
  -- `on_security_changed`, from its test to its `k_sem_give`
  refine Can.host hr.unlocked rfl ?_
  refine Can.host hr.unlocked rfl ?_
  refine Can.host hr.unlocked rfl ?_
  refine Can.host hr.unlocked rfl ?_
  refine Can.host hr.unlocked rfl ?_
  refine ⟨_,Leads.refl _,rfl,ho,hp,?_,rfl,hr.refresh,hr.work,hr.gives,hr.rx,hr.call,hr.handler,
    hr.threads⟩
  show (s.fw.main.main.currentConn && true) = true
  rw [hconn]
  rfl

theorem attempt_ends (err : ℕ) (hs : Reached port bonds rate s) (href : s.refresh = none)
    (hh : s.fw.main.host = .idle) (ho : s.obj = .attempt)
    (h : ∀ u, Reached port bonds rate u → Resting u → u.bonds = s.bonds → u.peer = s.peer →
      u.obj = (if err = 0 then .link else .failed) → Can port Q u) : Can port Q s := by
  have hlink : s.fw.main.link = none := by
    have := hs.linked.link
    simpa [ho] using this
  obtain ⟨m,hm⟩ : ∃ m, MainThreads.step port s.fw.main (.connect err) = some m :=
    ⟨_,MainThreads.step_connect.mpr ⟨hh,hlink,rfl⟩⟩
  refine Can.begin hs (plain_of_answer (by simp) (by simp [radioLabels, answer]))
    (Device.step_connected.mpr ⟨href,ho,_,Firmware.step_main.mpr ⟨rfl,m,hm,rfl⟩,rfl⟩) rfl ?_
  intro u hru hk hrest
  refine h u hru hrest hk.bonds hk.peer (hk.obj ?_)
  dsimp only
  split <;> rfl

theorem attempt_served (hs : Reached port bonds rate s) (href : s.refresh = none)
    (hh : s.fw.main.host = .idle) (ho : s.obj = .attempt) (hp : s.peer = p) :
    Can port (Served p) s :=
  attempt_ends 0 hs href hh ho
    (fun _ hru hrest _ hpeer hobj => linked_served hru hrest hobj (hpeer.trans hp))

theorem advertiser_served {slow filtered : Bool} (hb : bonds.length ≤ 1)
    (hs : Reached port bonds rate s) (href : s.refresh = none) (hh : s.fw.main.host = .idle)
    (ho : s.obj = .advertiser slow filtered) (hp : s.bonds = [] ∨ p ∈ s.bonds) :
    Can port (Served p) s := by
  obtain ⟨l,hl⟩ := hs.locking hb
  obtain ⟨v,⟨_,g,_,rfl⟩,hm⟩ := hl.mode
  obtain ⟨hfilter,hlist⟩ := live_mode hm (show s.obj = .advertiser slow filtered from ho)
  have hopen : filtered = true → p ∈ s.acceptList := by
    intro hf
    have hne : s.bonds ≠ [] := of_decide_eq_true (hfilter.symm.trans hf)
    have hlist' : s.acceptList = s.bonds := hlist hne
    rw [hlist']
    exact hp.resolve_left hne
  refine Can.next hs (plain_of_answer (by simp) (by simp [radioLabels, answer]))
    (Device.step_attempt.mpr ⟨slow,filtered,ho,hopen,rfl⟩) rfl ?_
  intro hru
  exact attempt_served hru href hh rfl rfl

theorem Can.adv {b : Advertiser.Label} {v : Advertiser.State} (hs : Reached port bonds rate s)
    (ho : ownsAdv b = true) (he : Advertiser.enters b = true → queueIdle s = true) (ha : answer b = 0)
    (hst : Advertiser.step (advView s) b = some v)
    (h : Reached port bonds rate (setAdv s v) → (setAdv s v).refresh = s.refresh →
      Can port Q (setAdv s v)) : Can port Q s := by
  have hplain : Plain s (.adv b) := plain_of_answer (by simp) (by simpa [radioLabels] using ha)
  have hdev : Device.step port s (.adv b) = some (setAdv s v) :=
    Device.step_adv.mpr ⟨ho,he,v,hst,rfl⟩
  exact Can.next hs hplain hdev (adv_kept ho hst).1
    (fun hru => h hru (setAdv_refresh (adv_writes ho hst).2))

theorem call_served {T : Advertiser.Thread} (hb : bonds.length ≤ 1)
    (hs : Reached port bonds rate s) (href : s.refresh = none) (hh : s.fw.main.host = .idle)
    (ho : s.obj = .free) (hT : s.threads T = some (.start .start))
    (hp : s.bonds = [] ∨ p ∈ s.bonds) : Can port (Served p) s := by
  have hstart : pcNext (advView s).radio 0 false (.start .start) =
      some ({ (advView s).radio with obj := .advertiser false s.fw.main.main.lockedMode },
        some (.start (.store 0))) := by
    simp [pcNext, startNext, btLeAdvStart, advView, ho]
  refine Can.adv hs rfl (by simp [Advertiser.enters]) rfl
    (Advertiser.step_run.mpr ⟨_,_,_,hT,by simp [Advertiser.locks],hstart,rfl⟩) ?_
  intro hru href'
  exact advertiser_served hb hru (href'.trans href) hh rfl hp

theorem start_served {T : Advertiser.Thread} (hb : bonds.length ≤ 1)
    (hs : Reached port bonds rate s) (href : s.refresh = none) (hh : s.fw.main.host = .idle)
    (ho : s.obj = .free) (hl : locked s.threads = false) (hT : s.threads T = some (.start .guard))
    (hp : s.bonds = [] ∨ p ∈ s.bonds) : Can port (Served p) s := by
  obtain ⟨v,⟨_,g,_,rfl⟩,hv,_⟩ := hs.seen
  obtain ⟨hconn,hact⟩ := free_flags hv ho
  have hconn' : s.fw.main.main.currentConn = false := hconn
  have hact' : s.fw.main.main.advActive = false := hact hl
  have hguard : pcNext (advView s).radio 0 false (.start .guard) =
      some ((advView s).radio,some (.start .start)) := by
    simp [pcNext, startNext, proxyShouldStartAdv, advState, advView, hconn', hact']
  refine Can.adv hs rfl (by simp [Advertiser.enters]) rfl
    (Advertiser.step_run.mpr ⟨_,_,_,hT,fun _ => hl,hguard,rfl⟩) ?_
  intro hru href'
  exact call_served hb hru (href'.trans href) hh ho (setThread_self _ _ _) hp

theorem begun_unlocked (hr : Resting s) (T : Advertiser.Thread) :
    locked (setThread s.threads T (some (.start .guard))) = false := by
  refine locked_false.mpr (fun T' pc hT' => ?_)
  by_cases hne : T' = T
  · rw [hne, setThread_self] at hT'
    rw [← Option.some.inj hT']
    rfl
  · rw [setThread_of_ne hne, hr.threads T'] at hT'
    simp at hT'

theorem queued_served (hb : bonds.length ≤ 1) (hs : Reached port bonds rate s) (hr : Resting s)
    (ho : s.obj = .free) (hq : s.fw.main.main.advRetryWork.queued = true)
    (hp : s.bonds = [] ∨ p ∈ s.bonds) : Can port (Served p) s := by
  have hidle : queueIdle s = true := by
    have hwork : s.threads.work = none := hr.threads .work
    simp [queueIdle, hr.work, hr.handler, hwork]
  refine Can.adv (b := .enter .advRetry) hs rfl (fun _ => hidle) rfl
    (Advertiser.step_enter.mpr ⟨hr.threads .work,_,take_some.mpr ⟨hq,rfl⟩,rfl⟩) ?_
  intro hru href'
  exact start_served hb hru (href'.trans hr.refresh) hr.host ho (begun_unlocked hr .work)
    (setThread_self _ _ _) hp

theorem due_served {d : ℕ} (hb : bonds.length ≤ 1) (hs : Reached port bonds rate s)
    (hr : Resting s) (ho : s.obj = .free)
    (hd : s.fw.main.main.advRetryWork.scheduled = some d) (hnow : d ≤ s.fw.main.main.now)
    (hp : s.bonds = [] ∨ p ∈ s.bonds) : Can port (Served p) s := by
  obtain ⟨v,⟨_,g,_,rfl⟩,_,hunc,_⟩ := hs.seen
  refine Can.adv (b := .expire .advRetry) hs rfl (by simp [Advertiser.enters]) rfl
    (Advertiser.step_expire.mpr ⟨_,expire_some.mpr ⟨⟨d,hd,hnow⟩,rfl⟩,rfl⟩) ?_
  intro hru href'
  refine queued_served hb hru
    ⟨hr.host,href'.trans hr.refresh,hr.work,hr.gives,hr.rx,hr.call,hr.handler,hr.threads⟩ ho ?_ hp
  exact congrArg Work.queued (submit_of_ne (w := ⟨none,_,_⟩) hunc.submitted)

theorem retry_served (hb : bonds.length ≤ 1) (hs : Reached port bonds rate s) (hr : Resting s)
    (ho : s.obj = .free) (hpend : s.fw.main.main.advRetryWork.pending = true)
    (hp : s.bonds = [] ∨ p ∈ s.bonds) : Can port (Served p) s := by
  cases hd : s.fw.main.main.advRetryWork.scheduled with
  | none => exact queued_served hb hs hr ho (by simpa [Work.pending, hd] using hpend) hp
  | some d =>
    obtain ⟨t,ht⟩ : ∃ t, Device.step port s (.wait d) = some t :=
      ⟨_,Device.step_wait.mpr ⟨_,Firmware.step_wait.mpr
        ⟨_,_,MainThreads.step_wait.mpr rfl,UartBridge.step_wait.mpr rfl,rfl⟩,rfl⟩⟩
    have hplain : Plain s (.wait d) := plain_of_answer (by simp) (by simp [radioLabels, answer])
    obtain ⟨f,hf,rfl⟩ := Device.step_wait.mp ht
    obtain ⟨m,u,hm,hu,rfl⟩ := Firmware.step_wait.mp hf
    obtain rfl := MainThreads.step_wait.mp hm
    obtain rfl := UartBridge.step_wait.mp hu
    refine Can.next hs hplain ht rfl (fun hru => ?_)
    exact due_served hb hru
      ⟨hr.host,hr.refresh,hr.work,hr.gives,hr.rx,hr.call,hr.handler,hr.threads⟩ ho hd
      (Nat.le_add_left d _) hp

theorem free_served (hb : bonds.length ≤ 1) (hs : Reached port bonds rate s) (hr : Resting s)
    (ho : s.obj = .free) (hp : s.bonds = [] ∨ p ∈ s.bonds) : Can port (Served p) s := by
  obtain ⟨v,⟨_,g,_,rfl⟩,_,_,hlit⟩ := hs.seen
  rcases hlit ho with howed | hpend | ⟨T,pc,hT,_⟩
  · refine Can.adv hs rfl (by simp [Advertiser.enters]) rfl
      (Advertiser.step_recycled.mpr ⟨howed,hr.threads .recycled,rfl⟩) ?_
    intro hru href'
    exact start_served hb hru (href'.trans hr.refresh) hr.host ho (begun_unlocked hr .recycled)
      (setThread_self _ _ _) hp
  · exact retry_served hb hs hr ho hpend hp
  · exact absurd (show s.threads T = some pc from hT) (by simp [hr.threads T])

theorem failed_served (hb : bonds.length ≤ 1) (hs : Reached port bonds rate s) (hr : Resting s)
    (ho : s.obj = .failed) (hp : s.bonds = [] ∨ p ∈ s.bonds) : Can port (Served p) s := by
  have hrest : Resting { s with obj := .free, owed := s.owed+1 } :=
    ⟨hr.host,hr.refresh,hr.work,hr.gives,hr.rx,hr.call,hr.handler,hr.threads⟩
  refine Can.next hs (plain_of_answer (by simp) (by simp [radioLabels, answer]))
    (Device.step_returned.mpr ⟨hr.task,Or.inl ⟨ho,rfl⟩⟩) rfl ?_
  intro hru
  exact free_served hb hru hrest rfl hp

theorem released_served (hb : bonds.length ≤ 1) (hs : Reached port bonds rate s) (hr : Resting s)
    (ho : s.obj = .dropped) (hw : writerRefs s.fw.main.writer = 0)
    (hp : s.bonds = [] ∨ p ∈ s.bonds) : Can port (Served p) s := by
  have hlink : s.fw.main.link.isSome = true := hs.linked.link.mpr (Or.inr ho)
  have hup : s.fw.main.up = false := by
    have := hs.linked.up
    simpa [ho] using this
  have hrefs : s.fw.main.main.connRefs = 0 := by
    have hc := hs.grounded.counted
    rw [Counted, hs.grounded.wf.idle_conn hr.host, hup, hw, hr.work] at hc
    exact hc
  have hrecycle : MainThreads.step port s.fw.main .recycle = some { s.fw.main with link := none } :=
    MainThreads.step_recycle.mpr ⟨hr.host,hlink,hup,hrefs,hr.rx,rfl⟩
  refine Can.next hs (plain_of_answer (by simp) (by simp [radioLabels, answer]))
    (Device.step_returned.mpr ⟨hr.task,
      Or.inr ⟨ho,_,Firmware.step_main.mpr ⟨rfl,_,hrecycle,rfl⟩,rfl⟩⟩) rfl ?_
  intro hru
  exact free_served hb hru
    ⟨hr.host,hr.refresh,hr.work,hr.gives,hr.rx,hr.call,hr.handler,hr.threads⟩ rfl hp

def writerLeft : WriterPc → ℕ
  | .mtu => 6
  | .claim _ => 5
  | .hook _ _ => 4
  | .finish _ _ _ => 3
  | .send _ _ _ => 2
  | .unref _ => 1
  | _ => 0

/-- A refused send lets go of the link: 23 is the MTU before any exchange, and 1 is not
one of the errors which ask for a retry. -/
theorem writerNext_release (m : Main) (q : Stream) {pc : WriterPc} (hw : writerRefs pc ≠ 0) :
    ∃ n r pc', writerNext m q 23 1 pc = some (n,r,pc') ∧ writerLeft pc' < writerLeft pc := by
  have herr : proxySendResult 1 = .drop := by decide
  cases pc with
  | mtu => exact ⟨_,_,_,rfl,by decide⟩
  | claim maxSend =>
    refine ⟨_,_,_,rfl,?_⟩
    split <;> simp [writerLeft]
  | hook claimed maxSend => exact ⟨_,_,_,rfl,by simp [writerLeft]⟩
  | finish claimed out maxSend => exact ⟨_,_,_,rfl,by simp [writerLeft]⟩
  | send out sent maxSend =>
    simp only [writerNext, herr]
    split <;> exact ⟨_,_,_,rfl,by simp [writerLeft]⟩
  | unref again =>
    refine ⟨_,_,_,rfl,?_⟩
    cases again <;> simp [writerLeft]
  | take | test | snapshot | drainClaim | drainFinish | report => simp [writerRefs] at hw

theorem dropped_served (hb : bonds.length ≤ 1) (hs : Reached port bonds rate s) (hr : Resting s)
    (ho : s.obj = .dropped) (hp : s.bonds = [] ∨ p ∈ s.bonds) : Can port (Served p) s := by
  have hstep (r : Device.State)
      (h : Reached port bonds rate r ∧ Resting r ∧ r.obj = .dropped ∧ r.bonds = s.bonds)
      (hw : ¬writerRefs r.fw.main.writer = 0) :
      ∃ a t, Plain r a ∧ Device.step port r a = some t ∧
        (Reached port bonds rate t ∧ Resting t ∧ t.obj = .dropped ∧ t.bonds = s.bonds) ∧
        writerLeft t.fw.main.writer < writerLeft r.fw.main.writer := by
    obtain ⟨hru,hrest,hobj,hbonds⟩ := h
    obtain ⟨n,q,pc,hn,hlt⟩ := writerNext_release r.fw.main.main r.fw.main.stream hw
    have hplain : Plain r (.fw (.main (.writer 23 1))) :=
      plain_of_answer (by simp) (by simp [radioLabels])
    have hst : Device.step port r (.fw (.main (.writer 23 1))) = some
        { r with fw := { r.fw with
          main := { r.fw.main with main := n, stream := q, writer := pc } } } :=
      Device.step_fw.mpr ⟨rfl,by simp [Device.enters],fun _ => hrest.unlocked,_,
        Firmware.step_main.mpr ⟨rfl,_,MainThreads.step_writer.mpr ⟨n,q,pc,hn,rfl⟩,rfl⟩,rfl⟩
    exact ⟨_,_,hplain,hst,⟨hru.step hplain hst,⟨hrest.host,hrest.refresh,hrest.work,hrest.gives,
      hrest.rx,hrest.call,hrest.handler,hrest.threads⟩,hobj,hbonds⟩,hlt⟩
  obtain ⟨as,t,hc,ht,⟨hru,hrest,hobj,hbonds⟩,hw⟩ :=
    exists_rest_along (fun r : Device.State => writerLeft r.fw.main.writer) hstep ⟨hs,hr,ho,rfl⟩
  exact (released_served hb hru hrest hobj hw (by rw [hbonds]; exact hp)).after ⟨as,hc,ht⟩ hbonds

theorem resting_served (hb : bonds.length ≤ 1) (hs : Reached port bonds rate s) (hr : Resting s)
    (hp : s.bonds = [] ∨ p ∈ s.bonds) : Can port (Served p) s := by
  cases ho : s.obj with
  | free => exact free_served hb hs hr ho hp
  | advertiser slow filtered => exact advertiser_served hb hs hr.refresh hr.host ho hp
  | failed => exact failed_served hb hs hr ho hp
  | dropped => exact dropped_served hb hs hr ho hp
  | attempt =>
    -- it may be anyone's, so it has to fail first
    refine attempt_ends 1 hs hr.refresh hr.host ho ?_
    intro u hru hrest hbonds _ hobj
    exact failed_served hb hru hrest hobj (by rw [hbonds]; exact hp)
  | link =>
    obtain ⟨m,hm⟩ : ∃ m, MainThreads.step port s.fw.main .disconnect = some m :=
      ⟨_,MainThreads.step_disconnect.mpr ⟨hr.host,hs.linked.up.mpr ho,rfl⟩⟩
    refine Can.begin hs (plain_of_answer (by simp) (by simp [radioLabels, answer]))
      (Device.step_disconnected.mpr
        ⟨hr.refresh,ho,_,Firmware.step_main.mpr ⟨rfl,m,hm,rfl⟩,rfl⟩) rfl ?_
    intro u hru hk hrest
    exact dropped_served hb hru hrest (hk.obj rfl) (by rw [hk.bonds]; exact hp)

theorem reached_served (hb : bonds.length ≤ 1) (hs : Reached port bonds rate s)
    (hp : s.bonds = [] ∨ p ∈ s.bonds) : Can port (Served p) s := by
  obtain ⟨t,hst,hrt,hk,hr⟩ := rest_leads hs
  exact (resting_served hb hrt hr (by rw [hk.bonds]; exact hp)).after hst hk.bonds

theorem served_owner (hb : bonds.length ≤ 1) (hs : Reached port bonds rate s)
    (hst : Leads (Device.step port) AcceptCalls s t) (ht : taken t.obj = true) :
    s.bonds = [] ∨ t.peer ∈ s.bonds := by
  obtain ⟨l,hl⟩ := hs.locking hb
  obtain ⟨as,hc,has⟩ := hst
  obtain ⟨m,hm,hlm⟩ := (lock_part port).run hl has hc
  cases hbs : s.bonds with
  | nil => exact Or.inl rfl
  | cons o rest =>
    right
    have hown : l.owner = some o := by simp [hl.lock, lockOf, hbs]
    have hbond := hlm.bond (owner_kept hl.held hown hm).1
    rw [hlm.peer (o := o) (by simp [hbond]) ht]
    simp

/-- From every state the device can be led to an encrypted link with its owner, and with
anyone while it has none, where no pairing is needed; and with nobody else, whoever pairs. -/
theorem open_to_owner (port : Bool) (bonds : List ℕ) (rate : UInt32) (es : List Device.Label)
    (s : Device.State) (p : ℕ) (hb : bonds.length ≤ 1)
    (h : run (Device.step port) es (Device.init bonds rate) = some s)
    (hc : AllSteps (Device.step port) AcceptCalls es (Device.init bonds rate)) :
    (s.bonds = [] ∨ p ∈ s.bonds → ∃ as t, .pairingComplete ∉ as ∧
      AllSteps (Device.step port) AcceptCalls as s ∧ run (Device.step port) as s = some t ∧
      Served p t) ∧
    ∀ as t, AllSteps (Device.step port) AcceptCalls as s → run (Device.step port) as s = some t →
      Served p t → s.bonds = [] ∨ p ∈ s.bonds := by
  have hs : Reached port bonds rate s := ⟨es,hc,h⟩
  constructor
  · intro hp
    obtain ⟨t,⟨as,has,ht⟩,_,hserved⟩ := reached_served hb hs hp
    have hmem := allSteps_mem ht (allSteps_mono (fun _ _ ha => ha.2) has)
    exact ⟨as,t,fun hpair => hmem _ hpair rfl,allSteps_mono (fun _ _ ha => ha.1) has,ht,hserved⟩
  · intro as t has ht hserved
    have hpeer := served_owner hb hs ⟨as,has,ht⟩ (by rw [hserved.obj]; rfl)
    rwa [hserved.peer] at hpeer

/-- The pairing's refresh and a write of the owner are under way. -/
theorem open_to_owner_writing : ∃ as t, .pairingComplete ∉ as ∧
    AllSteps (Device.step true) AcceptCalls as writing ∧
      run (Device.step true) as writing = some t ∧ Served 7 t :=
  (open_to_owner true [] 115200 (pairing++[.fw (.main (.receive [1])), .fw (.main (.rx 0))])
    writing 7 (by decide) (by decide) (by decide)).1 (by decide)

end NrfProxy.OwnerReturn
