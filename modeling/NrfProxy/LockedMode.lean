import NrfProxy.AdvertiserInvariant

/-!
# Locked mode

`refresh_locked_mode` takes the bonds into the accept list and the mode, and
whoever starts an advertiser reads the mode. At boot `main` refreshes before it
advertises. A pairing changes the bonds while its link holds the connection
object, and refreshes before the link can go, so that no advertiser is there
to see the list and the mode between two sets of bonds.
-/

set_option autoImplicit false

namespace NrfProxy.LockedMode
open NrfProxy.Runs NrfProxy.Delayable NrfProxy.MainState NrfProxy.Advertiser
open NrfProxy.AdvertiserInvariant

/-- The bonds behind the factory reset of `main`. Where `bt_unpair` fails, `left`
is what it leaves. -/
def bootBonds (factoryReset : Bool) (err : ℤ) (left restored : List ℕ) : List ℕ :=
  if factoryReset then if err = 0 then [] else left else restored

/-- The next step of a refresh is a call that changes the accept list. -/
def callsAcceptList : RefreshPc → Bool
  | .clear _ | .add (_::_) _ => true
  | _ => false

def atRefresh (P : RefreshPc → Bool) : Option Pc → Bool
  | some (.refresh pc) => P pc
  | _ => false

def acceptCall (s : State) : Label → Bool
  | .run T _ _ => atRefresh callsAcceptList (s.threads T)
  | .host _ =>
    match s.host with
    | .refresh pc => callsAcceptList pc
    | .callback _ => false
  | _ => false

def answer : Label → ℤ
  | .run _ err _ | .host err => err
  | _ => 0

/-- The calls succeed when no advertiser is live. -/
def AcceptCallsSucceed (s : State) (a : Label) : Prop :=
  acceptCall s a = true → s.radio.obj.live = false → answer a = 0

instance (s : State) (a : Label) : Decidable (AcceptCallsSucceed s a) :=
  inferInstanceAs (Decidable (_ → _))

def Refreshing (s : State) : Prop :=
  (∃ pc, s.host = .refresh pc) ∨ ∃ T pc, s.threads T = some (.refresh pc)

/-- Mode and accept list are those of the bonds. -/
def Settled (r : Radio) : Prop :=
  r.main.lockedMode = decide (r.bonds ≠ []) ∧ (r.bonds ≠ [] → r.acceptList = r.bonds)

/-- How far the refresh is. The loop has added the bonds before `rest`. -/
def RefreshFits (r : Radio) : RefreshPc → Prop
  | .count => True
  | .clear bonds => bonds = r.bonds.length
  | .add rest bonds =>
    bonds = r.bonds.length ∧ r.bonds ≠ [] ∧ r.bonds = r.acceptList++rest
  | .setMode bonds => bonds = r.bonds.length ∧ (r.bonds ≠ [] → r.acceptList = r.bonds)

theorem refreshNext_kept (r : Radio) (err : ℤ) (pc : RefreshPc) :
    (refreshNext r err pc).1.bonds = r.bonds ∧ (refreshNext r err pc).1.obj = r.obj := by
  cases pc with
  | add rest bonds => cases rest <;> exact ⟨rfl,rfl⟩
  | _ => exact ⟨rfl,rfl⟩

theorem refreshNext_fits {r : Radio} {err : ℤ} {pc : RefreshPc} (hf : RefreshFits r pc)
    (hok : callsAcceptList pc = true → err = 0) :
    (refreshNext r err pc).2.elim (Settled (refreshNext r err pc).1)
      (RefreshFits (refreshNext r err pc).1) := by
  cases pc with
  | count => exact rfl
  | clear bonds =>
    obtain rfl : err = 0 := hok rfl
    obtain rfl : bonds = r.bonds.length := hf
    by_cases hb : 0 < r.bonds.length
    · simp only [refreshNext, if_pos hb]
      exact ⟨rfl,List.length_pos_iff.mp hb,rfl⟩
    · simp only [refreshNext, if_neg hb]
      exact ⟨rfl,fun hne => absurd (List.length_pos_iff.mpr hne) hb⟩
  | add rest bonds =>
    obtain ⟨hn,hne,hr⟩ := hf
    cases rest with
    | nil =>
      have ha : r.acceptList = r.bonds := by simpa using hr.symm
      exact ⟨hn,fun _ => ha⟩
    | cons addr rest =>
      obtain rfl : err = 0 := hok rfl
      refine ⟨hn,hne,?_⟩
      show r.bonds = (r.acceptList++[addr])++rest
      rw [hr, List.append_assoc, List.singleton_append]
  | setMode bonds =>
    obtain ⟨rfl,hr⟩ := hf
    refine ⟨?_,hr⟩
    show decide (0 < r.bonds.length) = decide (r.bonds ≠ [])
    exact decide_eq_decide.mpr List.length_pos_iff

def ObjMove (r r' : Radio) : Prop :=
  r'.obj = r.obj ∨ r.obj.live = true ∧ r'.obj = .free ∨
    r.obj = .free ∧ ∃ slow, r'.obj = .advertiser slow r.main.lockedMode

structure SameMode (r r' : Radio) : Prop where
  bonds : r'.bonds = r.bonds
  acceptList : r'.acceptList = r.acceptList
  mode : r'.main.lockedMode = r.main.lockedMode

theorem SameMode.settled {r r' : Radio} (h : SameMode r r') (hs : Settled r) : Settled r' := by
  unfold Settled at *
  rw [h.bonds, h.acceptList, h.mode]
  exact hs

theorem SameMode.fits {r r' : Radio} (h : SameMode r r') {pc : RefreshPc} (hf : RefreshFits r pc) :
    RefreshFits r' pc := by
  cases pc <;> simp only [RefreshFits, h.bonds, h.acceptList] at * <;> exact hf

theorem radio_mode {r r' : Radio} (h : RadioMove r r') : SameMode r r' ∧ ObjMove r r' := by
  cases h with
  | @start slow err _ h =>
    unfold btLeAdvStart at h
    split at h
    · obtain ⟨hfree,hr⟩ := Option.ite_none_right_eq_some.mp h
      obtain rfl := Option.some.inj hr
      exact ⟨⟨rfl,rfl,rfl⟩,Or.inr (Or.inr ⟨hfree,slow,rfl⟩)⟩
    · obtain rfl := Option.some.inj h
      exact ⟨⟨rfl,rfl,rfl⟩,Or.inl rfl⟩
  | stop hl _ => exact ⟨⟨rfl,rfl,rfl⟩,Or.inr (Or.inl ⟨hl,rfl⟩)⟩
  | _ => exact ⟨⟨rfl,rfl,rfl⟩,Or.inl rfl⟩

theorem pcNext_mode {r r' : Radio} {err : ℤ} {sync : Bool} {pc : Pc} {q : Option Pc}
    (hpc : ∀ p, pc ≠ .refresh p) (h : pcNext r err sync pc = some (r',q)) :
    SameMode r r' ∧ ObjMove r r' ∧ ∀ p, q ≠ some (.refresh p) := by
  cases pc with
  | refresh pc => exact absurd rfl (hpc pc)
  | start pc =>
    simp only [pcNext, Option.map_eq_some_iff, Prod.mk.injEq] at h
    obtain ⟨⟨d,p⟩,hd,rfl,rfl⟩ := h
    obtain ⟨hsame,hmove⟩ := radio_mode (startNext_radio hd)
    exact ⟨hsame,hmove,by cases p <;> simp⟩
  | slow pc =>
    simp only [pcNext, Option.map_eq_some_iff, Prod.mk.injEq] at h
    obtain ⟨⟨d,p⟩,hd,rfl,rfl⟩ := h
    obtain ⟨hsame,hmove⟩ := radio_mode (slowNext_radio hd)
    exact ⟨hsame,hmove,by cases p <;> simp⟩

/-- `main` is in its refresh, and nothing else runs or is due. -/
structure Booting (s : State) (pc : RefreshPc) : Prop where
  threads : s.threads = ⟨some (.refresh pc),none,none⟩
  host : s.host = .callback .idle
  obj : s.radio.obj = .free
  owed : s.radio.owed = 0
  slow : s.radio.main.advSlowWork = idle
  retry : s.radio.main.advRetryWork = idle
  fits : RefreshFits s.radio pc

def HostMode (r : Radio) : HostTask → Prop
  | .refresh pc => r.obj = .link ∧ RefreshFits r pc
  | .callback _ => Settled r

structure Advertising (s : State) : Prop where
  threads : ∀ T pc, s.threads T ≠ some (.refresh pc)
  host : HostMode s.radio s.host
  live : ∀ slow filtered, s.radio.obj = .advertiser slow filtered →
    filtered = s.radio.main.lockedMode

def Mode (s : State) : Prop := (∃ pc, Booting s pc) ∨ Advertising s

theorem init_booting (bonds : List ℕ) : Booting (init bonds) .count :=
  ⟨rfl,rfl,rfl,rfl,rfl,rfl,trivial⟩

variable {s t : State} {a : Label}

theorem idle_item {m : Main} (hs : m.advSlowWork = idle) (hr : m.advRetryWork = idle) (w : Item) :
    item m w = idle := by
  cases w
  · exact hs
  · exact hr

theorem booting_label {pc : RefreshPc} (hb : Booting s pc) (h : step s a = some t) :
    (∃ ms, a = .wait ms) ∨ ∃ err sync, a = .run .boot err sync := by
  have hobj := hb.obj
  cases a with
  | wait ms => exact Or.inl ⟨ms,rfl⟩
  | run T err sync =>
    obtain ⟨p,r,q,hT,_⟩ := step_run.mp h
    rw [hb.threads] at hT
    cases T with
    | boot => exact Or.inr ⟨err,sync,rfl⟩
    | _ => simp [Threads.get] at hT
  | expire w =>
    obtain ⟨v,hv,_⟩ := step_expire.mp h
    rw [idle_item hb.slow hb.retry] at hv
    simp [expire, idle] at hv
  | enter w =>
    obtain ⟨_,v,hv,_⟩ := step_enter.mp h
    rw [idle_item hb.slow hb.retry] at hv
    simp [take, idle] at hv
  | recycled =>
    obtain ⟨howed,_⟩ := step_recycled.mp h
    simp [hb.owed] at howed
  | attempt =>
    obtain ⟨hl,_⟩ := step_attempt.mp h
    simp [hobj, Obj.live] at hl
  | connected err =>
    obtain ⟨_,ho,_⟩ := step_connected.mp h
    simp [hobj] at ho
  | security level err =>
    obtain ⟨_,ho,_⟩ := step_security.mp h
    simp [hobj] at ho
  | pairingComplete addr =>
    obtain ⟨_,ho,_⟩ := step_pairingComplete.mp h
    simp [hobj] at ho
  | disconnected =>
    obtain ⟨_,ho,_⟩ := step_disconnected.mp h
    simp [hobj] at ho
  | host err =>
    obtain ⟨_,r,q,hn,_⟩ := step_host.mp h
    simp [hb.host, hostStep, hostNext] at hn
  | returned =>
    obtain ⟨_,ho,_⟩ := step_returned.mp h
    simp [hobj] at ho

theorem boot_mode {pc : RefreshPc} {err : ℤ} {sync : Bool} (hb : Booting s pc)
    (hc : AcceptCallsSucceed s (.run .boot err sync))
    (h : step s (.run .boot err sync) = some t) : Mode t := by
  obtain ⟨p,r,q,hT,_,hn,rfl⟩ := step_run.mp h
  have hp : s.threads .boot = some (.refresh pc) := by rw [hb.threads]; rfl
  obtain rfl : .refresh pc = p := by simpa [hp] using hT
  obtain ⟨rfl,rfl⟩ := Prod.mk.inj (Option.some.inj hn)
  have hok (hcall : callsAcceptList pc = true) : err = 0 := by
    apply hc
    · simpa [acceptCall, hp, atRefresh] using hcall
    · rw [hb.obj]
      rfl
  have hfits := refreshNext_fits hb.fits hok
  obtain ⟨_,_,hretry,hobj,howed⟩ := refreshNext_main s.radio err pc
  have hslow := refreshNext_slow s.radio err pc
  cases hq : (refreshNext s.radio err pc).2 with
  | some pc' =>
    rw [hq] at hfits
    apply Or.inl
    refine ⟨pc',?_,hb.host,hobj.trans hb.obj,howed.trans hb.owed,hslow.trans hb.slow,
      hretry.trans hb.retry,hfits⟩
    rw [hb.threads]
    rfl
  | none =>
    rw [hq] at hfits
    apply Or.inr
    constructor
    · intro T p
      rw [hb.threads]
      cases T <;> simp [setThread, Threads.get]
    · show HostMode _ s.host
      rw [hb.host]
      exact hfits
    · intro slow filtered ho
      rw [hobj.trans hb.obj] at ho
      simp at ho

theorem booting_mode {pc : RefreshPc} (hb : Booting s pc) (hc : AcceptCallsSucceed s a)
    (h : step s a = some t) : Mode t := by
  rcases booting_label hb h with ⟨ms,rfl⟩ | ⟨err,sync,rfl⟩
  · obtain rfl := step_wait.mp h
    exact Or.inl ⟨pc,hb.threads,hb.host,hb.obj,hb.owed,hb.slow,hb.retry,
      SameMode.fits ⟨rfl,rfl,rfl⟩ hb.fits⟩
  · exact boot_mode hb hc h

theorem Advertising.frame (hs : Advertising s) (hm : SameMode s.radio t.radio)
    (ho : t.radio.obj = s.radio.obj) (hth : ∀ T pc, t.threads T ≠ some (.refresh pc))
    (hhost : t.host = s.host) : Advertising t := by
  constructor
  · exact hth
  · rw [hhost]
    have hold := hs.host
    cases hh : s.host with
    | refresh pc =>
      rw [hh] at hold
      exact ⟨ho.trans hold.1,hm.fits hold.2⟩
    | callback pc =>
      rw [hh] at hold
      exact hm.settled hold
  · rw [ho, hm.mode]
    exact hs.live

theorem setThread_refresh {threads : Threads} {T : Thread} {q : Option Pc}
    (h : ∀ T pc, threads T ≠ some (.refresh pc)) (hq : ∀ pc, q ≠ some (.refresh pc)) (T' : Thread)
    (pc : RefreshPc) : setThread threads T q T' ≠ some (.refresh pc) := by
  by_cases he : T' = T
  · subst he
    rw [setThread_self]
    exact hq pc
  · rw [setThread_of_ne he]
    exact h T' pc

theorem run_advertising {T : Thread} {err : ℤ} {sync : Bool} (hs : Advertising s)
    (h : step s (.run T err sync) = some t) : Advertising t := by
  obtain ⟨p,r,q,hT,_,hn,rfl⟩ := step_run.mp h
  obtain ⟨hm,ho,hq⟩ := pcNext_mode (fun pc hp => hs.threads T pc (by rw [hT, hp])) hn
  constructor
  · exact setThread_refresh hs.threads hq
  · have hold := hs.host
    show HostMode r s.host
    cases hh : s.host with
    | refresh pc =>
      rw [hh] at hold
      refine ⟨?_,hm.fits hold.2⟩
      rcases ho with ho | ⟨hl,_⟩ | ⟨hfree,_⟩
      · exact ho.trans hold.1
      · rw [hold.1] at hl
        simp [Obj.live] at hl
      · rw [hold.1] at hfree
        simp at hfree
    | callback pc =>
      rw [hh] at hold
      exact hm.settled hold
  · intro slow filtered hr
    dsimp only at hr ⊢
    rw [hm.mode]
    rcases ho with ho | ⟨_,ho⟩ | ⟨_,slow',ho⟩
    · exact hs.live slow filtered (ho.symm.trans hr)
    · rw [ho] at hr
      simp at hr
    · rw [ho] at hr
      simp only [Obj.advertiser.injEq] at hr
      exact hr.2.symm

theorem host_advertising {err : ℤ} (hs : Advertising s) (hc : AcceptCallsSucceed s (.host err))
    (h : step s (.host err) = some t) : Advertising t := by
  obtain ⟨_,r,host,hn,rfl⟩ := step_host.mp h
  have hold := hs.host
  cases hh : s.host with
  | callback p =>
    rw [hh] at hn hold
    simp only [hostStep, Option.map_eq_some_iff, Prod.mk.injEq] at hn
    obtain ⟨⟨n,q⟩,hn,rfl,rfl⟩ := hn
    have hm : SameMode s.radio { s.radio with main := n } := ⟨rfl,rfl,(hostNext_keeps hn).lockedMode⟩
    constructor
    · exact hs.threads
    · exact hm.settled hold
    · intro slow filtered ho
      exact (hs.live slow filtered ho).trans hm.mode.symm
  | refresh pc =>
    rw [hh] at hn hold
    obtain ⟨rfl,rfl⟩ := Prod.mk.inj (Option.some.inj hn)
    have hok (hcall : callsAcceptList pc = true) : err = 0 := by
      apply hc
      · simpa [acceptCall, hh] using hcall
      · rw [hold.1]
        rfl
    have hfits := refreshNext_fits hold.2 hok
    obtain ⟨_,hobj⟩ := refreshNext_kept s.radio err pc
    constructor
    · exact hs.threads
    · show HostMode (refreshNext s.radio err pc).1 _
      cases hq : (refreshNext s.radio err pc).2 with
      | some pc' =>
        rw [hq] at hfits
        exact ⟨hobj.trans hold.1,hfits⟩
      | none =>
        rw [hq] at hfits
        exact hfits
    · intro slow filtered ho
      dsimp only at ho
      rw [hobj, hold.1] at ho
      simp at ho

theorem Advertising.settled {pc : HostPc} (hs : Advertising s) (hh : s.host = .callback pc) :
    Settled s.radio := by
  have hold := hs.host
  rw [hh] at hold
  exact hold

theorem advertising_mode (hs : Advertising s) (hc : AcceptCallsSucceed s a)
    (h : step s a = some t) : Advertising t := by
  cases a with
  | wait ms =>
    obtain rfl := step_wait.mp h
    exact hs.frame ⟨rfl,rfl,rfl⟩ rfl hs.threads rfl
  | expire w =>
    obtain ⟨v,_,rfl⟩ := step_expire.mp h
    cases w <;> exact hs.frame ⟨rfl,rfl,rfl⟩ rfl hs.threads rfl
  | enter w =>
    obtain ⟨_,v,_,rfl⟩ := step_enter.mp h
    have hth := setThread_refresh (T := .work) (q := some (handler w)) hs.threads
      (by cases w <;> simp [handler])
    cases w <;> exact hs.frame ⟨rfl,rfl,rfl⟩ rfl hth rfl
  | run T err sync => exact run_advertising hs h
  | recycled =>
    obtain ⟨_,_,rfl⟩ := step_recycled.mp h
    exact hs.frame ⟨rfl,rfl,rfl⟩ rfl (setThread_refresh hs.threads (by simp)) rfl
  | attempt =>
    obtain ⟨hl,rfl⟩ := step_attempt.mp h
    constructor
    · exact hs.threads
    · have hold := hs.host
      show HostMode _ s.host
      cases hh : s.host with
      | refresh pc =>
        rw [hh] at hold
        rw [hold.1] at hl
        simp [Obj.live] at hl
      | callback pc => exact SameMode.settled ⟨rfl,rfl,rfl⟩ (hs.settled hh)
    · simp
  | connected err =>
    obtain ⟨hh,_,rfl⟩ := step_connected.mp h
    constructor
    · exact hs.threads
    · exact SameMode.settled ⟨rfl,rfl,rfl⟩ (hs.settled hh)
    · intro slow filtered ho
      dsimp only at ho
      split at ho <;> simp at ho
  | security level err =>
    obtain ⟨hh,_,rfl⟩ := step_security.mp h
    exact ⟨hs.threads,hs.settled hh,hs.live⟩
  | pairingComplete addr =>
    obtain ⟨_,ho,rfl⟩ := step_pairingComplete.mp h
    constructor
    · exact hs.threads
    · exact ⟨ho,trivial⟩
    · intro slow filtered hr
      dsimp only at hr
      rw [ho] at hr
      simp at hr
  | disconnected =>
    obtain ⟨hh,_,rfl⟩ := step_disconnected.mp h
    exact ⟨hs.threads,SameMode.settled ⟨rfl,rfl,rfl⟩ (hs.settled hh),by simp⟩
  | host err => exact host_advertising hs hc h
  | returned =>
    obtain ⟨hh,_,rfl⟩ := step_returned.mp h
    constructor
    · exact hs.threads
    · show HostMode _ s.host
      rw [hh]
      exact SameMode.settled ⟨rfl,rfl,rfl⟩ (hs.settled hh)
    · simp

theorem step_mode (hs : Mode s) (hc : AcceptCallsSucceed s a) (h : step s a = some t) : Mode t := by
  rcases hs with ⟨pc,hb⟩ | hs
  · exact booting_mode hb hc h
  · exact Or.inr (advertising_mode hs hc h)

theorem Mode.not_live (hs : Mode s) (hr : Refreshing s) : s.radio.obj.live = false := by
  rcases hs with ⟨pc,hb⟩ | hs
  · rw [hb.obj]
    rfl
  · rcases hr with ⟨pc,hh⟩ | ⟨T,pc,hT⟩
    · have hold := hs.host
      rw [hh] at hold
      rw [hold.1]
      rfl
    · exact absurd hT (hs.threads T pc)

theorem acceptCall_refreshing (h : acceptCall s a = true) : Refreshing s := by
  cases a with
  | run T err sync =>
    simp only [acceptCall] at h
    cases hT : s.threads T with
    | none => simp [hT, atRefresh] at h
    | some pc =>
      cases pc with
      | refresh pc => exact Or.inr ⟨T,pc,hT⟩
      | _ => simp [hT, atRefresh] at h
  | host err =>
    cases hh : s.host with
    | refresh pc => exact Or.inl ⟨pc,hh⟩
    | callback pc => simp [acceptCall, hh] at h
  | _ => simp [acceptCall] at h

theorem refreshNext_list {r : Radio} {err : ℤ} {pc : RefreshPc} (h : callsAcceptList pc = false) :
    (refreshNext r err pc).1.acceptList = r.acceptList := by
  cases pc with
  | clear => simp [callsAcceptList] at h
  | add rest bonds =>
    cases rest with
    | nil => rfl
    | cons => simp [callsAcceptList] at h
  | _ => rfl

theorem acceptList_kept (ha : acceptCall s a = false) (h : step s a = some t) :
    t.radio.acceptList = s.radio.acceptList := by
  cases a with
  | wait ms =>
    obtain rfl := step_wait.mp h
    rfl
  | expire w =>
    obtain ⟨v,_,rfl⟩ := step_expire.mp h
    cases w <;> rfl
  | enter w =>
    obtain ⟨_,v,_,rfl⟩ := step_enter.mp h
    cases w <;> rfl
  | run T err sync =>
    obtain ⟨p,r,q,hT,_,hn,rfl⟩ := step_run.mp h
    cases p with
    | refresh pc =>
      obtain ⟨rfl,_⟩ := Prod.mk.inj (Option.some.inj hn)
      exact refreshNext_list (by simpa [acceptCall, hT, atRefresh] using ha)
    | _ => exact (pcNext_mode (by simp) hn).1.acceptList
  | recycled =>
    obtain ⟨_,_,rfl⟩ := step_recycled.mp h
    rfl
  | attempt =>
    obtain ⟨_,rfl⟩ := step_attempt.mp h
    rfl
  | connected err =>
    obtain ⟨_,_,rfl⟩ := step_connected.mp h
    rfl
  | security level err =>
    obtain ⟨_,_,rfl⟩ := step_security.mp h
    rfl
  | pairingComplete addr =>
    obtain ⟨_,_,rfl⟩ := step_pairingComplete.mp h
    rfl
  | disconnected =>
    obtain ⟨_,_,rfl⟩ := step_disconnected.mp h
    rfl
  | host err =>
    obtain ⟨_,r,host,hn,rfl⟩ := step_host.mp h
    cases hh : s.host with
    | refresh pc =>
      rw [hh] at hn
      obtain ⟨rfl,_⟩ := Prod.mk.inj (Option.some.inj hn)
      exact refreshNext_list (by simpa [acceptCall, hh] using ha)
    | callback pc =>
      rw [hh] at hn
      simp only [hostStep, Option.map_eq_some_iff, Prod.mk.injEq] at hn
      obtain ⟨_,_,rfl,_⟩ := hn
      rfl
  | returned =>
    obtain ⟨_,_,rfl⟩ := step_returned.mp h
    rfl

/-- From the guard to its start, an `advertising_start` or a slow switch finds no
link, and a refresh behind the boot has one. -/
theorem Mode.not_refreshing {T : Thread} {pc : Pc} (hs : Mode s) (ht : Truthful s)
    (hT : s.threads T = some pc) (hst : starts pc = true)
    (hconn : s.radio.main.currentConn = false) : ¬Refreshing s := by
  intro hr
  rcases hs with ⟨p,hb⟩ | hs
  · rw [hb.threads] at hT
    cases T with
    | boot =>
      obtain rfl := Option.some.inj hT
      simp [starts] at hst
    | _ => simp [Threads.get] at hT
  · rcases hr with ⟨p,hh⟩ | ⟨T',p,hT'⟩
    · have hf := ht.host
      have hold := hs.host
      rw [hh] at hf hold
      have hlink : s.radio.main.currentConn = (s.radio.obj == .link) := hf
      rw [hold.1, hconn] at hlink
      simp at hlink
    · exact hs.threads T' p hT'

/-- The accept list changes only while no advertiser is live. A live advertiser is
filtered exactly when there is a bond, and then the accept list is the bonds.
The mode a starter reads is not written between its guard and its start. -/
theorem locked_mode_enforced (factoryReset : Bool) (unpairErr : ℤ) (left restored : List ℕ)
    (es : List Label) (s : State)
    (h : run step es (init (bootBonds factoryReset unpairErr left restored)) = some s)
    (hc : AllSteps step AcceptCallsSucceed es
      (init (bootBonds factoryReset unpairErr left restored))) :
    (∀ a t, step s a = some t →
      acceptCall s a = true ∨ t.radio.acceptList ≠ s.radio.acceptList →
      s.radio.obj.live = false) ∧
    (∀ slow filtered, s.radio.obj = .advertiser slow filtered →
      filtered = decide (s.radio.bonds ≠ []) ∧
        (s.radio.bonds ≠ [] → s.radio.acceptList = s.radio.bonds)) ∧
    (∀ T pc, s.threads T = some pc → starts pc = true → ¬Refreshing s) := by
  have hs : Mode s := invariant_of (I := Mode) (Or.inl ⟨.count,init_booting _⟩)
    (fun _ _ _ hi hc ht => step_mode hi hc ht) h hc
  have ht : Truthful s := invariant (init_truthful _) (fun _ _ _ hi ht => step_truthful hi ht) h
  refine ⟨?_,?_,?_⟩
  · intro a t hst hcall
    apply hs.not_live
    apply acceptCall_refreshing (a := a)
    by_contra hno
    have hkept := acceptList_kept (by simpa using hno) hst
    exact hcall.elim hno (fun hne => hne hkept)
  · intro slow filtered ho
    rcases hs with ⟨pc,hb⟩ | hs
    · rw [hb.obj] at ho
      simp at ho
    · have hold := hs.host
      cases hh : s.host with
      | refresh pc =>
        rw [hh] at hold
        rw [hold.1] at ho
        simp at ho
      | callback pc =>
        rw [hh] at hold
        rw [hs.live slow filtered ho]
        exact hold
  · intro T pc hT hst
    have hconn := (adv_active_truth _ es s h).2.1 T pc hT hst
    exact hs.not_refreshing ht hT hst hconn.2

def newOwner : List Label :=
  List.flatten [List.replicate 7 (.run .boot 0 false), [.attempt, .connected 0],
    List.replicate 3 (.host 0), [.pairingComplete 7], List.replicate 5 (.host 0), [.disconnected],
    List.replicate 4 (.host 0), [.returned, .recycled],
    List.replicate 4 (.run .recycled 0 false)]

def lockedAgain : State :=
  { init [7] with
    radio := { (init [7]).radio with
      main :=
        { boot true with
          advActive := true
          rxDataReady := true
          advSlowWork := ⟨some advFastDuration,false,.returned⟩ }
      obj := .advertiser false true
      acceptList := [7] }
    threads := ⟨none,none,none⟩ }

theorem locked_mode_enforced_new_owner :
    true = decide (lockedAgain.radio.bonds ≠ []) ∧
      (lockedAgain.radio.bonds ≠ [] → lockedAgain.radio.acceptList = lockedAgain.radio.bonds) :=
  (locked_mode_enforced true 0 [] [3] newOwner lockedAgain (by decide) (by decide)).2.1 false true
    rfl

end NrfProxy.LockedMode
