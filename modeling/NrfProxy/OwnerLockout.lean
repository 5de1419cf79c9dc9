import NrfProxy.LockedMode

/-!
# A failed rebuild of the accept list

`refresh_locked_mode` sets the mode by the number of bonds, whatever its calls
have answered. The answers change the accept list and nothing else, so that
every run takes the steps of one whose calls succeed. A bond is missing from the
list in locked mode exactly after a failed `bt_le_filter_accept_list_add` of an
address which is not on it.
-/

set_option autoImplicit false

namespace NrfProxy.OwnerLockout
open NrfProxy.Runs NrfProxy.Delayable NrfProxy.ProxyCore NrfProxy.MainState NrfProxy.Advertiser
open NrfProxy.AdvertiserInvariant NrfProxy.LockedMode

def refreshStep (s : State) : Label → Option RefreshPc
  | .run T _ _ =>
    match s.threads T with
    | some (.refresh pc) => some pc
    | _ => none
  | .host _ =>
    match s.host with
    | .refresh pc => some pc
    | .callback _ => none
  | _ => none

/-- A failed add is for an address which is on the list, or whose turn comes again. -/
def AddStands (r : Radio) (err : ℤ) : Option RefreshPc → Prop
  | some (.add (addr::rest) _) => err = 0 ∨ addr ∈ r.acceptList ∨ addr ∈ rest
  | _ => True

instance (r : Radio) (err : ℤ) : ∀ o, Decidable (AddStands r err o)
  | some (.add (_::_) _) => inferInstanceAs (Decidable (_ ∨ _ ∨ _))
  | none | some .count | some (.clear _) | some (.add [] _) | some (.setMode _) => .isTrue trivial

def AddsStand (s : State) (a : Label) : Prop := AddStands s.radio (answer a) (refreshStep s a)

instance (s : State) (a : Label) : Decidable (AddsStand s a) :=
  inferInstanceAs (Decidable (AddStands _ _ _))

def setList (r : Radio) (list : List ℕ) : Radio := { r with acceptList := list }

def withList (s : State) (list : List ℕ) : State := { s with radio := setList s.radio list }

/-- The same step, with an accept list call answered 0. -/
def quiet (s : State) : Label → Label
  | .run T err sync => .run T (if acceptCall s (.run T err sync) then 0 else err) sync
  | .host err => .host (if acceptCall s (.host err) then 0 else err)
  | a => a

theorem refreshNext_setList (r : Radio) (list : List ℕ) (err err' : ℤ) (pc : RefreshPc) :
    ∃ list', refreshNext (setList r list) err' pc =
      (setList (refreshNext r err pc).1 list',(refreshNext r err pc).2) := by
  cases pc with
  | add rest bonds => cases rest <;> exact ⟨_,rfl⟩
  | _ => exact ⟨_,rfl⟩

theorem btLeAdvStart_setList {slow : Bool} {err : ℤ} {r r' : Radio} (list : List ℕ)
    (h : btLeAdvStart slow err r = some r') :
    btLeAdvStart slow err (setList r list) = some (setList r' list) := by
  unfold btLeAdvStart at *
  split at h
  · obtain ⟨hf,hr⟩ := Option.ite_none_right_eq_some.mp h
    obtain rfl := Option.some.inj hr
    rw [if_pos ‹_›, if_pos (show (setList r list).obj = .free from hf)]
    rfl
  · obtain rfl := Option.some.inj h
    rw [if_neg ‹_›]

theorem startNext_setList {r r' : Radio} {err : ℤ} {pc : StartPc} {q : Option StartPc}
    (list : List ℕ) (h : startNext r err pc = some (r',q)) :
    startNext (setList r list) err pc = some (setList r' list,q) := by
  cases pc with
  | start =>
    simp only [startNext, Option.map_eq_some_iff, Prod.mk.injEq] at h
    obtain ⟨d,hd,rfl,rfl⟩ := h
    simp only [startNext, btLeAdvStart_setList list hd, Option.map_some]
  | _ =>
    obtain ⟨rfl,rfl⟩ := Prod.mk.inj (Option.some.inj h)
    rfl

theorem slowNext_setList {r r' : Radio} {err : ℤ} {sync : Bool} {pc : SlowPc} {q : Option SlowPc}
    (list : List ℕ) (h : slowNext r err sync pc = some (r',q)) :
    slowNext (setList r list) err sync pc = some (setList r' list,q) := by
  cases pc with
  | stop =>
    simp only [slowNext] at h ⊢
    show (if err = 0 then if r.obj.live then _ else _ else _) = _
    split_ifs at h <;> obtain ⟨rfl,rfl⟩ := Prod.mk.inj (Option.some.inj h) <;> simp_all <;> rfl
  | nested pc =>
    simp only [slowNext, Option.map_eq_some_iff, Prod.mk.injEq] at h
    obtain ⟨⟨d,p⟩,hd,rfl,rfl⟩ := h
    simp only [slowNext, startNext_setList list hd, Option.map_some]
  | start =>
    simp only [slowNext, Option.map_eq_some_iff, Prod.mk.injEq] at h
    obtain ⟨d,hd,rfl,rfl⟩ := h
    simp only [slowNext, btLeAdvStart_setList list hd, Option.map_some]
  | store err =>
    simp only [slowNext, Option.some.injEq] at h ⊢
    split_ifs at h ⊢ <;> obtain ⟨rfl,rfl⟩ := Prod.mk.inj h <;> rfl
  | _ =>
    obtain ⟨rfl,rfl⟩ := Prod.mk.inj (Option.some.inj h)
    rfl

theorem pcNext_setList {r r' : Radio} {err : ℤ} {sync : Bool} {pc : Pc} {q : Option Pc}
    (list : List ℕ) (hpc : ∀ p, pc ≠ .refresh p) (h : pcNext r err sync pc = some (r',q)) :
    pcNext (setList r list) err sync pc = some (setList r' list,q) := by
  cases pc with
  | refresh pc => exact absurd rfl (hpc pc)
  | start pc =>
    simp only [pcNext, Option.map_eq_some_iff, Prod.mk.injEq] at h
    obtain ⟨⟨d,p⟩,hd,rfl,rfl⟩ := h
    simp only [pcNext, startNext_setList list hd, Option.map_some]
  | slow pc =>
    simp only [pcNext, Option.map_eq_some_iff, Prod.mk.injEq] at h
    obtain ⟨⟨d,p⟩,hd,rfl,rfl⟩ := h
    simp only [pcNext, slowNext_setList list hd, Option.map_some]

variable {s t : State} {a : Label}

theorem thread_quiet {T : Thread} {err : ℤ} {sync : Bool} (list : List ℕ)
    (h : step s (.run T err sync) = some t) :
    ∃ list', step (withList s list) (quiet s (.run T err sync)) = some (withList t list') := by
  obtain ⟨pc,r,q,hT,hfree,hn,rfl⟩ := step_run.mp h
  by_cases hpc : ∃ p, pc = .refresh p
  · obtain ⟨p,rfl⟩ := hpc
    obtain ⟨rfl,rfl⟩ := Prod.mk.inj (Option.some.inj hn)
    obtain ⟨list',hl⟩ := refreshNext_setList s.radio list err
      (if acceptCall s (.run T err sync) then 0 else err) p
    refine ⟨list',step_run.mpr ⟨.refresh p,_,_,hT,hfree,?_,rfl⟩⟩
    show some (_,_) = _
    rw [show (withList s list).radio = setList s.radio list from rfl, hl]
  · have hquiet : acceptCall s (.run T err sync) = false := by
      cases pc with
      | refresh p => exact absurd ⟨p,rfl⟩ hpc
      | _ => simp [acceptCall, hT, atRefresh]
    refine ⟨list,step_run.mpr ⟨pc,_,q,hT,hfree,?_,rfl⟩⟩
    rw [hquiet]
    exact pcNext_setList list (fun p hp => hpc ⟨p,hp⟩) hn

theorem host_quiet {err : ℤ} (list : List ℕ) (h : step s (.host err) = some t) :
    ∃ list', step (withList s list) (quiet s (.host err)) = some (withList t list') := by
  obtain ⟨hfree,r,host,hn,rfl⟩ := step_host.mp h
  cases hh : s.host with
  | refresh p =>
    rw [hh] at hn
    obtain ⟨rfl,rfl⟩ := Prod.mk.inj (Option.some.inj hn)
    obtain ⟨list',hl⟩ := refreshNext_setList s.radio list err
      (if acceptCall s (.host err) then 0 else err) p
    refine ⟨list',step_host.mpr ⟨hfree,_,_,?_,rfl⟩⟩
    rw [show (withList s list).host = .refresh p from hh]
    show some (_,_) = _
    rw [show (withList s list).radio = setList s.radio list from rfl, hl]
  | callback p =>
    rw [hh] at hn
    simp only [hostStep, Option.map_eq_some_iff, Prod.mk.injEq] at hn
    obtain ⟨⟨n,q⟩,hn,rfl,rfl⟩ := hn
    refine ⟨list,step_host.mpr ⟨hfree,_,_,?_,rfl⟩⟩
    rw [show (withList s list).host = .callback p from hh]
    show (hostNext s.radio.main p).map _ = _
    rw [hn]
    rfl

theorem step_quiet (list : List ℕ) (h : step s a = some t) :
    ∃ list', step (withList s list) (quiet s a) = some (withList t list') := by
  cases a with
  | run T err sync => exact thread_quiet list h
  | host err => exact host_quiet list h
  | wait ms =>
    obtain rfl := step_wait.mp h
    exact ⟨list,rfl⟩
  | expire w =>
    obtain ⟨v,hv,rfl⟩ := step_expire.mp h
    exact ⟨list,step_expire.mpr ⟨v,hv,rfl⟩⟩
  | enter w =>
    obtain ⟨hT,v,hv,rfl⟩ := step_enter.mp h
    exact ⟨list,step_enter.mpr ⟨hT,v,hv,rfl⟩⟩
  | recycled =>
    obtain ⟨ho,hT,rfl⟩ := step_recycled.mp h
    exact ⟨list,step_recycled.mpr ⟨ho,hT,rfl⟩⟩
  | attempt =>
    obtain ⟨hl,rfl⟩ := step_attempt.mp h
    exact ⟨list,step_attempt.mpr ⟨hl,rfl⟩⟩
  | connected err =>
    obtain ⟨hh,ho,rfl⟩ := step_connected.mp h
    exact ⟨list,step_connected.mpr ⟨hh,ho,rfl⟩⟩
  | security level err =>
    obtain ⟨hh,ho,rfl⟩ := step_security.mp h
    exact ⟨list,step_security.mpr ⟨hh,ho,rfl⟩⟩
  | pairingComplete addr =>
    obtain ⟨hh,ho,rfl⟩ := step_pairingComplete.mp h
    exact ⟨list,step_pairingComplete.mpr ⟨hh,ho,rfl⟩⟩
  | disconnected =>
    obtain ⟨hh,ho,rfl⟩ := step_disconnected.mp h
    exact ⟨list,step_disconnected.mpr ⟨hh,ho,rfl⟩⟩
  | returned =>
    obtain ⟨hh,ho,rfl⟩ := step_returned.mp h
    exact ⟨list,step_returned.mpr ⟨hh,ho,rfl⟩⟩

theorem quiet_succeeds (s : State) (a : Label) (list : List ℕ) :
    AcceptCallsSucceed (withList s list) (quiet s a) := by
  intro hcall _
  cases a with
  | run T err sync => exact if_pos hcall
  | host err => exact if_pos hcall
  | _ => rfl

/-- Every run takes the steps of a run whose accept list calls succeed. -/
theorem run_quiet {as : List Label} (list : List ℕ) (h : run step as s = some t) :
    ∃ bs list', run step bs (withList s list) = some (withList t list') ∧
      AllSteps step AcceptCallsSucceed bs (withList s list) := by
  induction as generalizing s list with
  | nil =>
    obtain rfl : s = t := Option.some.inj h
    exact ⟨[],list,rfl,trivial⟩
  | cons a as ih =>
    obtain ⟨r,hr,hrest⟩ := Option.bind_eq_some_iff.mp h
    obtain ⟨list',hl⟩ := step_quiet list hr
    obtain ⟨bs,last,hrun,hok⟩ := ih list' hrest
    refine ⟨quiet s a::bs,last,?_,quiet_succeeds s a list,?_⟩
    · simpa only [run, hl, Option.bind_some] using hrun
    · simpa only [hl, Option.elim_some] using hok

/-- What does not depend on the answers: where a refresh runs, and by what mode
an advertiser has been started. -/
structure Shape (s : State) : Prop where
  boot : ∀ T pc, s.threads T = some (.refresh pc) →
    s.threads = ⟨some (.refresh pc),none,none⟩ ∧ s.host = .callback .idle ∧ s.radio.obj = .free
  host : ∀ pc, s.host = .refresh pc → s.radio.obj = .link
  live : ∀ slow filtered, s.radio.obj = .advertiser slow filtered →
    filtered = s.radio.main.lockedMode

theorem mode_shape {list : List ℕ} (h : Mode (withList s list)) : Shape s := by
  rcases h with ⟨pc,hb⟩ | hs
  · have hth : s.threads = ⟨some (.refresh pc),none,none⟩ := hb.threads
    have hobj : s.radio.obj = .free := hb.obj
    have hhost : s.host = .callback .idle := hb.host
    refine ⟨?_,?_,?_⟩
    · intro T p hT
      rw [hth] at hT ⊢
      cases T with
      | boot =>
        obtain rfl : pc = p := by simpa [Threads.get] using hT
        exact ⟨rfl,hhost,hobj⟩
      | _ => simp [Threads.get] at hT
    · intro p hp
      simp [hhost] at hp
    · intro slow filtered ho
      simp [hobj] at ho
  · refine ⟨fun T pc hT => absurd hT (hs.threads T pc),?_,hs.live⟩
    intro pc hh
    have hold := hs.host
    rw [show (withList s list).host = .refresh pc from hh] at hold
    exact hold.1

theorem run_shape {bonds : List ℕ} {as : List Label} (h : run step as (init bonds) = some s) :
    Shape s := by
  obtain ⟨bs,list,hrun,hok⟩ := run_quiet [] h
  exact mode_shape (invariant_of (I := Mode) (Or.inl ⟨.count,init_booting bonds⟩)
    (fun _ _ _ hi hc ht => step_mode hi hc ht) hrun hok)

def Running (s : State) (pc : RefreshPc) : Prop :=
  s.host = .refresh pc ∨ ∃ T, s.threads T = some (.refresh pc)

/-- `F` holds where a refresh stands, and `S` where none is running. -/
structure Kept (F : Radio → RefreshPc → Prop) (S : Radio → Prop) (s : State) : Prop where
  running : ∀ pc, Running s pc → F s.radio pc
  settled : (∀ pc, ¬Running s pc) → S s.radio

theorem refreshStep_some {pc : RefreshPc} (h : refreshStep s a = some pc) :
    (∃ T err sync, a = .run T err sync ∧ s.threads T = some (.refresh pc)) ∨
      ∃ err, a = .host err ∧ s.host = .refresh pc := by
  cases a with
  | run T err sync =>
    cases hT : s.threads T with
    | none => simp [refreshStep, hT] at h
    | some p =>
      cases p with
      | refresh p =>
        obtain rfl : p = pc := by simpa [refreshStep, hT] using h
        exact Or.inl ⟨T,err,sync,rfl,hT⟩
      | _ => simp [refreshStep, hT] at h
  | host err =>
    cases hh : s.host with
    | refresh p =>
      obtain rfl : p = pc := by simpa [refreshStep, hh] using h
      exact Or.inr ⟨err,rfl,rfl⟩
    | callback p => simp [refreshStep, hh] at h
  | _ => simp [refreshStep] at h

theorem refreshStep_running {pc : RefreshPc} (h : refreshStep s a = some pc) : Running s pc := by
  rcases refreshStep_some h with ⟨T,_,_,_,hT⟩ | ⟨_,_,hh⟩
  · exact Or.inr ⟨T,hT⟩
  · exact Or.inl hh

theorem setThread_running {threads : Threads} {T : Thread} {q : Option Pc} {pc : RefreshPc}
    (h : threads T ≠ some (.refresh pc)) (hq : q ≠ some (.refresh pc)) :
    (∃ T', setThread threads T q T' = some (.refresh pc)) ↔
      ∃ T', threads T' = some (.refresh pc) := by
  constructor <;> rintro ⟨T',hT'⟩ <;> by_cases he : T' = T
  · subst he
    rw [setThread_self] at hT'
    exact absurd hT' hq
  · rw [setThread_of_ne he] at hT'
    exact ⟨T',hT'⟩
  · subst he
    exact absurd hT' h
  · exact ⟨T',by rw [setThread_of_ne he, hT']⟩

theorem other_step (hn : refreshStep s a = none) (hp : ∀ addr, a ≠ .pairingComplete addr)
    (h : step s a = some t) : SameMode s.radio t.radio ∧ ∀ pc, Running t pc ↔ Running s pc := by
  cases a with
  | wait ms =>
    obtain rfl := step_wait.mp h
    exact ⟨⟨rfl,rfl,rfl⟩,fun _ => Iff.rfl⟩
  | expire w =>
    obtain ⟨v,_,rfl⟩ := step_expire.mp h
    cases w <;> exact ⟨⟨rfl,rfl,rfl⟩,fun _ => Iff.rfl⟩
  | enter w =>
    obtain ⟨hT,v,_,rfl⟩ := step_enter.mp h
    cases w <;> exact ⟨⟨rfl,rfl,rfl⟩,fun _ => or_congr Iff.rfl
      (setThread_running (by simp [hT]) (by simp [handler]))⟩
  | run T err sync =>
    obtain ⟨pc,r,q,hT,_,hm,rfl⟩ := step_run.mp h
    have hpc (p : RefreshPc) : pc ≠ .refresh p := by
      rintro rfl
      simp [refreshStep, hT] at hn
    obtain ⟨hsame,_,hq⟩ := pcNext_mode hpc hm
    exact ⟨hsame,fun p => or_congr Iff.rfl
      (setThread_running (by simpa [hT] using hpc p) (hq p))⟩
  | recycled =>
    obtain ⟨_,hT,rfl⟩ := step_recycled.mp h
    exact ⟨⟨rfl,rfl,rfl⟩,fun _ => or_congr Iff.rfl
      (setThread_running (by simp [hT]) (by simp))⟩
  | attempt =>
    obtain ⟨_,rfl⟩ := step_attempt.mp h
    exact ⟨⟨rfl,rfl,rfl⟩,fun _ => Iff.rfl⟩
  | connected err =>
    obtain ⟨hh,_,rfl⟩ := step_connected.mp h
    exact ⟨⟨rfl,rfl,rfl⟩,fun _ => or_congr (by simp [hh]) Iff.rfl⟩
  | security level err =>
    obtain ⟨hh,_,rfl⟩ := step_security.mp h
    exact ⟨⟨rfl,rfl,rfl⟩,fun _ => or_congr (by simp [hh]) Iff.rfl⟩
  | pairingComplete addr => exact absurd rfl (hp addr)
  | disconnected =>
    obtain ⟨hh,_,rfl⟩ := step_disconnected.mp h
    exact ⟨⟨rfl,rfl,rfl⟩,fun _ => or_congr (by simp [hh]) Iff.rfl⟩
  | host err =>
    obtain ⟨_,r,host,hm,rfl⟩ := step_host.mp h
    cases hh : s.host with
    | refresh p => simp [refreshStep, hh] at hn
    | callback p =>
      rw [hh] at hm
      simp only [hostStep, Option.map_eq_some_iff, Prod.mk.injEq] at hm
      obtain ⟨⟨n,q⟩,hm,rfl,rfl⟩ := hm
      exact ⟨⟨rfl,rfl,(hostNext_keeps hm).lockedMode⟩,fun _ => or_congr (by simp [hh]) Iff.rfl⟩
  | returned =>
    obtain ⟨_,_,rfl⟩ := step_returned.mp h
    exact ⟨⟨rfl,rfl,rfl⟩,fun _ => Iff.rfl⟩

theorem Shape.alone {T T' : Thread} {pc : RefreshPc} {p : Pc} (hs : Shape s)
    (hT : s.threads T = some (.refresh pc)) (hT' : s.threads T' = some p) : T' = T := by
  obtain ⟨hth,_,_⟩ := hs.boot T pc hT
  rw [hth] at hT hT'
  cases T <;> cases T' <;> first | rfl | simp [Threads.get] at hT hT'

theorem refresh_step {pc : RefreshPc} (hs : Shape s) (hr : refreshStep s a = some pc)
    (h : step s a = some t) : t.radio = (refreshNext s.radio (answer a) pc).1 ∧
      ∀ p, Running t p ↔ (refreshNext s.radio (answer a) pc).2 = some p := by
  rcases refreshStep_some hr with ⟨T,err,sync,rfl,hT⟩ | ⟨err,rfl,hh⟩
  · obtain ⟨_,hh,_⟩ := hs.boot T pc hT
    obtain ⟨p,r,q,hT',_,hn,rfl⟩ := step_run.mp h
    obtain rfl : .refresh pc = p := Option.some.inj (hT.symm.trans hT')
    obtain ⟨rfl,rfl⟩ := Prod.mk.inj (Option.some.inj hn)
    refine ⟨rfl,?_⟩
    intro p
    have hnext : some ((refreshNext s.radio err pc).2.elim (.start .guard) .refresh) =
        some (Pc.refresh p) ↔ (refreshNext s.radio err pc).2 = some p := by
      cases (refreshNext s.radio err pc).2 <;> simp
    refine Iff.trans ?_ hnext
    constructor
    · rintro (hp | ⟨T',hp⟩)
      · rw [show s.host = .refresh p from hp] at hh
        simp at hh
      · by_cases he : T' = T
        · subst he
          simpa using hp
        · dsimp only at hp
          rw [setThread_of_ne he] at hp
          exact absurd (hs.alone hT hp) he
    · intro hp
      exact Or.inr ⟨T,(setThread_self _ _ _).trans hp⟩
  · obtain ⟨_,r,host,hn,rfl⟩ := step_host.mp h
    rw [hh] at hn
    obtain ⟨rfl,rfl⟩ := Prod.mk.inj (Option.some.inj hn)
    refine ⟨rfl,?_⟩
    intro p
    have hnext : (refreshNext s.radio err pc).2.elim (.callback .idle) .refresh =
        HostTask.refresh p ↔ (refreshNext s.radio err pc).2 = some p := by
      cases (refreshNext s.radio err pc).2 <;> simp
    refine Iff.trans ?_ hnext
    constructor
    · rintro (hp | ⟨T',hp⟩)
      · exact hp
      · rw [(hs.boot T' p hp).2.1] at hh
        simp at hh
    · exact Or.inl

variable {F : Radio → RefreshPc → Prop} {S : Radio → Prop}

/-- What the steps of a refresh keep, and what does not depend on the rest of
the state, is kept by every step. -/
theorem Kept.step (hk : Kept F S s) (hs : Shape s)
    (hF : ∀ {r r' pc}, SameMode r r' → F r pc → F r' pc)
    (hS : ∀ {r r'}, SameMode r r' → S r → S r')
    (hnext : ∀ pc, refreshStep s a = some pc → F s.radio pc →
      (refreshNext s.radio (answer a) pc).2.elim (S (refreshNext s.radio (answer a) pc).1)
        (F (refreshNext s.radio (answer a) pc).1))
    (hpair : ∀ addr, a = .pairingComplete addr → F t.radio .count) (h : step s a = some t) :
    Kept F S t := by
  cases hr : refreshStep s a with
  | some pc =>
    obtain ⟨hradio,hrun⟩ := refresh_step hs hr h
    have hF' := hnext pc hr (hk.running pc (refreshStep_running hr))
    rw [← hradio] at hF'
    cases hq : (refreshNext s.radio (answer a) pc).2 with
    | some pc' =>
      rw [hq] at hF' hrun
      constructor
      · intro p hp
        obtain rfl := Option.some.inj ((hrun p).mp hp)
        exact hF'
      · exact fun hno => absurd ((hrun pc').mpr rfl) (hno pc')
    | none =>
      rw [hq] at hF' hrun
      constructor
      · intro p hp
        simpa using (hrun p).mp hp
      · exact fun _ => hF'
  | none =>
    by_cases hp : ∃ addr, a = .pairingComplete addr
    · obtain ⟨addr,rfl⟩ := hp
      obtain ⟨_,ho,rfl⟩ := step_pairingComplete.mp h
      constructor
      · rintro pc (hh | ⟨T,hT⟩)
        · cases hh
          exact hpair addr rfl
        · rw [(hs.boot T pc hT).2.2] at ho
          simp at ho
      · exact fun hno => absurd (Or.inl rfl) (hno .count)
    · obtain ⟨hsame,hrun⟩ := other_step hr (fun addr ha => hp ⟨addr,ha⟩) h
      constructor
      · exact fun pc hpc => hF hsame (hk.running pc ((hrun pc).mp hpc))
      · exact fun hno => hS hsame (hk.settled (fun pc hpc => hno pc ((hrun pc).mpr hpc)))

def Listed (r : Radio) : Prop := ∀ addr ∈ r.bonds, addr ∈ r.acceptList

/-- Every bond is on the list or will be added. -/
def ListFits (r : Radio) : RefreshPc → Prop
  | .count => True
  | .clear bonds => bonds = r.bonds.length
  | .add rest _ => ∀ addr ∈ r.bonds, addr ∈ r.acceptList ∨ addr ∈ rest
  | .setMode _ => Listed r

theorem SameMode.listed {r r' : Radio} (h : SameMode r r') (hl : Listed r) : Listed r' := by
  unfold Listed
  rw [h.bonds, h.acceptList]
  exact hl

theorem SameMode.listFits {r r' : Radio} {pc : RefreshPc} (h : SameMode r r')
    (hf : ListFits r pc) : ListFits r' pc := by
  cases pc <;> simp only [ListFits, Listed, h.bonds, h.acceptList] at * <;> exact hf

theorem refreshNext_listFits {r : Radio} {err : ℤ} {pc : RefreshPc} (hf : ListFits r pc)
    (hc : AddStands r err (some pc)) :
    (refreshNext r err pc).2.elim (Listed (refreshNext r err pc).1)
      (ListFits (refreshNext r err pc).1) := by
  cases pc with
  | count => exact rfl
  | clear bonds =>
    obtain rfl : bonds = r.bonds.length := hf
    by_cases hb : 0 < r.bonds.length
    · simp only [refreshNext, if_pos hb]
      exact fun addr ha => Or.inr ha
    · have hnil : r.bonds = [] := by simpa using hb
      simp only [refreshNext, if_neg hb]
      intro addr ha
      simp [hnil] at ha
  | add rest bonds =>
    cases rest with
    | nil => exact fun addr ha => (hf addr ha).resolve_right (by simp)
    | cons next rest =>
      have hkept {addr : ℕ} (hl : addr ∈ r.acceptList) :
          addr ∈ if err = 0 then r.acceptList++[next] else r.acceptList := by
        split
        · exact List.mem_append_left _ hl
        · exact hl
      intro addr ha
      rcases hf addr ha with hl | hr
      · exact Or.inl (hkept hl)
      rcases List.mem_cons.mp hr with rfl | hr
      · rcases hc with rfl | hl | hr
        · exact Or.inl (List.mem_append_right _ (List.mem_singleton_self _))
        · exact Or.inl (hkept hl)
        · exact Or.inr hr
      · exact Or.inr hr
  | setMode bonds => exact hf

theorem init_kept (bonds : List ℕ) {F : Radio → RefreshPc → Prop} (S : Radio → Prop)
    (hF : F (init bonds).radio .count) : Kept F S (init bonds) := by
  constructor
  · rintro pc (hh | ⟨T,hT⟩)
    · cases hh
    · cases T <;> cases hT
      exact hF
  · exact fun hno => absurd (Or.inr ⟨.boot,rfl⟩) (hno .count)

theorem Shape.not_running {slow filtered : Bool} (hs : Shape s)
    (ho : s.radio.obj = .advertiser slow filtered) (pc : RefreshPc) : ¬Running s pc := by
  rintro (hh | ⟨T,hT⟩)
  · rw [hs.host pc hh] at ho
    simp at ho
  · rw [(hs.boot T pc hT).2.2] at ho
    simp at ho

/-- Where no failed add leaves its address off the list, every bond is on the
list of a filtered advertiser. -/
theorem filtered_lists_bonds (bonds : List ℕ) (es : List Label) (s : State) (slow : Bool)
    (h : run step es (init bonds) = some s) (hc : AllSteps step AddsStand es (init bonds))
    (ho : s.radio.obj = .advertiser slow true) :
    ∀ addr ∈ s.radio.bonds, addr ∈ s.radio.acceptList := by
  have hk : Kept ListFits Listed s :=
    history (I := fun _ s => Kept ListFits Listed s) (init_kept bonds Listed trivial)
      (fun es s a t hrun hk hc ht => hk.step (run_shape hrun) SameMode.listFits SameMode.listed
        (fun pc hr hf => refreshNext_listFits hf (by simpa [AddsStand, hr] using hc))
        (fun _ _ => trivial) ht) h hc
  exact hk.settled ((run_shape h).not_running ho)

/-- The owner pairs again, and neither the clear nor the add of this refresh
succeeds: the list is still the one of the boot. -/
def pairedAgain : List Label :=
  List.flatten [List.replicate 9 (.run .boot 0 false), [.attempt, .connected 0],
    List.replicate 3 (.host 0),
    [.pairingComplete 7, .host 0, .host (-5), .host (-ENOMEM), .host 0, .host 0, .disconnected],
    List.replicate 4 (.host 0), [.returned, .recycled],
    List.replicate 4 (.run .recycled 0 false)]

theorem filtered_lists_bonds_paired_again : 7 ∈ lockedAgain.radio.acceptList :=
  filtered_lists_bonds [7] pairedAgain lockedAgain false (by decide) (by decide) rfl 7 (by decide)

/-- The add of the only bond fails at boot, and the advertiser accepts nobody. -/
theorem failed_add_accepts_nobody :
    ∃ s, run step ([.run .boot 0 false, .run .boot 0 false, .run .boot (-ENOMEM) false]++
        List.replicate 6 (.run .boot 0 false)) (init [7]) = some s ∧
      s.radio.obj = .advertiser false true ∧ s.radio.bonds = [7] ∧ s.radio.acceptList = [] :=
  ⟨{ init [7] with
      radio := { (init [7]).radio with
        main := { boot true with advActive := true, advSlowWork := ⟨some advFastDuration,false,.returned⟩ }
        obj := .advertiser false true }
      threads := ⟨none,none,none⟩ },by decide,rfl,rfl,rfl⟩

def CountFits (r : Radio) : RefreshPc → Prop
  | .count => True
  | .clear bonds => bonds = r.bonds.length
  | .add rest bonds => bonds = r.bonds.length ∧ ∀ addr ∈ rest, addr ∈ r.bonds
  | .setMode bonds => bonds = r.bonds.length

theorem SameMode.countFits {r r' : Radio} {pc : RefreshPc} (h : SameMode r r')
    (hf : CountFits r pc) : CountFits r' pc := by
  cases pc <;> simp only [CountFits, h.bonds] at * <;> exact hf

theorem refreshNext_countFits {r : Radio} {err : ℤ} {pc : RefreshPc} (hf : CountFits r pc) :
    (refreshNext r err pc).2.elim True (CountFits (refreshNext r err pc).1) := by
  cases pc with
  | count => exact rfl
  | clear bonds =>
    by_cases hb : 0 < bonds
    · simp only [refreshNext, if_pos hb]
      exact ⟨hf,fun _ => id⟩
    · simp only [refreshNext, if_neg hb]
      exact hf
  | add rest bonds =>
    cases rest with
    | nil => exact hf.1
    | cons next rest => exact ⟨hf.1,fun addr ha => hf.2 addr (List.mem_cons_of_mem _ ha)⟩
  | setMode bonds => trivial

def Missing (addr : ℕ) (r : Radio) : RefreshPc → Prop
  | .add rest _ => addr ∈ r.bonds ∧ addr ∉ r.acceptList ∧ addr ∉ rest
  | .setMode _ => addr ∈ r.bonds ∧ addr ∉ r.acceptList
  | _ => False

def LockedOut (addr : ℕ) (r : Radio) : Prop :=
  addr ∈ r.bonds ∧ addr ∉ r.acceptList ∧ r.main.lockedMode = true

theorem SameMode.missing {addr : ℕ} {r r' : Radio} {pc : RefreshPc} (h : SameMode r r')
    (hm : Missing addr r pc) : Missing addr r' pc := by
  cases pc <;> simp only [Missing, h.bonds, h.acceptList] at * <;> exact hm

theorem SameMode.lockedOut {addr : ℕ} {r r' : Radio} (h : SameMode r r')
    (hl : LockedOut addr r) : LockedOut addr r' := by
  unfold LockedOut
  rw [h.bonds, h.acceptList, h.mode]
  exact hl

theorem refreshNext_missing {addr : ℕ} {r : Radio} {err : ℤ} {pc : RefreshPc}
    (hf : CountFits r pc) (hm : Missing addr r pc) :
    (refreshNext r err pc).2.elim (LockedOut addr (refreshNext r err pc).1)
      (Missing addr (refreshNext r err pc).1) := by
  cases pc with
  | count | clear => exact hm.elim
  | add rest bonds =>
    obtain ⟨hbond,hlist,hrest⟩ := hm
    cases rest with
    | nil => exact ⟨hbond,hlist⟩
    | cons next rest =>
      obtain ⟨hne,hrest⟩ := not_or.mp (fun h => hrest (List.mem_cons.mpr h))
      refine ⟨hbond,?_,hrest⟩
      show addr ∉ if err = 0 then r.acceptList++[next] else r.acceptList
      split
      · simp [hlist, hne]
      · exact hlist
  | setMode bonds =>
    obtain rfl : bonds = r.bonds.length := hf
    exact ⟨hm.1,hm.2,decide_eq_true (List.length_pos_of_mem hm.1)⟩

theorem run_countFits {bonds : List ℕ} {es : List Label} (h : run step es (init bonds) = some s) :
    Kept CountFits (fun _ => True) s :=
  history (I := fun _ s => Kept CountFits (fun _ => True) s) (init_kept bonds _ trivial)
    (fun _ _ _ _ hrun hk _ ht => hk.step (run_shape hrun) SameMode.countFits (fun _ _ => trivial)
      (fun _ _ hf => refreshNext_countFits hf) (fun _ _ => trivial) ht) h (allSteps_true _ _)

theorem failed_add_missing {bonds : List ℕ} {es : List Label} {addr n : ℕ} {rest : List ℕ}
    (h : run step es (init bonds) = some s) (hr : refreshStep s a = some (.add (addr::rest) n))
    (hbad : ¬AddsStand s a) (ht : step s a = some t) : Kept (Missing addr) (LockedOut addr) t := by
  obtain ⟨hradio,hrun⟩ := refresh_step (run_shape h) hr ht
  have hcount := (run_countFits h).running _ (refreshStep_running hr)
  simp only [AddsStand, hr, AddStands, not_or] at hbad
  obtain ⟨herr,hlist,hrest⟩ := hbad
  constructor
  · intro pc hpc
    obtain rfl := Option.some.inj ((hrun pc).mp hpc)
    rw [hradio]
    refine ⟨hcount.2 addr (List.mem_cons_self ..),?_,hrest⟩
    show addr ∉ if answer a = 0 then s.radio.acceptList++[addr] else s.radio.acceptList
    rwa [if_neg herr]
  · exact fun hno => absurd ((hrun _).mpr rfl) (hno (.add rest n))

/-- A failed add which leaves its address off the list locks that bond out: until
the next pairing every advertiser is filtered and its list lacks the bond. -/
theorem failed_add_locks_out (bonds : List ℕ) (es post : List Label) (s t u : State) (a : Label)
    (addr n : ℕ) (rest : List ℕ) (slow filtered : Bool) (h : run step es (init bonds) = some s)
    (hr : refreshStep s a = some (.add (addr::rest) n)) (hbad : ¬AddsStand s a)
    (ht : step s a = some t) (hu : run step post t = some u)
    (hp : AllSteps step (fun _ x => ∀ addr, x ≠ .pairingComplete addr) post t)
    (ho : u.radio.obj = .advertiser slow filtered) :
    filtered = true ∧ addr ∈ u.radio.bonds ∧ addr ∉ u.radio.acceptList := by
  obtain ⟨⟨es',hreach⟩,hk⟩ : (∃ es, run step es (init bonds) = some u) ∧
      Kept (Missing addr) (LockedOut addr) u := by
    refine invariant_of (I := fun s => (∃ es, run step es (init bonds) = some s) ∧
      Kept (Missing addr) (LockedOut addr) s) ?_ ?_ hu hp
    · refine ⟨⟨es++[a],?_⟩,failed_add_missing h hr hbad ht⟩
      rw [run_snoc, h]
      exact ht
    · rintro s x t ⟨⟨es,hes⟩,hk⟩ hx hst
      refine ⟨⟨es++[x],?_⟩,?_⟩
      · rw [run_snoc, hes]
        exact hst
      · exact hk.step (run_shape hes) SameMode.missing SameMode.lockedOut
          (fun pc hpc hm => refreshNext_missing
            ((run_countFits hes).running pc (refreshStep_running hpc)) hm)
          (fun addr hx' => absurd hx' (hx addr)) hst
  have hs := run_shape hreach
  obtain ⟨hbond,hlist,hmode⟩ := hk.settled (hs.not_running ho)
  exact ⟨(hs.live slow filtered ho).trans hmode,hbond,hlist⟩

end NrfProxy.OwnerLockout
