import NrfProxy.Advertiser

/-!
# What `adv_active` says

A connection attempt takes the advertiser before its callback can say so, and
the flag stands for the advertiser over the stop and start of the slow switch.
Between these the flag is exact, and whoever finds it set may leave the object
to the thread or callback that set it.
-/

set_option autoImplicit false

namespace NrfProxy.AdvertiserInvariant
open NrfProxy.Runs NrfProxy.Delayable NrfProxy.ProxyCore NrfProxy.MainState NrfProxy.Advertiser

/-- A connected callback has not reached its critical section. -/
def Undelivered (s : State) : Prop :=
  s.radio.obj = .attempt ∨ ∃ err, s.host = .callback (.connLock err)

def hostPc : HostTask → HostPc
  | .callback pc => pc
  | .refresh _ => .idle

def ObjFits (obj : Obj) (conn : Bool) : HostPc → Prop
  | .idle => conn = (obj == .link)
  | .connLock err => conn = false ∧ obj = if err = 0 then .link else .failed
  | .connCancelSlow | .connArmWatchdog | .secEntry _ _ | .secLock | .secCancelWatchdog
  | .secCancelGrace | .secGive => conn = true ∧ obj = .link
  | .discHeld | .discArm | .discCancelWatchdog | .discLock => conn = true ∧ obj = .dropped
  | .discGive => conn = false ∧ obj = .dropped

/-- What the thread in the critical section knows of the advertiser. -/
def PcFits (active conn live : Bool) (undelivered : Prop) : Pc → Prop
  | .start .start => active = false ∧ conn = false ∧ live = false
  | .start (.store err) => active = false ∧ conn = false ∧
      if err = 0 then live = true ∨ undelivered else live = false
  | .slow .stop | .slow .stopFailed => active = true ∧ conn = false ∧ (live = true ∨ undelivered)
  | .slow (.nested pc) => pc = .guard ∧ active = true ∧ conn = false ∧ live = false
  | .slow .start => active = true ∧ conn = false ∧ live = false
  | .slow (.store err) => active = true ∧ conn = false ∧
      if err = 0 then live = true ∨ undelivered else live = false
  | _ => True

structure Truthful (s : State) : Prop where
  host : ObjFits s.radio.obj s.radio.main.currentConn (hostPc s.host)
  active_conn : s.radio.main.advActive = true → s.radio.main.currentConn = false
  fits : ∀ T pc, s.threads T = some pc → PcFits s.radio.main.advActive s.radio.main.currentConn
    s.radio.obj.live (Undelivered s) pc
  alone : ∀ T T' pc pc', s.threads T = some pc → s.threads T' = some pc' →
    inside pc = true → inside pc' = true → T = T'
  truth : locked s.threads = false → Undelivered s ∨ s.radio.main.advActive = s.radio.obj.live

theorem init_truthful (bonds : List ℕ) : Truthful (init bonds) := by
  have hpc (T : Thread) (pc : Pc) (h : (init bonds).threads T = some pc) : pc = .refresh .count := by
    cases T <;> simp_all [init, Threads.get]
  refine ⟨rfl,fun _ => rfl,?_,?_,fun _ => Or.inr rfl⟩
  · intro T pc h
    rw [hpc T pc h]
    trivial
  · intro T T' pc pc' h _ hi _
    rw [hpc T pc h] at hi
    simp [inside] at hi

theorem outside_fits {active conn live : Bool} {undelivered : Prop} {pc : Pc}
    (h : inside pc = false) : PcFits active conn live undelivered pc := by
  cases pc with
  | refresh => trivial
  | start pc => cases pc <;> trivial
  | slow pc => cases pc <;> trivial

variable {s t : State} {a : Label}

theorem undelivered_held (hs : Truthful s) (hu : Undelivered s) :
    s.radio.obj.live = false ∧ s.radio.main.currentConn = false := by
  have hf := hs.host
  rcases hu with ho | ⟨err,hh⟩
  · rw [ho] at hf ⊢
    refine ⟨rfl,?_⟩
    cases hp : hostPc s.host with
    | idle =>
      rw [hp] at hf
      exact hf
    | connLock err | discGive =>
      rw [hp] at hf
      exact hf.1
    | _ => simp [ObjFits, hp] at hf
  · rw [hh] at hf
    refine ⟨?_,hf.1⟩
    rw [hf.2]
    split <;> rfl

theorem Truthful.frame (hs : Truthful s)
    (hth : ∀ T pc, inside pc = true → (t.threads T = some pc ↔ s.threads T = some pc))
    (hact : t.radio.main.advActive = s.radio.main.advActive)
    (hconn : t.radio.main.currentConn = s.radio.main.currentConn)
    (hlive : t.radio.obj.live = s.radio.obj.live) (hund : Undelivered t ↔ Undelivered s)
    (hhost : ObjFits t.radio.obj t.radio.main.currentConn (hostPc t.host)) : Truthful t := by
  refine ⟨hhost,?_,?_,?_,?_⟩
  · rw [hact, hconn]
    exact hs.active_conn
  · intro T pc hT
    by_cases hi : inside pc = true
    · rw [hact, hconn, hlive, propext hund]
      exact hs.fits T pc ((hth T pc hi).mp hT)
    · exact outside_fits (by simpa using hi)
  · intro T T' pc pc' hT hT' hi hi'
    exact hs.alone T T' pc pc' ((hth T pc hi).mp hT) ((hth T' pc' hi').mp hT') hi hi'
  · intro hl
    rw [hact, hlive, propext hund]
    refine hs.truth (locked_false.mpr ?_)
    intro T pc hT
    by_contra hi
    have hi : inside pc = true := by simpa using hi
    rw [locked_false.mp hl T pc ((hth T pc hi).mpr hT)] at hi
    contradiction

structure Move (undelivered : Prop) (r r' : Radio) (pc : Pc) (q : Option Pc) : Prop where
  conn : r'.main.currentConn = r.main.currentConn
  active_conn : r'.main.advActive = true → r'.main.currentConn = false
  fits : ∀ p, q = some p →
    PcFits r'.main.advActive r'.main.currentConn r'.obj.live undelivered p
  outside : inside pc = false → r'.main.advActive = r.main.advActive ∧ r'.obj = r.obj
  leaves : inside pc = true → (∀ p, q = some p → inside p = false) →
    undelivered ∨ r'.main.advActive = r'.obj.live
  obj : r'.obj = r.obj ∨ r.obj = .free ∧ r'.obj.live = true ∨ r.obj.live = true ∧ r'.obj = .free

theorem idle_move {undelivered : Prop} {r r' : Radio} {pc : Pc} {q : Option Pc}
    (hc : r.main.advActive = true → r.main.currentConn = false)
    (hm : r'.main.advActive = r.main.advActive ∧ r'.main.currentConn = r.main.currentConn)
    (ho : r'.obj = r.obj) (hpc : inside pc = false) (hq : ∀ p, q = some p → inside p = false) :
    Move undelivered r r' pc q :=
  ⟨hm.2,by rw [hm.1, hm.2]; exact hc,fun p hp => outside_fits (hq p hp),fun _ => ⟨hm.1,ho⟩,
    by simp [hpc],Or.inl ho⟩

theorem inside_move {undelivered : Prop} {r r' : Radio} {pc p : Pc}
    (hc : r.main.advActive = true → r.main.currentConn = false) (hm : r'.main = r.main)
    (hpc : inside pc = true) (hp : inside p = true)
    (hf : PcFits r.main.advActive r.main.currentConn r'.obj.live undelivered p)
    (ho : r'.obj = r.obj ∨ r.obj = .free ∧ r'.obj.live = true ∨ r.obj.live = true ∧ r'.obj = .free) :
    Move undelivered r r' pc (some p) := by
  refine ⟨by rw [hm],by rw [hm]; exact hc,?_,by simp [hpc],?_,ho⟩
  · rintro _ ⟨⟩
    rw [hm]
    exact hf
  · intro _ hq
    rw [hq p rfl] at hp
    contradiction

theorem btLeAdvStart_some {slow : Bool} {err : ℤ} {r r' : Radio}
    (h : btLeAdvStart slow err r = some r') :
    r'.main = r.main ∧
      (err = 0 ∧ r.obj = .free ∧ r'.obj.live = true ∨ err ≠ 0 ∧ r'.obj = r.obj) := by
  by_cases he : err = 0
  · simp only [btLeAdvStart, he, if_true, Option.ite_none_right_eq_some, Option.some.injEq] at h
    obtain ⟨hf,rfl⟩ := h
    exact ⟨rfl,Or.inl ⟨he,hf,rfl⟩⟩
  · simp only [btLeAdvStart, he, if_false, Option.some.injEq] at h
    obtain rfl := h
    exact ⟨rfl,Or.inr ⟨he,rfl⟩⟩

theorem start_move {undelivered : Prop} {slow : Bool} {err : ℤ} {r r' : Radio} {pc p : Pc}
    (hc : r.main.advActive = true → r.main.currentConn = false) (hpc : inside pc = true)
    (hp : inside p = true)
    (hf : r'.obj.live = true ∧ err = 0 ∨ r'.obj.live = false ∧ err ≠ 0 →
      PcFits r.main.advActive r.main.currentConn r'.obj.live undelivered p)
    (hl : r.obj.live = false) (h : btLeAdvStart slow err r = some r') :
    Move undelivered r r' pc (some p) := by
  obtain ⟨hm,ho⟩ := btLeAdvStart_some h
  have hlive : r'.obj.live = true ∧ err = 0 ∨ r'.obj.live = false ∧ err ≠ 0 := by
    rcases ho with ⟨he,_,ho⟩ | ⟨he,ho⟩
    · exact Or.inl ⟨ho,he⟩
    · rw [ho]
      exact Or.inr ⟨hl,he⟩
  apply inside_move hc hm hpc hp (hf hlive)
  rcases ho with ⟨_,hfree,ho⟩ | ⟨_,ho⟩
  · exact Or.inr (Or.inl ⟨hfree,ho⟩)
  · exact Or.inl ho

theorem startNext_move {undelivered : Prop} {r r' : Radio} {err : ℤ} {pc : StartPc}
    {q : Option StartPc} (hc : r.main.advActive = true → r.main.currentConn = false)
    (hf : PcFits r.main.advActive r.main.currentConn r.obj.live undelivered (.start pc))
    (ht : pc = .guard → undelivered ∨ r.main.advActive = r.obj.live)
    (hu : undelivered → r.obj.live = false) (h : startNext r err pc = some (r',q)) :
    Move undelivered r r' (.start pc) (q.map .start) := by
  cases pc with
  | guard =>
    obtain ⟨rfl,rfl⟩ := Prod.mk.inj (Option.some.inj h)
    split
    · rename_i hs
      simp only [proxyShouldStartAdv, advState, Bool.and_eq_true, Bool.not_eq_true'] at hs
      have hl : r.obj.live = false := (ht rfl).elim hu (fun he => he.symm.trans hs.2)
      refine ⟨rfl,hc,?_,fun _ => ⟨rfl,rfl⟩,by simp [inside],Or.inl rfl⟩
      rintro _ ⟨⟩
      exact ⟨hs.2,hs.1,hl⟩
    · exact idle_move hc ⟨rfl,rfl⟩ rfl rfl (by simp)
  | start =>
    simp only [startNext, Option.map_eq_some_iff, Prod.mk.injEq] at h
    obtain ⟨d,hd,rfl,rfl⟩ := h
    refine start_move hc rfl rfl ?_ hf.2.2 hd
    rintro (⟨hl,he⟩ | ⟨hl,he⟩)
    · exact ⟨hf.1,hf.2.1,by rw [if_pos he]; exact Or.inl hl⟩
    · exact ⟨hf.1,hf.2.1,by rw [if_neg he]; exact hl⟩
  | store err =>
    obtain ⟨rfl,rfl⟩ := Prod.mk.inj (Option.some.inj h)
    obtain ⟨_,hconn,hl⟩ := hf
    refine ⟨rfl,fun _ => hconn,?_,by simp [inside],fun _ _ => ?_,Or.inl rfl⟩
    · intro p hp
      apply outside_fits
      split at hp <;> cases hp <;> rfl
    · by_cases he : err = 0
      · rw [if_pos he] at hl
        exact hl.symm.imp_right (fun hl => by simp [he, hl])
      · rw [if_neg he] at hl
        exact Or.inr (by simp [he, hl])
  | retry | slow =>
    obtain ⟨rfl,rfl⟩ := Prod.mk.inj (Option.some.inj h)
    exact idle_move hc ⟨rfl,rfl⟩ rfl rfl (by simp)

theorem slowNext_move {undelivered : Prop} {r r' : Radio} {err : ℤ} {sync : Bool} {pc : SlowPc}
    {q : Option SlowPc} (hc : r.main.advActive = true → r.main.currentConn = false)
    (hf : PcFits r.main.advActive r.main.currentConn r.obj.live undelivered (.slow pc))
    (ht : pc = .guard → undelivered ∨ r.main.advActive = r.obj.live)
    (h : slowNext r err sync pc = some (r',q)) :
    Move undelivered r r' (.slow pc) (q.map .slow) := by
  cases slow_move h with
  | pass | linked | delay | retry =>
    refine idle_move hc ⟨rfl,rfl⟩ rfl rfl ?_
    rintro _ ⟨⟩
    rfl
  | leave => exact idle_move hc ⟨rfl,rfl⟩ rfl rfl (by simp)
  | enter hconn hact =>
    refine ⟨rfl,hc,?_,fun _ => ⟨rfl,rfl⟩,by simp [inside],Or.inl rfl⟩
    rintro _ ⟨⟩
    exact ⟨hact,hconn,(ht rfl).symm.imp_left (fun he => he.symm.trans hact)⟩
  | recycled hl =>
    obtain ⟨hact,hconn,_⟩ := hf
    exact inside_move hc rfl rfl rfl ⟨rfl,hact,hconn,rfl⟩ (Or.inr (Or.inr ⟨hl,rfl⟩))
  | stopped hl =>
    obtain ⟨hact,hconn,_⟩ := hf
    exact inside_move hc rfl rfl rfl ⟨hact,hconn,rfl⟩ (Or.inr (Or.inr ⟨hl,rfl⟩))
  | nothing hl => exact inside_move hc rfl rfl rfl ⟨hf.1,hf.2.1,hl⟩ (Or.inl rfl)
  | refused => exact inside_move hc rfl rfl rfl ⟨hf.1,hf.2.1,hf.2.2⟩ (Or.inl rfl)
  | stopFailed =>
    refine ⟨rfl,hc,?_,by simp [inside],fun _ _ => ?_,Or.inl rfl⟩
    · rintro _ ⟨⟩
      trivial
    · exact hf.2.2.symm.imp_right (fun hl => hf.1.trans hl.symm)
  | nested hd =>
    -- `adv_active` is set, and the nested `advertising_start` has nothing to do
    obtain ⟨rfl,hact,hconn,hl⟩ := hf
    simp only [startNext, proxyShouldStartAdv, advState, hact, Bool.not_true, Bool.and_false,
      Bool.false_eq_true, if_false, Option.some.injEq, Prod.mk.injEq] at hd
    obtain ⟨rfl,rfl⟩ := hd
    exact inside_move hc rfl rfl rfl ⟨hact,hconn,hl⟩ (Or.inl rfl)
  | start hd =>
    refine start_move hc rfl rfl ?_ hf.2.2 hd
    rintro (⟨hl,he⟩ | ⟨hl,he⟩)
    · exact ⟨hf.1,hf.2.1,by rw [if_pos he]; exact Or.inl hl⟩
    · exact ⟨hf.1,hf.2.1,by rw [if_neg he]; exact hl⟩
  | stored =>
    obtain ⟨hact,hconn,hl⟩ := hf
    rw [if_pos rfl] at hl
    refine ⟨rfl,hc,?_,by simp [inside],
      fun _ _ => hl.symm.imp_right (fun hl => hact.trans hl.symm),Or.inl rfl⟩
    rintro _ ⟨⟩
    trivial
  | failed he =>
    obtain ⟨_,hconn,hl⟩ := hf
    rw [if_neg he] at hl
    refine ⟨rfl,fun _ => hconn,?_,by simp [inside],fun _ _ => Or.inr hl.symm,Or.inl rfl⟩
    rintro _ ⟨⟩
    trivial
  | alone hconn =>
    refine idle_move hc ⟨rfl,rfl⟩ rfl rfl ?_
    rintro _ ⟨⟩
    rfl

theorem refreshNext_main (r : Radio) (err : ℤ) (pc : RefreshPc) :
    (refreshNext r err pc).1.main.advActive = r.main.advActive ∧
      (refreshNext r err pc).1.main.currentConn = r.main.currentConn ∧
      (refreshNext r err pc).1.main.advRetryWork = r.main.advRetryWork ∧
      (refreshNext r err pc).1.obj = r.obj ∧ (refreshNext r err pc).1.owed = r.owed := by
  cases pc with
  | add rest bonds => cases rest <;> exact ⟨rfl,rfl,rfl,rfl,rfl⟩
  | _ => exact ⟨rfl,rfl,rfl,rfl,rfl⟩

theorem refreshNext_slow (r : Radio) (err : ℤ) (pc : RefreshPc) :
    (refreshNext r err pc).1.main.advSlowWork = r.main.advSlowWork := by
  cases pc with
  | add rest bonds => cases rest <;> rfl
  | _ => rfl

theorem pcNext_move {undelivered : Prop} {r r' : Radio} {err : ℤ} {sync : Bool} {pc : Pc}
    {q : Option Pc} (hc : r.main.advActive = true → r.main.currentConn = false)
    (hf : PcFits r.main.advActive r.main.currentConn r.obj.live undelivered pc)
    (ht : locks pc = true → undelivered ∨ r.main.advActive = r.obj.live)
    (hu : undelivered → r.obj.live = false) (h : pcNext r err sync pc = some (r',q)) :
    Move undelivered r r' pc q := by
  cases pc with
  | refresh pc =>
    obtain ⟨rfl,rfl⟩ := Prod.mk.inj (Option.some.inj h)
    obtain ⟨hact,hconn,_,hobj,_⟩ := refreshNext_main r err pc
    refine idle_move hc ⟨hact,hconn⟩ hobj rfl ?_
    rintro _ ⟨⟩
    cases (refreshNext r err pc).2 <;> rfl
  | start pc =>
    simp only [pcNext, Option.map_eq_some_iff, Prod.mk.injEq] at h
    obtain ⟨⟨d,p⟩,hd,rfl,rfl⟩ := h
    exact startNext_move hc hf (fun hg => ht (by simp [hg, locks])) hu hd
  | slow pc =>
    simp only [pcNext, Option.map_eq_some_iff, Prod.mk.injEq] at h
    obtain ⟨⟨d,p⟩,hd,rfl,rfl⟩ := h
    exact slowNext_move hc hf (fun hg => ht (by simp [hg, locks])) hd

theorem pcNext_enters {r r' : Radio} {err : ℤ} {sync : Bool} {pc p : Pc}
    (h : pcNext r err sync pc = some (r',some p)) (hp : inside p = true) (hpc : inside pc = false) :
    locks pc = true := by
  cases pc with
  | refresh pc =>
    obtain ⟨_,hq⟩ := Prod.mk.inj (Option.some.inj h)
    obtain rfl := Option.some.inj hq
    cases hr : (refreshNext r err pc).2 <;> simp [hr, inside] at hp
  | start pc =>
    cases pc with
    | guard => rfl
    | start | store => simp [inside] at hpc
    | retry | slow => simp [pcNext, startNext] at h
  | slow pc =>
    cases pc with
    | guard | check => rfl
    | stop | stopFailed | nested | start | store => simp [inside] at hpc
    | delay | retry =>
      obtain ⟨_,hq⟩ := Prod.mk.inj (Option.some.inj h)
      obtain rfl := Option.some.inj hq
      simp [inside] at hp
    | leave => simp [pcNext, slowNext] at h

theorem ObjFits.pooled {obj : Obj} {conn : Bool} {pc : HostPc} (h : ObjFits obj conn pc)
    (ho : obj = .free ∨ obj.live = true) : pc = .idle ∧ conn = false := by
  have hne (o : Obj) (hl : o = .link ∨ o = .failed ∨ o = .dropped) : obj ≠ o := by
    rintro rfl
    rcases hl with rfl | rfl | rfl <;> simp [Obj.live] at ho
  cases pc with
  | idle =>
    refine ⟨rfl,?_⟩
    have : (obj == .link) = false := by simpa using hne .link (Or.inl rfl)
    exact h.trans this
  | connLock err =>
    apply absurd h.2
    split
    · exact hne .link (Or.inl rfl)
    · exact hne .failed (Or.inr (Or.inl rfl))
  | connCancelSlow | connArmWatchdog | secEntry | secLock | secCancelWatchdog | secCancelGrace
  | secGive => exact absurd h.2 (hne .link (Or.inl rfl))
  | _ => exact absurd h.2 (hne .dropped (Or.inr (Or.inr rfl)))

theorem run_undelivered {r : Radio} {pc : Pc} {q : Option Pc} (threads : Threads)
    (hm : Move (Undelivered s) s.radio r pc q) :
    Undelivered { s with radio := r, threads } ↔ Undelivered s := by
  have ho : r.obj = .attempt ↔ s.radio.obj = .attempt := by
    rcases hm.obj with ho | ⟨ho,hl⟩ | ⟨hl,ho⟩
    · rw [ho]
    · rw [ho]
      exact ⟨fun ha => by simp [ha, Obj.live] at hl,fun ha => by simp at ha⟩
    · rw [ho]
      exact ⟨fun ha => by simp at ha,fun ha => by simp [ha, Obj.live] at hl⟩
  exact or_congr ho Iff.rfl

theorem run_objFits {r : Radio} {pc : Pc} {q : Option Pc} (hs : Truthful s)
    (hm : Move (Undelivered s) s.radio r pc q) :
    ObjFits r.obj r.main.currentConn (hostPc s.host) := by
  rw [hm.conn]
  rcases hm.obj with ho | ho | ho
  · rw [ho]
    exact hs.host
  · obtain ⟨hp,hc⟩ := hs.host.pooled (Or.inl ho.1)
    rw [hp, hc]
    cases hr : r.obj with
    | advertiser => rfl
    | _ => simp [hr, Obj.live] at ho
  · obtain ⟨hp,hc⟩ := hs.host.pooled (Or.inr ho.1)
    rw [hp, hc, ho.2]
    rfl

theorem run_fits {T T' : Thread} {r : Radio} {pc p : Pc} {q : Option Pc} (hs : Truthful s)
    (hT : s.threads T = some pc) (hm : Move (Undelivered s) s.radio r pc q)
    (hp : setThread s.threads T q T' = some p) :
    PcFits r.main.advActive r.main.currentConn r.obj.live (Undelivered s) p := by
  by_cases he : T' = T
  · subst he
    exact hm.fits p (by simpa using hp)
  · rw [setThread_of_ne he] at hp
    by_cases hi : inside p = true
    · have hpc : inside pc = false := by
        by_contra hpc
        exact he (hs.alone T' T p pc hp hT hi (by simpa using hpc))
      obtain ⟨hact,hobj⟩ := hm.outside hpc
      rw [hact, hm.conn, hobj]
      exact hs.fits T' p hp
    · exact outside_fits (by simpa using hi)

/-- A thread which comes inside has been there alone, or finds the mutex open. -/
theorem run_alone {T : Thread} {pc : Pc} {q : Option Pc} (hs : Truthful s)
    (hT : s.threads T = some pc)
    (henter : ∀ p, q = some p → inside p = true → inside pc = true ∨ locked s.threads = false)
    (T₁ T₂ : Thread) (p₁ p₂ : Pc) (h₁ : setThread s.threads T q T₁ = some p₁)
    (h₂ : setThread s.threads T q T₂ = some p₂) (hi₁ : inside p₁ = true) (hi₂ : inside p₂ = true) :
    T₁ = T₂ := by
  have hother (T' : Thread) (p p' : Pc) (hp : q = some p) (hT' : s.threads T' = some p')
      (hi : inside p = true) (hi' : inside p' = true) : T = T' := by
    rcases henter p hp hi with hpc | hl
    · exact hs.alone T T' pc p' hT hT' hpc hi'
    · rw [locked_false.mp hl T' p' hT'] at hi'
      contradiction
  by_cases he₁ : T₁ = T <;> by_cases he₂ : T₂ = T
  · rw [he₁, he₂]
  · subst he₁
    rw [setThread_self] at h₁
    rw [setThread_of_ne he₂] at h₂
    exact hother T₂ p₁ p₂ h₁ h₂ hi₁ hi₂
  · subst he₂
    rw [setThread_of_ne he₁] at h₁
    rw [setThread_self] at h₂
    exact (hother T₁ p₂ p₁ h₂ h₁ hi₂ hi₁).symm
  · rw [setThread_of_ne he₁] at h₁
    rw [setThread_of_ne he₂] at h₂
    exact hs.alone T₁ T₂ p₁ p₂ h₁ h₂ hi₁ hi₂

theorem run_truth {T : Thread} {r : Radio} {pc : Pc} {q : Option Pc} (hs : Truthful s)
    (hT : s.threads T = some pc) (hm : Move (Undelivered s) s.radio r pc q)
    (hl : locked (setThread s.threads T q) = false) :
    Undelivered s ∨ r.main.advActive = r.obj.live := by
  have hout := locked_false.mp hl
  by_cases hpc : inside pc = true
  · exact hm.leaves hpc (fun p hp => hout T p (by simpa using hp))
  · have hpc : inside pc = false := by simpa using hpc
    obtain ⟨hact,hobj⟩ := hm.outside hpc
    rw [hact, hobj]
    refine hs.truth (locked_false.mpr ?_)
    intro T' p hp
    by_cases he : T' = T
    · subst he
      rw [hT] at hp
      cases hp
      exact hpc
    · exact hout T' p (by rw [setThread_of_ne he, hp])

theorem run_truthful {T : Thread} {err : ℤ} {sync : Bool} (hs : Truthful s)
    (h : step s (.run T err sync) = some t) : Truthful t := by
  obtain ⟨pc,r,q,hT,hfree,hn,rfl⟩ := step_run.mp h
  have hm := pcNext_move hs.active_conn (hs.fits T pc hT) (fun hl => hs.truth (hfree hl))
    (fun hu => (undelivered_held hs hu).1) hn
  have hund := propext (run_undelivered (setThread s.threads T q) hm)
  have henter (p : Pc) (hp : q = some p) (hi : inside p = true) :
      inside pc = true ∨ locked s.threads = false := by
    subst hp
    cases hpc : inside pc with
    | true => exact Or.inl rfl
    | false => exact Or.inr (hfree (pcNext_enters hn hi hpc))
  have hfits := run_objFits hs hm
  refine ⟨hfits,hm.active_conn,?_,run_alone hs hT henter,?_⟩ <;> rw [hund]
  · exact fun T' p hp => run_fits hs hT hm hp
  · exact fun hl => run_truth hs hT hm hl

theorem hostNext_fits {obj : Obj} {m n : Main} {p q : HostPc} (hf : ObjFits obj m.currentConn p)
    (h : hostNext m p = some (n,q)) : ObjFits obj n.currentConn q := by
  cases p with
  | idle => simp [hostNext] at h
  | connLock err =>
    obtain ⟨rfl,rfl⟩ := Prod.mk.inj (Option.some.inj h)
    obtain ⟨hc,rfl⟩ := hf
    by_cases he : err = 0
    · simp only [he, if_true, connectedLock]
      exact ⟨rfl,rfl⟩
    · simp only [he, if_false, connectedLock, hc]
      rfl
  | discLock =>
    obtain ⟨rfl,rfl⟩ := Prod.mk.inj (Option.some.inj h)
    obtain ⟨hc,rfl⟩ := hf
    simp only [disconnectedLock, hc, if_true]
    exact ⟨rfl,rfl⟩
  | secEntry level err =>
    obtain ⟨rfl,rfl⟩ := Prod.mk.inj (Option.some.inj h)
    obtain ⟨hc,rfl⟩ := hf
    split
    · exact ⟨hc,rfl⟩
    · exact hc
  | discHeld =>
    obtain ⟨rfl,rfl⟩ := Prod.mk.inj (Option.some.inj h)
    split <;> exact hf
  | connArmWatchdog | secGive | discGive =>
    obtain ⟨rfl,rfl⟩ := Prod.mk.inj (Option.some.inj h)
    obtain ⟨hc,rfl⟩ := hf
    exact hc
  | _ =>
    obtain ⟨rfl,rfl⟩ := Prod.mk.inj (Option.some.inj h)
    exact hf

theorem hostNext_same {m n : Main} {p q : HostPc} (h : hostNext m p = some (n,q)) :
    (n.advActive = m.advActive ∧ n.currentConn = m.currentConn ∧ (∀ err, p ≠ .connLock err) ∨
      (∃ err, p = .connLock err) ∨ p = .discLock) ∧ ∀ err, q ≠ .connLock err := by
  cases p with
  | idle => simp [hostNext] at h
  | connLock err =>
    obtain ⟨_,rfl⟩ := Prod.mk.inj (Option.some.inj h)
    refine ⟨Or.inr (Or.inl ⟨err,rfl⟩),?_⟩
    split <;> simp
  | discLock =>
    obtain ⟨_,rfl⟩ := Prod.mk.inj (Option.some.inj h)
    exact ⟨Or.inr (Or.inr rfl),by simp⟩
  | secEntry | discHeld =>
    obtain ⟨rfl,rfl⟩ := Prod.mk.inj (Option.some.inj h)
    refine ⟨Or.inl ⟨rfl,rfl,by simp⟩,?_⟩
    split <;> simp
  | _ =>
    obtain ⟨rfl,rfl⟩ := Prod.mk.inj (Option.some.inj h)
    exact ⟨Or.inl ⟨rfl,rfl,by simp⟩,by simp⟩

theorem Truthful.of_open {r : Radio} {host : HostTask} (hl : locked s.threads = false)
    (hf : ObjFits r.obj r.main.currentConn (hostPc host))
    (hc : r.main.advActive = true → r.main.currentConn = false)
    (ht : Undelivered { s with radio := r, host } ∨ r.main.advActive = r.obj.live) :
    Truthful { s with radio := r, host } := by
  refine ⟨hf,hc,?_,?_,fun _ => ht⟩
  · exact fun T pc hT => outside_fits (locked_false.mp hl T pc hT)
  · intro T T' pc pc' hT _ hi _
    rw [locked_false.mp hl T pc hT] at hi
    contradiction

theorem host_truthful {err : ℤ} (hs : Truthful s) (h : step s (.host err) = some t) :
    Truthful t := by
  obtain ⟨hfree,r,host,hn,rfl⟩ := step_host.mp h
  cases hh : s.host with
  | refresh pc =>
    rw [hh] at hn
    obtain ⟨rfl,rfl⟩ := Prod.mk.inj (Option.some.inj hn)
    obtain ⟨hact,hconn,_,hobj,_⟩ := refreshNext_main s.radio err pc
    have hidle : ∀ o : Option RefreshPc, hostPc (o.elim (.callback .idle) .refresh) = .idle ∧
        ∀ err, o.elim (.callback .idle) .refresh ≠ HostTask.callback (.connLock err) := by
      rintro (_ | _) <;> simp [hostPc]
    obtain ⟨hpc,hno⟩ := hidle (refreshNext s.radio err pc).2
    refine hs.frame (fun _ _ _ => Iff.rfl) hact hconn (by rw [hobj]) ?_ ?_
    · simp [Undelivered, hobj, hno, hh]
    · rw [hpc, hobj, hconn]
      have hf := hs.host
      rw [hh] at hf
      exact hf
  | callback p =>
    rw [hh] at hn hfree
    simp only [hostStep, Option.map_eq_some_iff, Prod.mk.injEq] at hn
    obtain ⟨⟨n,q⟩,hn,rfl,rfl⟩ := hn
    have hf := hs.host
    rw [hh] at hf
    have hfits := hostNext_fits hf hn
    obtain ⟨hkind,hq⟩ := hostNext_same hn
    rcases hkind with ⟨hact,hconn,hp⟩ | ⟨e,rfl⟩ | rfl
    · refine hs.frame (fun _ _ _ => Iff.rfl) hact hconn rfl ?_ hfits
      simp [Undelivered, hh, hp, hq]
    · obtain ⟨rfl,_⟩ := Prod.mk.inj (Option.some.inj hn)
      have hact : (connectedLock e s.radio.main).advActive = false := by
        unfold connectedLock
        split <;> rfl
      refine .of_open (hfree rfl) hfits (by simp [hact]) (Or.inr ?_)
      rw [hact, hf.2]
      split <;> rfl
    · have htruth : s.radio.main.advActive = s.radio.obj.live := by
        apply (hs.truth (hfree rfl)).resolve_left
        simp [Undelivered, hh, hf.2]
      have hact : n.advActive = s.radio.main.advActive ∧ n.currentConn = false := by
        obtain ⟨rfl,_⟩ := Prod.mk.inj (Option.some.inj hn)
        simp [disconnectedLock, hf.1]
      exact .of_open (hfree rfl) hfits (fun _ => hact.2) (Or.inr (hact.1.trans htruth))

/-- A central takes the advertiser: what was live is now an attempt. -/
theorem attempt_truthful (hs : Truthful s) (h : step s .attempt = some t) : Truthful t := by
  obtain ⟨hl,rfl⟩ := step_attempt.mp h
  obtain ⟨hp,hc⟩ := hs.host.pooled (Or.inr hl)
  have hund : Undelivered { s with radio := { s.radio with obj := .attempt } } := Or.inl rfl
  refine ⟨?_,hs.active_conn,?_,hs.alone,fun _ => Or.inl hund⟩
  · dsimp only
    rw [hp, hc]
    rfl
  · intro T pc hT
    have hf := hs.fits T pc hT
    cases pc with
    | refresh => trivial
    | start pc =>
      cases pc with
      | start => simp [PcFits, hl] at hf
      | store err =>
        refine ⟨hf.1,hf.2.1,?_⟩
        split
        · exact Or.inr hund
        · rfl
      | _ => trivial
    | slow pc =>
      cases pc with
      | stop | stopFailed => exact ⟨hf.1,hf.2.1,Or.inr hund⟩
      | nested pc => exact ⟨hf.1,hf.2.1,hf.2.2.1,rfl⟩
      | start => exact ⟨hf.1,hf.2.1,rfl⟩
      | store err =>
        refine ⟨hf.1,hf.2.1,?_⟩
        split
        · exact Or.inr hund
        · rfl
      | _ => trivial

theorem begun_inside {threads : Threads} {T : Thread} {pc : Pc}
    (hT : threads T = none) (hpc : inside pc = false) (T' : Thread) (p : Pc) (hi : inside p = true) :
    setThread threads T (some pc) T' = some p ↔ threads T' = some p := by
  by_cases he : T' = T
  · subst he
    rw [setThread_self, hT]
    simp only [Option.some.injEq, reduceCtorEq, iff_false]
    rintro rfl
    rw [hpc] at hi
    contradiction
  · rw [setThread_of_ne he]

theorem step_truthful (hs : Truthful s) (h : step s a = some t) : Truthful t := by
  cases a with
  | wait ms =>
    obtain rfl := step_wait.mp h
    exact hs.frame (fun _ _ _ => Iff.rfl) rfl rfl rfl Iff.rfl hs.host
  | expire w =>
    obtain ⟨v,_,rfl⟩ := step_expire.mp h
    cases w <;> exact hs.frame (fun _ _ _ => Iff.rfl) rfl rfl rfl Iff.rfl hs.host
  | enter w =>
    obtain ⟨hT,v,_,rfl⟩ := step_enter.mp h
    cases w <;> exact hs.frame (begun_inside hT rfl) rfl rfl rfl Iff.rfl hs.host
  | run T err sync => exact run_truthful hs h
  | recycled =>
    obtain ⟨_,hT,rfl⟩ := step_recycled.mp h
    exact hs.frame (begun_inside hT rfl) rfl rfl rfl Iff.rfl hs.host
  | attempt => exact attempt_truthful hs h
  | connected err =>
    obtain ⟨hh,ho,rfl⟩ := step_connected.mp h
    have hf := hs.host
    rw [hh, ho] at hf
    refine hs.frame (fun _ _ _ => Iff.rfl) rfl rfl ?_ ?_ ⟨hf,rfl⟩
    · rw [ho]
      dsimp only
      split <;> rfl
    · exact iff_of_true (Or.inr ⟨err,rfl⟩) (Or.inl ho)
  | security level err =>
    obtain ⟨hh,ho,rfl⟩ := step_security.mp h
    have hf := hs.host
    rw [hh] at hf
    refine hs.frame (fun _ _ _ => Iff.rfl) rfl rfl rfl (by simp [Undelivered, hh]) ⟨?_,ho⟩
    rw [ho] at hf
    exact hf
  | pairingComplete addr =>
    obtain ⟨hh,_,rfl⟩ := step_pairingComplete.mp h
    have hf := hs.host
    rw [hh] at hf
    exact hs.frame (fun _ _ _ => Iff.rfl) rfl rfl rfl (by simp [Undelivered, hh]) hf
  | disconnected =>
    obtain ⟨hh,ho,rfl⟩ := step_disconnected.mp h
    have hf := hs.host
    rw [hh, ho] at hf
    exact hs.frame (fun _ _ _ => Iff.rfl) rfl rfl (by rw [ho]; rfl) (by simp [Undelivered, hh, ho])
      ⟨hf,rfl⟩
  | host err => exact host_truthful hs h
  | returned =>
    obtain ⟨hh,ho,rfl⟩ := step_returned.mp h
    have hf := hs.host
    rw [hh] at hf
    rcases ho with ho | ho <;> rw [ho] at hf <;>
      exact hs.frame (fun _ _ _ => Iff.rfl) rfl rfl (by rw [ho]; rfl)
        (by simp [Undelivered, hh, ho]) (by rw [hh]; exact hf)

def starts : Pc → Bool
  | .start .start | .slow .start | .slow (.nested .start) => true
  | _ => false

/-- The flag excludes a current connection, no start meets an advertiser or a
connection, and outside the critical sections the flag is exact. -/
theorem adv_active_truth (bonds : List ℕ) (es : List Label) (s : State)
    (h : run step es (init bonds) = some s) :
    (s.radio.main.advActive = true → s.radio.main.currentConn = false) ∧
      (∀ T pc, s.threads T = some pc → starts pc = true →
        s.radio.obj.live = false ∧ s.radio.main.currentConn = false) ∧
      (locked s.threads = false → ¬Undelivered s →
        s.radio.main.advActive = s.radio.obj.live) := by
  have hs : Truthful s := invariant (init_truthful bonds) (fun _ _ _ hi ht => step_truthful hi ht) h
  refine ⟨hs.active_conn,?_,fun hl hu => (hs.truth hl).resolve_left hu⟩
  intro T pc hT hst
  have hf := hs.fits T pc hT
  cases pc with
  | refresh => simp [starts] at hst
  | start pc =>
    cases pc with
    | start => exact ⟨hf.2.2,hf.2.1⟩
    | _ => simp [starts] at hst
  | slow pc =>
    cases pc with
    | start => exact ⟨hf.2.2,hf.2.1⟩
    | nested pc => exact ⟨hf.2.2.2,hf.2.2.1⟩
    | _ => simp [starts] at hst

/-- `main` advertises, and 30 s later the slow switch starts with the recycled
callback inside its stop. -/
def slowSwitch : List Label :=
  List.replicate 7 (.run .boot 0 false)++[.wait advFastDuration, .expire .advSlow, .enter .advSlow,
    .run .work 0 false, .run .work 0 true, .run .work 0 false]

def switching : State :=
  { init [] with
    radio := { (init []).radio with
      main := { boot false with
        now := advFastDuration
        advActive := true
        advSlowWork := ⟨none,false,.running⟩ } }
    threads := ⟨none,some (.slow .start),none⟩ }

theorem adv_active_truth_switching :
    switching.radio.obj.live = false ∧ switching.radio.main.currentConn = false :=
  (adv_active_truth [] slowSwitch switching (by decide)).2.1 .work (.slow .start) rfl rfl

end NrfProxy.AdvertiserInvariant
