import NrfProxy.SecurityWatchdog

/-!
# Which link the watchdog hits

The handler takes the link it finds, which is the one it began for only while no
other has come up since, and calls `bt_conn_disconnect` after it has left the
mutex. What it aims at is followed through three records: the links which have
been reported encrypted, the links `on_connected` has armed the item for, and
the link there was when the handler began.
-/

set_option autoImplicit false

namespace NrfProxy.WatchdogTarget
open NrfProxy.Runs NrfProxy.Delayable NrfProxy.ProxyCore NrfProxy.MainState
open NrfProxy.MainThreads NrfProxy.ThreadInvariant NrfProxy.EncryptionGate
open NrfProxy.SecurityWatchdog

/-- `on_security_changed` is called with level 2 for the link that is up. -/
def encryption (s : State) : Label → List ℕ
  | .security level err => if err = 0 ∧ btSecurityL2 ≤ level then s.link.toList else []
  | _ => []

/-- `on_connected` arms the item for its link, at this time. -/
def arming (s : State) : Label → List (ℕ × ℕ)
  | .host => if s.host = .connArmWatchdog then s.link.toList.map (·,s.main.now) else []
  | _ => []

def beginning (s : State) : Label → List (Option ℕ)
  | .enter .securityTimeout => [s.link]
  | _ => []

def window : ℕ := proxySecurityWindowMs false

/-- The link the handler finds is the one it began with, nobody is about to
report its encryption, and nobody does before the disconnect. -/
def Prompt (begs : List (Option ℕ)) (s : State) : Label → Prop
  | .security level err => err = 0 → btSecurityL2 ≤ level → s.work ≠ .watchdogDisconnect
  | .work _ => s.work = .watchdogLock → unsecured s.main = true →
      begs.getLast? = some s.link ∧ reporting s.host = false
  | _ => True

instance (begs : List (Option ℕ)) (s : State) : ∀ a, Decidable (Prompt begs s a)
  | .security _ _ => inferInstanceAs (Decidable (_ → _ → _))
  | .work _ => inferInstanceAs (Decidable (_ → _ → _))
  | .wait _ | .expire _ | .enter _ | .connect _ | .disconnect | .host | .recycle
  | .receive _ | .rx _ | .ready _ | .give | .writer _ _ => .isTrue trivial

/-- The callback stands where the item has been cancelled or is not armed yet. -/
def disarmed : HostPc → Bool
  | .connCancelSlow | .connArmWatchdog | .discLock => true
  | _ => false

/-- `on_connected` of the link `l` armed the item `window` ago. -/
def Due (arms : List (ℕ × ℕ)) (now l : ℕ) : Prop := ∃ d, (l,d) ∈ arms ∧ d+window ≤ now

/-- The item is armed for the current link, and its timer is not early. -/
def Armed (arms : List (ℕ × ℕ)) (link : Option ℕ) (now : ℕ) (w : Work) : Prop :=
  w.pending = true → ∃ l d, link = some l ∧ (l,d) ∈ arms ∧
    (w.queued = true → d+window ≤ now) ∧ ∀ e, w.scheduled = some e → d+window ≤ e

structure Aimed (encs : List ℕ) (arms : List (ℕ × ℕ)) (begs : List (Option ℕ)) (s : State) :
    Prop where
  wf : Wf s
  counted : Counted s
  young : ∀ l ∈ encs, l < s.links
  current : ∀ l, s.link = some l → l < s.links
  reported : ∀ l, s.link = some l → l ∈ encs →
    s.main.linkSecure = true ∨ reporting s.host = true ∨ s.main.currentConn = false ∧ s.up = false
  item : s.main.currentConn = false ∨ disarmed s.host = true →
    s.main.securityTimeoutWork.pending = false
  armed : Armed arms s.link s.main.now s.main.securityTimeoutWork
  begun : s.work = .watchdogLock → ∃ l, begs.getLast? = some (some l) ∧ Due arms s.main.now l
  target : s.work = .watchdogDisconnect → ∃ l, s.link = some l ∧ l ∉ encs ∧ Due arms s.main.now l

variable {port : Bool} {s t : State} {a : Label} {encs : List ℕ} {arms : List (ℕ × ℕ)}
  {begs : List (Option ℕ)}

theorem init_aimed (locked : Bool) : Aimed [] [] [] (init locked) where
  wf := init_wf locked
  counted := init_counted locked
  young := by simp
  current := by simp [init]
  reported := by simp
  item := fun _ => rfl
  armed := by simp [init, boot, Armed]
  begun := by simp [init]
  target := by simp [init]

theorem Due.mono {now now' l : ℕ} (h : Due arms now l) (hn : now ≤ now') (xs : List (ℕ × ℕ)) :
    Due (arms++xs) now' l := by
  obtain ⟨d,hd,hw⟩ := h
  exact ⟨d,List.mem_append_left _ hd,hw.trans hn⟩

theorem step_current (hs : Aimed encs arms begs s) (h : step port s a = some t) :
    (∀ l ∈ encs++encryption s a, l < t.links) ∧ ∀ l, t.link = some l → l < t.links := by
  have hle : s.links ≤ t.links := by
    rw [step_links h]
    exact Nat.le_add_right _ _
  constructor
  · intro l hl
    rcases List.mem_append.mp hl with hl | hl
    · exact (hs.young l hl).trans_le hle
    · have hlink : s.link = some l := by
        cases a <;> simp only [encryption, List.not_mem_nil] at hl
        split at hl
        · simpa using hl
        · simp at hl
      exact (hs.current l hlink).trans_le hle
  · intro l hl
    rcases link_cases h with ⟨_,hk,_⟩ | ⟨_,_,hk,hn⟩ | ⟨_,_,hk,_⟩
    · exact (hs.current l (hk.symm.trans hl)).trans_le hle
    · rw [hk] at hl
      obtain rfl := Option.some.inj hl
      omega
    · rw [hk] at hl
      contradiction

theorem hostNext_reported {link : Option ℕ} {up : Bool} {m n : Main} {p q : HostPc}
    (hf : HostFits link up m.currentConn m.linkSecure p)
    (hs : m.linkSecure = true → m.currentConn = true) (h : hostNext m p = some (n,q))
    (hr : m.linkSecure = true ∨ reporting p = true ∨ m.currentConn = false ∧ up = false)
    (hl : link.isSome = true) :
    n.linkSecure = true ∨ reporting q = true ∨ n.currentConn = false ∧ up = false := by
  cases p with
  | idle => simp [hostNext] at h
  | connLock err =>
    obtain ⟨hconn,herr⟩ := hf
    have hno : ¬ m.linkSecure = true := fun hx => by simp [hconn] at hs; simp [hs] at hx
    split at herr
    · simp [hno, reporting, herr] at hr
    · simp [herr.2] at hl
  | secEntry level err =>
    obtain ⟨rfl,rfl⟩ := Prod.mk.inj (Option.some.inj h)
    by_cases he : err = 0 ∧ btSecurityL2 ≤ level
    · simp [he, reporting]
    · simpa [he, reporting] using hr
  | secLock =>
    obtain ⟨rfl,rfl⟩ := Prod.mk.inj (Option.some.inj h)
    exact Or.inl rfl
  | discLock =>
    obtain ⟨rfl,rfl⟩ := Prod.mk.inj (Option.some.inj h)
    exact Or.inr (Or.inr ⟨by simp [disconnectedLock, hf.1],hf.2⟩)
  | _ =>
    obtain ⟨rfl,rfl⟩ := Prod.mk.inj (Option.some.inj h)
    rcases hr with hr | hr | hr
    · exact Or.inl hr
    · simp [reporting] at hr
    · exact Or.inr (Or.inr hr)

theorem step_reported (hs : Aimed encs arms begs s) (h : step port s a = some t) (l : ℕ)
    (hl : t.link = some l) (he : l ∈ encs++encryption s a) :
    t.main.linkSecure = true ∨ reporting t.host = true ∨
      t.main.currentConn = false ∧ t.up = false := by
  rcases step_link h hl with hk | ⟨rfl,rfl⟩
  · have hold (he : l ∈ encs) := hs.reported l hk he
    cases a with
    | host =>
      have he : l ∈ encs := by simpa [encryption] using he
      obtain ⟨n,pc,hn,rfl⟩ := step_host.mp h
      exact hostNext_reported hs.wf.host hs.wf.secure_conn hn (hold he) (by simp [hk])
    | security level err =>
      obtain ⟨hh,hu,rfl⟩ := step_security.mp h
      rcases List.mem_append.mp he with he | he
      · rcases hold he with hx | hx | hx
        · exact Or.inl hx
        · simp [hh, reporting] at hx
        · exact Or.inr (Or.inr hx)
      · simp only [encryption] at he
        split at he
        · rename_i hc
          exact Or.inr (Or.inl (by simp [reporting, hc]))
        · simp at he
    | connect err =>
      obtain ⟨_,hn,_⟩ := step_connect.mp h
      simp [hn] at hk
    | disconnect =>
      have he : l ∈ encs := by simpa [encryption] using he
      obtain ⟨hh,hu,rfl⟩ := step_disconnect.mp h
      rcases hold he with hx | hx | hx
      · exact Or.inl hx
      · simp [hh, reporting] at hx
      · exact Or.inr (Or.inr ⟨hx.1,rfl⟩)
    | recycle =>
      obtain ⟨_,_,_,_,_,rfl⟩ := step_recycle.mp h
      simp at hl
    | _ =>
      have he : l ∈ encs := by simpa [encryption] using he
      have hf := stack_frame h (by simp [thread])
      rw [hf.secure, hf.host, hf.conn, hf.up]
      exact hold he
  · have he : s.links ∈ encs := by simpa [encryption] using he
    exact absurd (hs.young _ he) (lt_irrefl _)

theorem hostNext_item {link : Option ℕ} {up : Bool} {m n : Main} {p q : HostPc}
    (hf : HostFits link up m.currentConn m.linkSecure p) (h : hostNext m p = some (n,q))
    (hi : m.currentConn = false ∨ disarmed p = true → m.securityTimeoutWork.pending = false)
    (hn : n.currentConn = false ∨ disarmed q = true) : n.securityTimeoutWork.pending = false := by
  cases p with
  | idle => simp [hostNext] at h
  | connLock err =>
    obtain ⟨rfl,_⟩ := Prod.mk.inj (Option.some.inj h)
    have hm := hi (Or.inl hf.1)
    unfold connectedLock
    split <;> exact hm
  | connCancelSlow =>
    obtain ⟨rfl,_⟩ := Prod.mk.inj (Option.some.inj h)
    exact hi (Or.inr rfl)
  | connArmWatchdog =>
    obtain ⟨rfl,rfl⟩ := Prod.mk.inj (Option.some.inj h)
    simp [armSecurityTimeout, hf.1, disarmed] at hn
  | secEntry level err =>
    obtain ⟨rfl,rfl⟩ := Prod.mk.inj (Option.some.inj h)
    split at hn <;> simp [hf.1, disarmed] at hn
  | discHeld =>
    obtain ⟨rfl,rfl⟩ := Prod.mk.inj (Option.some.inj h)
    split at hn <;> simp [hf.1, disarmed] at hn
  | discLock =>
    obtain ⟨rfl,_⟩ := Prod.mk.inj (Option.some.inj h)
    have hm := hi (Or.inr rfl)
    unfold disconnectedLock
    split <;> exact hm
  | secCancelWatchdog | discCancelWatchdog =>
    obtain ⟨rfl,_⟩ := Prod.mk.inj (Option.some.inj h)
    rfl
  | discGive =>
    obtain ⟨rfl,_⟩ := Prod.mk.inj (Option.some.inj h)
    exact hi (Or.inl hf.1)
  | _ =>
    obtain ⟨rfl,rfl⟩ := Prod.mk.inj (Option.some.inj h)
    simp [securedLock, cancelRelayGrace, giveRxDataReady, armRelayGrace, hf.1, disarmed] at hn

theorem step_item (hs : Aimed encs arms begs s) (h : step port s a = some t)
    (hn : t.main.currentConn = false ∨ disarmed t.host = true) :
    t.main.securityTimeoutWork.pending = false := by
  cases a with
  | host =>
    obtain ⟨n,pc,hx,rfl⟩ := step_host.mp h
    exact hostNext_item hs.wf.host hx hs.item hn
  | expire w =>
    obtain ⟨v,hv,rfl⟩ := step_expire.mp h
    cases w with
    | relayGrace => exact hs.item hn
    | securityTimeout =>
      have hw : s.main.securityTimeoutWork.pending = false := hs.item hn
      exact absurd (expire_was_pending hv) (by simp [item, hw])
  | enter w =>
    obtain ⟨_,v,hv,rfl⟩ := step_enter.mp h
    cases w with
    | relayGrace => exact hs.item hn
    | securityTimeout =>
      have hw : s.main.securityTimeoutWork.pending = false := hs.item hn
      exact absurd (take_pending hv) (by simp [item, hw])
  | connect err =>
    obtain ⟨_,hl,rfl⟩ := step_connect.mp h
    have hm := hs.item (Or.inl (hs.wf.pooled hl).1)
    split <;> exact hm
  | security level err =>
    obtain ⟨_,_,rfl⟩ := step_security.mp h
    exact hs.item (hn.imp_right (by simp [disarmed]))
  | disconnect =>
    obtain ⟨_,_,rfl⟩ := step_disconnect.mp h
    exact hs.item (hn.imp_right (by simp [disarmed]))
  | recycle =>
    obtain ⟨_,_,_,_,_,rfl⟩ := step_recycle.mp h
    exact hs.item hn
  | _ =>
    have hf := stack_frame h (by simp [thread])
    rw [pending_frame h (by simp) (by simp) (by simp)]
    rw [hf.conn, hf.host] at hn
    exact hs.item hn

theorem hostNext_timer {m n : Main} {p q : HostPc} (h : hostNext m p = some (n,q)) :
    n.securityTimeoutWork = m.securityTimeoutWork ∨ n.securityTimeoutWork.pending = false ∨
      p = .connArmWatchdog ∧ n = armSecurityTimeout m := by
  cases p with
  | idle => simp [hostNext] at h
  | connLock err =>
    obtain ⟨rfl,_⟩ := Prod.mk.inj (Option.some.inj h)
    unfold connectedLock
    split <;> exact Or.inl rfl
  | discLock =>
    obtain ⟨rfl,_⟩ := Prod.mk.inj (Option.some.inj h)
    unfold disconnectedLock
    split <;> exact Or.inl rfl
  | secCancelWatchdog | discCancelWatchdog =>
    obtain ⟨rfl,_⟩ := Prod.mk.inj (Option.some.inj h)
    exact Or.inr (Or.inl rfl)
  | connArmWatchdog =>
    obtain ⟨rfl,_⟩ := Prod.mk.inj (Option.some.inj h)
    exact Or.inr (Or.inr ⟨rfl,rfl⟩)
  | _ =>
    obtain ⟨rfl,_⟩ := Prod.mk.inj (Option.some.inj h)
    exact Or.inl rfl

theorem Armed.mono {link : Option ℕ} {now now' : ℕ} {w : Work} (h : Armed arms link now w)
    (hn : now ≤ now') (xs : List (ℕ × ℕ)) : Armed (arms++xs) link now' w := by
  intro hp
  obtain ⟨l,d,hl,hd,hq,ht⟩ := h hp
  exact ⟨l,d,hl,List.mem_append_left _ hd,fun hw => (hq hw).trans hn,ht⟩

theorem Armed.of_rests {w : Work} (hw : w.pending = false) (link : Option ℕ) (now : ℕ) :
    Armed arms link now w := fun hp => absurd hp (by simp [hw])

theorem Armed.handler {link : Option ℕ} {now : ℕ} {w : Work} (h : Armed arms link now w)
    (r : Handler) : Armed arms link now { w with handler := r } := h

theorem host_armed (hs : Aimed encs arms begs s) (h : step port s .host = some t) :
    Armed (arms++arming s .host) t.link t.main.now t.main.securityTimeoutWork := by
  obtain ⟨n,pc,hn,rfl⟩ := step_host.mp h
  dsimp only
  rw [(hostNext_keeps hn).now]
  rcases hostNext_timer hn with hi | hi | ⟨hp,rfl⟩
  · rw [hi]
    exact Armed.mono hs.armed (le_refl _) _
  · exact Armed.of_rests hi _ _
  · intro _
    have hf := hs.wf.host
    rw [hp] at hf
    obtain ⟨l,hl⟩ := Option.isSome_iff_exists.mp (hs.wf.conn_link hf.1)
    have hi : s.main.securityTimeoutWork.pending = false :=
      hs.item (Or.inr (by simp [hp, disarmed]))
    simp only [Work.pending, Bool.or_eq_false_iff] at hi
    refine ⟨l,s.main.now,hl,?_,?_,?_⟩
    · exact List.mem_append_right _ (by simp [arming, hp, hl])
    · simp [armSecurityTimeout, reschedule, hi.2]
    · intro e he
      simp only [armSecurityTimeout, reschedule, Option.some.injEq] at he
      exact he.le

theorem step_armed (hs : Aimed encs arms begs s) (h : step port s a = some t) :
    Armed (arms++arming s a) t.link t.main.now t.main.securityTimeoutWork := by
  have hnow := step_now h
  cases a with
  | host => exact host_armed hs h
  | expire w =>
    obtain ⟨v,hv,rfl⟩ := step_expire.mp h
    cases w with
    | relayGrace => exact Armed.mono hs.armed hnow _
    | securityTimeout =>
      obtain ⟨l,d,hl,hd,_,ht⟩ := hs.armed (expire_was_pending hv)
      obtain ⟨⟨e,he,hle⟩,rfl⟩ := expire_some.mp hv
      intro _
      exact ⟨l,d,hl,List.mem_append_left _ hd,fun _ => (ht e he).trans hle,by simp [setItem]⟩
  | enter w =>
    obtain ⟨_,v,hv,rfl⟩ := step_enter.mp h
    cases w with
    | relayGrace => exact Armed.mono hs.armed hnow _
    | securityTimeout =>
      obtain ⟨hq,rfl⟩ := take_some.mp hv
      obtain ⟨l,d,hl,hd,_,ht⟩ := hs.armed (by
        simp only [item] at hq
        simp [Work.pending, hq])
      intro _
      exact ⟨l,d,hl,List.mem_append_left _ hd,by simp [setItem],ht⟩
  | connect err =>
    obtain ⟨_,hl,rfl⟩ := step_connect.mp h
    have hi := hs.item (Or.inl (hs.wf.pooled hl).1)
    split <;> exact Armed.of_rests hi _ _
  | recycle =>
    obtain ⟨hh,_,hu,_,_,rfl⟩ := step_recycle.mp h
    have hi := hs.item (Or.inl ((hs.wf.idle_conn hh).trans hu))
    exact Armed.of_rests hi _ _
  | security level err =>
    obtain ⟨_,_,rfl⟩ := step_security.mp h
    exact Armed.mono hs.armed (le_refl _) _
  | disconnect =>
    obtain ⟨_,_,rfl⟩ := step_disconnect.mp h
    exact Armed.mono hs.armed (le_refl _) _
  | _ =>
    have hf := stack_frame h (by simp [thread])
    obtain ⟨r,hw⟩ := item_frame h (by simp) (by simp) (by simp)
    rw [hw, hf.link]
    exact (Armed.mono hs.armed hnow _).handler r

theorem step_begun (hs : Aimed encs arms begs s) (h : step port s a = some t)
    (hw : t.work = .watchdogLock) :
    ∃ l, (begs++beginning s a).getLast? = some (some l) ∧
      Due (arms++arming s a) t.main.now l := by
  have hnow := step_now h
  cases a with
  | enter w =>
    obtain ⟨_,v,hv,rfl⟩ := step_enter.mp h
    cases w with
    | relayGrace => simp [handler] at hw
    | securityTimeout =>
      obtain ⟨hq,rfl⟩ := take_some.mp hv
      obtain ⟨l,d,hl,hd,hn,_⟩ := hs.armed (by
        simp only [item] at hq
        simp [Work.pending, hq])
      refine ⟨l,by simp [beginning, hl],d,List.mem_append_left _ hd,?_⟩
      exact (hn hq).trans hnow
  | work err =>
    obtain ⟨n,pc,hn,rfl⟩ := step_work.mp h
    cases hk : s.work <;> simp only [hk, workNext, reduceCtorEq, Option.some.injEq] at hn
    case watchdogLock =>
      split at hn <;> obtain ⟨_,rfl⟩ := Prod.mk.inj hn <;> simp at hw
    all_goals
      obtain ⟨_,rfl⟩ := Prod.mk.inj hn
      simp at hw
  | _ =>
    rw [(step_frame h).work (by simp [thread])] at hw
    obtain ⟨l,hl,hd⟩ := hs.begun hw
    exact ⟨l,by simpa [beginning] using hl,hd.mono hnow _⟩

theorem step_target (hs : Aimed encs arms begs s) (hp : Prompt begs s a)
    (h : step port s a = some t) (hw : t.work = .watchdogDisconnect) :
    ∃ l, t.link = some l ∧ l ∉ encs++encryption s a ∧ Due (arms++arming s a) t.main.now l := by
  have hnow := step_now h
  -- a handler which has its reference keeps the link
  have hheld (hk : s.work = .watchdogDisconnect) (he : encryption s a = []) :
      ∃ l, t.link = some l ∧ l ∉ encs++encryption s a ∧ Due (arms++arming s a) t.main.now l := by
    obtain ⟨l,hl,hn,hd⟩ := hs.target hk
    refine ⟨l,link_kept ?_ hl h,by simpa [he] using hn,hd.mono hnow _⟩
    have hc := hs.counted
    rw [Counted, hk] at hc
    simp only [workRefs] at hc
    omega
  cases a with
  | enter w =>
    obtain ⟨_,v,_,rfl⟩ := step_enter.mp h
    cases w <;> simp [handler] at hw
  | work err =>
    have hf := stack_frame h (by simp [thread])
    obtain ⟨n,pc,hn,rfl⟩ := step_work.mp h
    cases hk : s.work <;> simp only [hk, workNext, reduceCtorEq, Option.some.injEq] at hn
    case watchdogLock =>
      split at hn <;> rename_i hu <;> obtain ⟨_,rfl⟩ := Prod.mk.inj hn <;>
        simp only [reduceCtorEq] at hw
      obtain ⟨hlast,hrep⟩ := hp hk hu
      obtain ⟨l,hl,hd⟩ := hs.begun hk
      rw [hlast, Option.some.injEq] at hl
      refine ⟨l,hl,?_,hd.mono hnow _⟩
      simp only [encryption, List.append_nil]
      intro he
      simp only [Bool.and_eq_true, Bool.not_eq_true'] at hu
      rcases hs.reported l hl he with hx | hx | hx
      · simp [hu.2] at hx
      · simp [hrep] at hx
      · simp [hu.1] at hx
    all_goals
      obtain ⟨_,rfl⟩ := Prod.mk.inj hn
      simp at hw
  | security level err =>
    rw [(step_frame h).work (by simp [thread])] at hw
    apply hheld hw
    simp only [encryption]
    split
    · rename_i hc
      exact absurd hw (hp hc.1 hc.2)
    · rfl
  | _ =>
    rw [(step_frame h).work (by simp [thread])] at hw
    exact hheld hw rfl

theorem step_aimed (hs : Aimed encs arms begs s) (hp : Prompt begs s a)
    (h : step port s a = some t) :
    Aimed (encs++encryption s a) (arms++arming s a) (begs++beginning s a) t where
  wf := step_wf hs.wf h
  counted := step_counted hs.wf hs.counted h
  young := (step_current hs h).1
  current := (step_current hs h).2
  reported := step_reported hs h
  item := step_item hs h
  armed := step_armed hs h
  begun := step_begun hs h
  target := step_target hs hp h

variable (port) (locked : Bool)

def encryptions (es : List Label) : List ℕ := trace (step port) encryption es (init locked)

def armings (es : List Label) : List (ℕ × ℕ) := trace (step port) arming es (init locked)

def beginnings (es : List Label) : List (Option ℕ) :=
  trace (step port) beginning es (init locked)

/-- Where no handler takes a link it did not begin with, or one whose encryption
is reported around its call, `bt_conn_disconnect` is called for links which have
had their own window and have not encrypted. -/
theorem watchdog_hits_its_link (es : List Label) (s : State)
    (h : run (step port) es (init locked) = some s)
    (hp : AllAlong (step port) (fun xs => Prompt (beginnings port locked xs)) [] es (init locked))
    (hw : s.work = .watchdogDisconnect) :
    ∃ l, s.link = some l ∧ l ∉ encryptions port locked es ∧
      Due (armings port locked es) s.main.now l := by
  have hs : Aimed (encryptions port locked es) (armings port locked es)
      (beginnings port locked es) s := by
    apply history_along (I := fun es s => Aimed (encryptions port locked es)
      (armings port locked es) (beginnings port locked es) s) (init_aimed locked) _ h hp
    intro es s a t hr hs hp ht
    unfold encryptions armings beginnings
    rw [trace_snoc _ es a _ s hr, trace_snoc _ es a _ s hr, trace_snoc _ es a _ s hr]
    exact step_aimed hs hp ht
  exact hs.target hw

def aiming (links : ℕ) : State :=
  { init false with
    main := { boot false with
      now := 60000
      currentConn := true
      connRefs := 2
      securityTimeoutWork := ⟨none,false,.running⟩ }
    work := .watchdogDisconnect
    link := some (links-1)
    up := true
    links }

theorem watchdog_hits_its_link_timed_out : ∃ l, (aiming 1).link = some l ∧
    l ∉ encryptions true false (timedOut++[.work 0]) ∧
      Due (armings true false (timedOut++[.work 0])) 60000 l :=
  watchdog_hits_its_link true false (timedOut++[.work 0]) (aiming 1) (by decide) (by decide) rfl

/-- The handler begins, its link drops, and it finds the next one, for which the
item is not even armed. -/
def staleHandler : List Label :=
  timedOut++[.disconnect]++List.replicate 4 .host++[.recycle, .connect 0, .host, .work 0]

def hitsNext : State :=
  { aiming 2 with
    main := { (aiming 2).main with
      rxDataReady := true
      securityTimeoutWork := ⟨none,false,.canceling⟩ }
    host := .connCancelSlow }

/-- The handler takes its reference, and the link encrypts before the call. -/
def encryptedInside : List Label :=
  timedOut++[.work 0, .security 2 0]++List.replicate 5 .host

def hitsEncrypted : State :=
  { aiming 1 with main := { (aiming 1).main with
      linkSecure := true
      rxDataReady := true
      securityTimeoutWork := ⟨none,false,.canceling⟩ } }

/-- The handler drops a link which has just come up, and one which has encrypted. -/
theorem watchdog_hits_other_links :
    (run (step true) staleHandler (init false) = some hitsNext ∧
      hitsNext.work = .watchdogDisconnect ∧ hitsNext.link = some 1 ∧
      ¬ Due (armings true false staleHandler) hitsNext.main.now 1) ∧
    run (step true) encryptedInside (init false) = some hitsEncrypted ∧
      hitsEncrypted.work = .watchdogDisconnect ∧ hitsEncrypted.link = some 0 ∧
      0 ∈ encryptions true false encryptedInside := by
  refine ⟨⟨by decide,rfl,rfl,?_⟩,by decide,rfl,rfl,by decide⟩
  rintro ⟨d,hd,_⟩
  have harm : armings true false staleHandler = [(0,0)] := by decide
  simp [harm] at hd

end NrfProxy.WatchdogTarget
