import NrfProxy.Delayable
import NrfProxy.Runs

/-!
# The status LEDs

The status, the LED pins and the blink timer are shared by `set_status_leds`
and `adv_blink_handler`, and no lock guards them. A call may be running in each
of the contexts that make one. A step is one read or write of a static, one GPIO
write or one work queue call, so that a run is any interleaving.
-/

set_option autoImplicit false

namespace NrfProxy.StatusLeds
open NrfProxy.Delayable NrfProxy.Runs

inductive Status where
  | connected
  | advertising
  | error
  deriving DecidableEq, Repr

instance : Fintype Status := ⟨{.connected,.advertising,.error},by rintro ⟨⟩ <;> decide⟩

def Status.index : Status → ℕ
  | .connected => 0
  | .advertising => 1
  | .error => 2

abbrev Solid := {state : Status // state ≠ .advertising}

/-- `status_leds`, with the pins by number and `none` for an alias the board
does not define. -/
abbrev Board := Status → Option ℕ

structure Distinct (board : Board) : Prop where
  wired : ∀ r, (board r).isSome
  distinct : Function.Injective board

/-- The level of each pin is the logical one. -/
structure Leds where
  now : ℕ
  pins : ℕ → Bool
  currentStatus : Status
  advBlinkOn : Bool
  advSlowPhase : Bool
  advBlinkWork : Work

/-- The statics at boot, and the pins behind `leds_init`. -/
def ledsInit : Leds where
  now := 0
  pins := fun _ => false
  currentStatus := .connected
  advBlinkOn := false
  advSlowPhase := false
  advBlinkWork := idle

def advBlinkOnMs : ℕ := 30

def advBlinkOffFast : ℕ := 300

def advBlinkOffSlow : ℕ := 2000

/-- `gpio_pin_set_dt` under the test for an LED the board does not have. -/
def setPin (led : Option ℕ) (on : Bool) (l : Leds) : Leds :=
  match led with
  | none => l
  | some p => { l with pins := Function.update l.pins p on }

def Leds.lit (l : Leds) (led : Option ℕ) : Bool := led.any l.pins

def rescheduleBlink (delay : ℕ) (l : Leds) : Leds :=
  { l with advBlinkWork := reschedule l.now delay l.advBlinkWork }

def submitBlink (l : Leds) : Leds := { l with advBlinkWork := rescheduleNoWait l.advBlinkWork }

def cancelBlink (l : Leds) : Leds := { l with advBlinkWork := cancel l.advBlinkWork }

def finishBlink (l : Leds) : Leds := { l with advBlinkWork := finish l.advBlinkWork }

@[simp] theorem setPin_status (led : Option ℕ) (on : Bool) (l : Leds) :
    (setPin led on l).currentStatus = l.currentStatus := by
  cases led <;> rfl

theorem setPin_lit {board : Board} (hb : Distinct board) (q r : Status) (on : Bool) (l : Leds) :
    (setPin (board q) on l).lit (board r) = if r = q then on else l.lit (board r) := by
  obtain ⟨p,hp⟩ := Option.isSome_iff_exists.mp (hb.wired q)
  obtain ⟨p',hp'⟩ := Option.isSome_iff_exists.mp (hb.wired r)
  have hpr : p' = p ↔ r = q := by
    rw [← hb.distinct.eq_iff, hp, hp', Option.some_inj]
  simp [setPin, Leds.lit, hp, hp', Function.update_apply, hpr]

/-- Where a running `set_status_leds` stands. `off` is the loop at one role. -/
inductive Call where
  | store (state : Status)
  | off (state role : Status)
  | clearBlink
  | reschedule
  | cancel (state : Solid)
  | on (state : Solid)
  deriving DecidableEq

def drive (state : Status) : Call :=
  if h : state = .advertising then .clearBlink else .cancel ⟨state,h⟩

def callNext (board : Board) : Call → Leds → Leds × Option Call
  | .store state, l => ({ l with currentStatus := state }, some (.off state .connected))
  | .off state .connected, l =>
    (setPin (board .connected) false l, some (.off state .advertising))
  | .off state .advertising, l => (setPin (board .advertising) false l, some (.off state .error))
  | .off state .error, l => (setPin (board .error) false l, some (drive state))
  | .clearBlink, l => ({ l with advBlinkOn := false }, some .reschedule)
  | .reschedule, l => (submitBlink l, none)
  | .cancel state, l => (cancelBlink l, some (.on state))
  | .on state, l => (setPin (board state) true l, none)

/-- Where `adv_blink_handler` stands, at `leave` with nothing left but to return. -/
inductive BlinkPc where
  | check
  | load
  | store (on : Bool)
  | level
  | pin (on : Bool)
  | delay
  | phase
  | reschedule (ms : ℕ)
  | leave
  deriving DecidableEq

def blinkNext (board : Board) : BlinkPc → Leds → Leds × Option BlinkPc
  | .check, l =>
    (l, some (if l.currentStatus ≠ .advertising ∨ board .advertising = none then .leave
      else .load))
  | .load, l => (l, some (.store !l.advBlinkOn))
  | .store on, l => ({ l with advBlinkOn := on }, some .level)
  | .level, l => (l, some (.pin l.advBlinkOn))
  | .pin on, l => (setPin (board .advertising) on l, some .delay)
  | .delay, l => (l, some (if l.advBlinkOn then .reschedule advBlinkOnMs else .phase))
  | .phase, l =>
    (l, some (.reschedule (if l.advSlowPhase then advBlinkOffSlow else advBlinkOffFast)))
  | .reschedule ms, l => (rescheduleBlink ms l, some .leave)
  | .leave, l => (finishBlink l, none)

/-- The contexts which call `set_status_leds`: `main`, the handlers of the work
queue, and two connection callbacks. -/
inductive Caller where
  | main
  | work
  | connected
  | recycled
  deriving DecidableEq, Repr

instance : Fintype Caller := ⟨{.main,.work,.connected,.recycled},by rintro ⟨⟩ <;> decide⟩

structure State where
  leds : Leds
  calls : Caller → Option Call
  blink : Option BlinkPc

def init : State where
  leds := ledsInit
  calls := fun _ => none
  blink := none

/-- `phase` is the store to `adv_slow_phase` of the advertising functions. -/
inductive Label where
  | wait (ms : ℕ)
  | expire
  | enter
  | begin (T : Caller) (state : Status)
  | phase (slow : Bool)
  | call (T : Caller)
  | blink
  deriving DecidableEq, Repr

def setCall (s : State) (T : Caller) (c : Leds × Option Call) : State where
  leds := c.1
  calls := Function.update s.calls T c.2
  blink := s.blink

def setBlink (s : State) (b : Leds × Option BlinkPc) : State where
  leds := b.1
  calls := s.calls
  blink := b.2

/-- The queue's thread runs one handler at a time: the blink handler, or one
which calls `set_status_leds`. -/
def step (board : Board) (s : State) : Label → Option State
  | .wait ms => some { s with leds := { s.leds with now := s.leds.now+ms } }
  | .expire =>
    (expire s.leds.now s.leds.advBlinkWork).map fun w =>
      { s with leds := { s.leds with advBlinkWork := w } }
  | .enter =>
    if s.blink = none ∧ s.calls .work = none then
      (take s.leds.advBlinkWork).map fun w =>
        setBlink s ({ s.leds with advBlinkWork := w }, some .check)
    else none
  | .begin T state =>
    if s.calls T = none ∧ (T = .work → s.blink = none) then
      some (setCall s T (s.leds, some (.store state)))
    else none
  | .phase slow => some { s with leds := { s.leds with advSlowPhase := slow } }
  | .call T => (s.calls T).map fun c => setCall s T (callNext board c s.leds)
  | .blink => s.blink.map fun pc => setBlink s (blinkNext board pc s.leds)

variable {board : Board} {s t : State}

theorem step_call {T : Caller} :
    step board s (.call T) = some t ↔
      ∃ c, s.calls T = some c ∧ setCall s T (callNext board c s.leds) = t := by
  simp [step]

theorem step_blink :
    step board s .blink = some t ↔
      ∃ pc, s.blink = some pc ∧ setBlink s (blinkNext board pc s.leds) = t := by
  simp [step]

theorem step_begin {T : Caller} {state : Status} (h : step board s (.begin T state) = some t) :
    s.calls T = none ∧ setCall s T (s.leds, some (.store state)) = t := by
  obtain ⟨⟨hc,_⟩,ht⟩ := Option.ite_none_right_eq_some.mp h
  exact ⟨hc,Option.some.inj ht⟩

def Call.stores : Call → Option Status
  | .store state => some state
  | _ => none

/-- The GPIO write of a step: the role, and the level it is given. -/
def Call.writes : Call → Option (Status × Bool)
  | .off _ r => some (r,false)
  | .on state => some (state,true)
  | _ => none

def BlinkPc.writes : BlinkPc → Option (Status × Bool)
  | .pin on => some (.advertising,on)
  | _ => none

def stores (s : State) : Label → Option Status
  | .call T => (s.calls T).bind Call.stores
  | _ => none

def writes (s : State) : Label → Option (Status × Bool)
  | .call T => (s.calls T).bind Call.writes
  | .blink => s.blink.bind BlinkPc.writes
  | _ => none

theorem writes_cases {a : Label} {r : Status} {on : Bool} (h : writes s a = some (r,on)) :
    (∃ T state, a = .call T ∧ s.calls T = some (.off state r) ∧ on = false) ∨
    (∃ T state, a = .call T ∧ s.calls T = some (.on state) ∧ r = state.1 ∧ on = true) ∨
    a = .blink ∧ s.blink = some (.pin on) ∧ r = .advertising := by
  cases a with
  | call T =>
    obtain ⟨c,hc,hw⟩ := Option.bind_eq_some_iff.mp h
    cases c with
    | off state q =>
      obtain ⟨rfl,rfl⟩ : q = r ∧ false = on := by simpa [Call.writes] using hw
      exact Or.inl ⟨T,state,rfl,hc,rfl⟩
    | on state =>
      obtain ⟨rfl,rfl⟩ : state.1 = r ∧ true = on := by simpa [Call.writes] using hw
      exact Or.inr (Or.inl ⟨T,state,rfl,hc,rfl,rfl⟩)
    | _ => simp [Call.writes] at hw
  | blink =>
    obtain ⟨pc,hpc,hw⟩ := Option.bind_eq_some_iff.mp h
    cases pc with
    | pin on' =>
      obtain ⟨rfl,rfl⟩ : .advertising = r ∧ on' = on := by simpa [BlinkPc.writes] using hw
      exact Or.inr (Or.inr ⟨rfl,hpc,rfl⟩)
    | _ => simp [BlinkPc.writes] at hw
  | _ => simp [writes] at h

def written (w : Option (Status × Bool)) (r : Status) (lit : Bool) : Bool :=
  match w with
  | some (q,on) => if r = q then on else lit
  | none => lit

/-- The call still has to darken the LED of `r`. -/
def Call.darkens (r : Status) : Call → Bool
  | .store _ => true
  | .off _ q => q.index ≤ r.index
  | _ => false

/-- The call still has to light the LED of `r`, or to store a status. -/
def Call.relights (r : Status) : Call → Bool
  | .store _ => true
  | .off state _ => state = r
  | .cancel state | .on state => state.1 = r
  | _ => false

/-- The call still has to undo that the LED of `r` is lit, or that it is dark. -/
def undoes (r : Status) : Bool → Call → Bool
  | true => Call.darkens r
  | false => Call.relights r

def Pending (s : State) (p : Call → Bool) : Prop := ∃ T, (s.calls T).any p = true

instance (p : Call → Bool) : Decidable (Pending s p) := inferInstanceAs (Decidable (∃ _, _))

theorem callNext_status (c : Call) (l : Leds) :
    (callNext board c l).1.currentStatus = c.stores.getD l.currentStatus := by
  rcases c with _ | ⟨_,_ | _ | _⟩ | _ | _ | _ | _ <;>
    first | exact setPin_status _ _ l | rfl

theorem callNext_lit (hb : Distinct board) (c : Call) (l : Leds) (r : Status) :
    (callNext board c l).1.lit (board r) = written c.writes r (l.lit (board r)) := by
  rcases c with _ | ⟨_,_ | _ | _⟩ | _ | _ | _ | _ <;>
    first | exact setPin_lit hb _ r _ l | rfl

theorem callNext_darkens {c : Call} {r : Status} (l : Leds) (hs : c.stores = none)
    (h : c.darkens r = true) :
    (callNext board c l).2.any (Call.darkens r) = true ∨ c.writes = some (r,false) := by
  cases c with
  | store state => simp [Call.stores] at hs
  | off state q =>
    by_cases hq : q = r
    · exact Or.inr (by rw [hq]; rfl)
    · revert h
      cases q <;> cases r <;> simp_all [callNext, Call.darkens, Status.index]
  | _ => simp [Call.darkens] at h

theorem callNext_relights {c : Call} {r : Status} (l : Leds) (hr : r ≠ .advertising)
    (hs : c.stores = none) (h : c.relights r = true) :
    (callNext board c l).2.any (Call.relights r) = true ∨ c.writes = some (r,true) := by
  cases c with
  | store state => simp [Call.stores] at hs
  | off state q =>
    obtain rfl : state = r := by simpa [Call.relights] using h
    cases q <;> simp [callNext, Call.relights, drive, hr]
  | cancel state => exact Or.inl h
  | on state =>
    obtain rfl : state.1 = r := by simpa [Call.relights] using h
    exact Or.inr rfl
  | _ => simp [Call.relights] at h

theorem callNext_undoes {c : Call} {r : Status} {on : Bool} (l : Leds)
    (hr : on = false → r ≠ .advertising) (hs : c.stores = none) (h : undoes r on c = true) :
    (callNext board c l).2.any (undoes r on) = true ∨ c.writes = some (r,!on) := by
  cases on with
  | true => exact callNext_darkens l hs h
  | false => exact callNext_relights l (hr rfl) hs h

theorem callNext_stored {c : Call} {state r : Status} {on : Bool} (l : Leds)
    (hs : c.stores = some state) (hr : on = false → r = state) :
    (callNext board c l).2.any (undoes r on) = true := by
  cases c with
  | store state' =>
    obtain rfl : state' = state := Option.some.inj hs
    cases on with
    | true => simp [callNext, undoes, Call.darkens, Status.index]
    | false => simp [callNext, undoes, Call.relights, hr rfl]
  | _ => simp [Call.stores] at hs

theorem blinkNext_status (board : Board) (pc : BlinkPc) (l : Leds) :
    (blinkNext board pc l).1.currentStatus = l.currentStatus := by
  cases pc with
  | pin on => exact setPin_status _ on l
  | _ => rfl

theorem blinkNext_lit (hb : Distinct board) (pc : BlinkPc) (l : Leds) (r : Status) :
    (blinkNext board pc l).1.lit (board r) = written pc.writes r (l.lit (board r)) := by
  cases pc with
  | pin on => exact setPin_lit hb .advertising r on l
  | _ => rfl

/-- What a step does to the status, to the LEDs and to what the calls have to undo. -/
structure Moved (board : Board) (s t : State) (a : Label) : Prop where
  status : t.leds.currentStatus = (stores s a).getD s.leds.currentStatus
  lit : ∀ r, t.leds.lit (board r) = written (writes s a) r (s.leds.lit (board r))
  kept : ∀ r on, (on = false → r ≠ .advertising) → stores s a = none →
    Pending s (undoes r on) → Pending t (undoes r on) ∨ writes s a = some (r,!on)
  stored : ∀ state r on, stores s a = some state → (on = false → r = state) →
    Pending t (undoes r on)

theorem setCall_pending {p : Call → Bool} {T : Caller} {n : Leds × Option Call}
    (h : n.2.any p = true) : Pending (setCall s T n) p := ⟨T,by simpa [setCall] using h⟩

theorem pending_setCall {p : Call → Bool} {T : Caller} {n : Leds × Option Call} {X : Prop}
    (hT : (s.calls T).any p = true → n.2.any p = true ∨ X) (h : Pending s p) :
    Pending (setCall s T n) p ∨ X := by
  obtain ⟨U,hU⟩ := h
  by_cases hUT : U = T
  · rw [hUT] at hU
    exact (hT hU).imp_left setCall_pending
  · exact Or.inl ⟨U,by simpa [setCall, hUT] using hU⟩

theorem moved_frame {a : Label} (hs : stores s a = none) (hw : writes s a = none)
    (hst : t.leds.currentStatus = s.leds.currentStatus) (hpins : t.leds.pins = s.leds.pins)
    (hp : ∀ p, Pending s p → Pending t p) : Moved board s t a where
  status := by rw [hst, hs]; rfl
  lit := by
    intro r
    simp [hw, written, Leds.lit, hpins]
  kept := fun _ _ _ _ h => Or.inl (hp _ h)
  stored := by simp [hs]

theorem step_moved (hb : Distinct board) {a : Label} (h : step board s a = some t) :
    Moved board s t a := by
  cases a with
  | wait | phase =>
    obtain rfl := Option.some.inj h
    exact moved_frame rfl rfl rfl rfl (fun _ hp => hp)
  | expire =>
    obtain ⟨w,_,rfl⟩ := Option.map_eq_some_iff.mp h
    exact moved_frame rfl rfl rfl rfl (fun _ hp => hp)
  | enter =>
    obtain ⟨_,ht⟩ := Option.ite_none_right_eq_some.mp h
    obtain ⟨w,_,rfl⟩ := Option.map_eq_some_iff.mp ht
    exact moved_frame rfl rfl rfl rfl (fun _ hp => hp)
  | begin T state =>
    obtain ⟨hT,rfl⟩ := step_begin h
    refine moved_frame rfl rfl rfl rfl (fun p hp => ?_)
    exact (pending_setCall (X := False) (by simp [hT]) hp).resolve_right id
  | call T =>
    obtain ⟨c,hc,rfl⟩ := step_call.mp h
    have hsc : stores s (.call T) = c.stores := by simp [stores, hc]
    have hwc : writes s (.call T) = c.writes := by simp [writes, hc]
    refine ⟨?_,?_,?_,?_⟩
    · rw [hsc]
      exact callNext_status c s.leds
    · rw [hwc]
      exact callNext_lit hb c s.leds
    · intro r on hr hs
      rw [hwc]
      rw [hsc] at hs
      exact pending_setCall (fun hp => callNext_undoes s.leds hr hs (by simpa [hc] using hp))
    · intro state r on hs hr
      rw [hsc] at hs
      exact setCall_pending (callNext_stored s.leds hs hr)
  | blink =>
    obtain ⟨pc,hpc,rfl⟩ := step_blink.mp h
    have hw : writes s .blink = pc.writes := by simp [writes, hpc]
    refine ⟨blinkNext_status board pc s.leds,?_,fun _ _ _ _ hp => Or.inl hp,nofun⟩
    rw [hw]
    exact blinkNext_lit hb pc s.leds

end NrfProxy.StatusLeds
