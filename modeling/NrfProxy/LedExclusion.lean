import NrfProxy.StatusLeds

/-!
# One LED at a time

The status names the LED that should be lit. A call which runs alone sees to
that; of calls which overlap, one may write a pin on behalf of a status another
has replaced. A write out of order is one that no running call will undo.
-/

set_option autoImplicit false

namespace NrfProxy.LedExclusion
open NrfProxy.Runs NrfProxy.StatusLeds

structure Exclusive (board : Board) (l : Leds) : Prop where
  alone : ∀ r, l.lit (board r) = true → r = l.currentStatus
  solid : l.currentStatus ≠ .advertising → l.lit (board l.currentStatus) = true
  dark : l.currentStatus ≠ .advertising → l.lit (board .advertising) = false

/-- The LED of `r` is lit against the status, or dark although the status is solid. -/
def Wrong (status r : Status) : Bool → Prop
  | true => r ≠ status
  | false => r ≠ .advertising ∧ r = status

instance (status r : Status) : ∀ on, Decidable (Wrong status r on)
  | true => inferInstanceAs (Decidable (_ ≠ _))
  | false => inferInstanceAs (Decidable (_ ∧ _))

/-- A pin is written against the status only under a call which will undo it: one
that still has to darken the LED, or one that still has to light it or to store a
status. -/
def Orderly (s : State) (a : Label) : Prop :=
  ∀ r on, writes s a = some (r,on) → Wrong s.leds.currentStatus r on → Pending s (undoes r on)

instance (s : State) (a : Label) : Decidable (Orderly s a) := inferInstanceAs (Decidable (∀ _, _))

/-- The LEDs which are `on` against the status have a call to undo it. -/
def Answered (board : Board) (on : Bool) (s : State) : Prop :=
  ∀ r, s.leds.lit (board r) = on → Wrong s.leds.currentStatus r on → Pending s (undoes r on)

def Rest (s : State) : Prop := (∀ T, s.calls T = none) ∧ s.blink = none

variable {board : Board} {s t : State} {a : Label}

theorem Wrong.solid {status r : Status} {on : Bool} (h : Wrong status r on) (hon : on = false) :
    r ≠ .advertising := by
  rw [hon] at h
  exact h.1

theorem exclusive_of_right {l : Leds}
    (h : ∀ r, ¬Wrong l.currentStatus r (l.lit (board r))) : Exclusive board l := by
  have halone (r : Status) (hl : l.lit (board r) = true) : r = l.currentStatus := by
    by_contra hr
    exact h r (by rw [hl]; exact hr)
  refine ⟨halone,fun hne => ?_,fun hne => ?_⟩
  · by_contra hl
    exact h _ (by rw [Bool.eq_false_of_not_eq_true hl]; exact ⟨hne,rfl⟩)
  · by_contra hl
    exact hne (halone _ (Bool.eq_true_of_not_eq_false hl)).symm

theorem not_exclusive_of_wrong {l : Leds} {r : Status}
    (h : Wrong l.currentStatus r (l.lit (board r))) : ¬Exclusive board l := by
  intro he
  cases hl : l.lit (board r) with
  | true =>
    rw [hl] at h
    exact h (he.alone r hl)
  | false =>
    rw [hl] at h
    obtain ⟨hne,rfl⟩ := h
    simp [he.solid hne] at hl

theorem written_eq {w : Option (Status × Bool)} {r : Status} {lit on : Bool}
    (h : written w r lit = on) : w = some (r,on) ∨ lit = on := by
  rcases w with _ | ⟨q,on'⟩
  · exact Or.inr h
  · by_cases hr : r = q
    · obtain rfl : on' = on := by simpa [written, hr] using h
      exact Or.inl (by rw [hr])
    · exact Or.inr (by simpa [written, hr] using h)

theorem status_kept (hm : Moved board s t a) (hs : stores s a = none) :
    t.leds.currentStatus = s.leds.currentStatus := by rw [hm.status, hs]; rfl

theorem init_answered (board : Board) : Answered board true init := by
  intro r hl
  cases hr : board r <;> simp [init, ledsInit, Leds.lit, hr] at hl

theorem moved_answered {on : Bool} (hm : Moved board s t a) (ho : Orderly s a)
    (hi : Answered board on s) : Answered board on t := by
  intro r hl hw
  cases hs : stores s a with
  | some state =>
    have hst : t.leds.currentStatus = state := by rw [hm.status, hs]; rfl
    refine hm.stored state r on hs (fun hon => ?_)
    subst hon
    exact hw.2.trans hst
  | none =>
    rw [status_kept hm hs] at hw
    have hwr := (hm.lit r).symm.trans hl
    have hp : Pending s (undoes r on) := by
      rcases written_eq hwr with hwr | hl
      · exact ho r on hwr hw
      · exact hi r hl hw
    refine (hm.kept r on hw.solid hs hp).resolve_right (fun hn => ?_)
    simp [hn, written] at hwr

theorem begin_answered {T : Caller} {state : Status} {on : Bool}
    (h : step board s (.begin T state) = some t) : Answered board on t := by
  obtain ⟨_,rfl⟩ := step_begin h
  intro r _ _
  apply setCall_pending
  cases on <;> rfl

def Begun (es : List Label) : Prop := ∃ T state, Label.begin T state ∈ es

theorem run_lit (hb : Distinct board) {es : List Label}
    (h : run (step board) es init = some t) (hc : AllSteps (step board) Orderly es init) :
    Answered board true t :=
  invariant_of (init_answered board)
    (fun _ _ _ hi ho hst => moved_answered (step_moved hb hst) ho hi) h hc

theorem run_dark (hb : Distinct board) {es : List Label}
    (h : run (step board) es init = some t) (hc : AllSteps (step board) Orderly es init) :
    Begun es → Answered board false t := by
  refine history (I := fun es t => Begun es → Answered board false t) nofun ?_ h hc
  rintro es s a t - hi ho hst ⟨T,state,hm⟩
  rcases List.mem_append.mp hm with hm | hm
  · exact moved_answered (step_moved hb hst) ho (hi ⟨T,state,hm⟩)
  · obtain rfl := List.mem_singleton.mp hm
    exact begin_answered hst

theorem answered_exclusive (hl : Answered board true t) (hd : Answered board false t)
    (hq : ∀ T, t.calls T = none) : Exclusive board t.leds := by
  apply exclusive_of_right
  intro r hw
  have hp : Pending t (undoes r (t.leds.lit (board r))) := by
    cases hr : t.leds.lit (board r) with
    | true => exact hl r hr (hr ▸ hw)
    | false => exact hd r hr (hr ▸ hw)
  obtain ⟨T,hT⟩ := hp
  simp [hq T] at hT

/-- Once a call has begun, the LEDs of an orderly run are exclusive in every state
in which no call is running. -/
theorem status_leds_exclusive (hb : Distinct board) {es : List Label}
    (h : run (step board) es init = some t) (hc : AllSteps (step board) Orderly es init)
    (hbegun : Begun es) (hq : ∀ T, t.calls T = none) : Exclusive board t.leds :=
  answered_exclusive (run_lit hb h hc) (run_dark hb h hc hbegun) hq

def threeLeds : Board := fun r => some r.index

theorem threeLeds_distinct : Distinct threeLeds := ⟨fun _ => rfl,by decide⟩

def wholeCall (T : Caller) (state : Status) : List Label :=
  .begin T state :: List.replicate 6 (.call T)

def pulseTested : List Label :=
  List.flatten [wholeCall .main .advertising, [.enter, .blink]]

def pulseDarkened : List Label :=
  List.flatten [pulseTested, [.begin .connected .connected, .call .connected],
    List.replicate 7 .blink, List.replicate 5 (.call .connected)]

theorem status_leds_exclusive_pulse :
    ∃ t, run (step threeLeds) pulseDarkened init = some t ∧ Rest t ∧
      Exclusive threeLeds t.leds := by
  have hc : AllSteps (step threeLeds) Orderly pulseDarkened init := by decide +kernel
  refine ⟨_,rfl,⟨by decide,rfl⟩,status_leds_exclusive threeLeds_distinct ?_ hc ?_ (by decide)⟩
  · rfl
  · exact ⟨.main,.advertising,by decide⟩

/-- The handler lights its LED behind `on_connected`. -/
def stalePulse : List Label :=
  List.flatten [pulseTested, wholeCall .connected .connected, List.replicate 7 .blink]

/-- `on_connected` overtakes the call of `advertising_start` behind its store. -/
def lateLoop : List Label :=
  List.flatten [[.begin .main .advertising, .call .main], wholeCall .connected .connected,
    List.replicate 5 (.call .main)]

theorem overlap_not_exclusive :
    (∃ t, run (step threeLeds) stalePulse init = some t ∧ Rest t ∧
      ¬Exclusive threeLeds t.leds) ∧
    ∃ t, run (step threeLeds) lateLoop init = some t ∧ Rest t ∧ ¬Exclusive threeLeds t.leds := by
  refine ⟨⟨_,rfl,⟨by decide,rfl⟩,fun h => ?_⟩,⟨_,rfl,⟨by decide,rfl⟩,fun h => ?_⟩⟩
  · exact absurd (h.alone .advertising (by decide)) (by decide)
  · exact absurd (h.solid (by decide)) (by decide)

/-- No call begins and the handler is not entered while a call or the handler runs. -/
def Apart (s : State) : Label → Prop
  | .begin _ _ | .enter => Rest s
  | _ => True

def stored : Call → Option Status
  | .store _ => none
  | .off state _ => some state
  | .clearBlink | .reschedule => some .advertising
  | .cancel state | .on state => some state

structure Solo (s : State) : Prop where
  alone : ∀ T c, s.calls T = some c → (∀ U, U ≠ T → s.calls U = none) ∧ s.blink = none
  status : ∀ T c, s.calls T = some c → ∀ state ∈ stored c, state = s.leds.currentStatus
  blink : ∀ pc, s.blink = some pc → pc ≠ .check → pc ≠ .leave →
    s.leds.currentStatus = .advertising

theorem Rest.solo (h : Rest s) : Solo s := by
  constructor <;> simp [h.1, h.2]

theorem Solo.calls {pc : BlinkPc} (hs : Solo s) (hpc : s.blink = some pc) (T : Caller) :
    s.calls T = none := by
  by_contra hT
  obtain ⟨c,hc⟩ := Option.ne_none_iff_exists'.mp hT
  simp [(hs.alone T c hc).2] at hpc

theorem callNext_stored_status {c c' : Call} {l : Leds} {state : Status}
    (hc : ∀ state ∈ stored c, state = l.currentStatus) (hn : (callNext board c l).2 = some c')
    (h : state ∈ stored c') : state = (callNext board c l).1.currentStatus := by
  rw [callNext_status]
  cases c with
  | store state' =>
    obtain rfl := Option.some.inj hn
    simpa [stored, Call.stores, eq_comm] using h
  | off state' q =>
    obtain rfl := hc state' rfl
    have hst : state = l.currentStatus := by
      cases q with
      | error =>
        obtain rfl := Option.some.inj hn
        unfold drive at h
        split at h <;> simp_all [stored]
      | _ =>
        obtain rfl := Option.some.inj hn
        simpa [stored, eq_comm] using h
    exact hst
  | clearBlink | cancel =>
    obtain rfl := Option.some.inj hn
    exact hc state h
  | _ => simp [callNext] at hn

theorem setCall_solo {T : Caller} {n : Leds × Option Call}
    (hother : ∀ U, U ≠ T → s.calls U = none) (hbl : s.blink = none)
    (hst : ∀ c, n.2 = some c → ∀ state ∈ stored c, state = n.1.currentStatus) :
    Solo (setCall s T n) := by
  have hcall (U : Caller) (c : Call) (hc : (setCall s T n).calls U = some c) :
      U = T ∧ n.2 = some c := by
    by_cases hU : U = T
    · exact ⟨hU,by simpa [setCall, hU] using hc⟩
    · simp [setCall, hU, hother U hU] at hc
  refine ⟨fun U c hc => ⟨fun V hV => ?_,hbl⟩,fun U c hc => hst c (hcall U c hc).2,?_⟩
  · obtain ⟨rfl,_⟩ := hcall U c hc
    simp [setCall, hV, hother V hV]
  · simp [setCall, hbl]

theorem step_solo (hs : Solo s) (ha : Apart s a) (h : step board s a = some t) : Solo t := by
  cases a with
  | wait | phase =>
    obtain rfl := Option.some.inj h
    exact ⟨hs.alone,hs.status,hs.blink⟩
  | expire =>
    obtain ⟨w,_,rfl⟩ := Option.map_eq_some_iff.mp h
    exact ⟨hs.alone,hs.status,hs.blink⟩
  | enter =>
    obtain ⟨_,ht⟩ := Option.ite_none_right_eq_some.mp h
    obtain ⟨w,_,rfl⟩ := Option.map_eq_some_iff.mp ht
    constructor <;> simp [setBlink, ha.1]
  | begin T state =>
    obtain ⟨_,rfl⟩ := step_begin h
    refine setCall_solo (fun U _ => ha.1 U) ha.2 (fun c hc => ?_)
    obtain rfl := Option.some.inj hc
    exact nofun
  | call T =>
    obtain ⟨c,hc,rfl⟩ := step_call.mp h
    obtain ⟨hother,hbl⟩ := hs.alone T c hc
    exact setCall_solo hother hbl
      (fun c' hn state hst => callNext_stored_status (hs.status T c hc) hn hst)
  | blink =>
    obtain ⟨pc,hpc,rfl⟩ := step_blink.mp h
    have hnone := hs.calls hpc
    refine ⟨?_,?_,fun pc' hn _ hleave => ?_⟩
    · simp [setBlink, hnone]
    · simp [setBlink, hnone]
    · have hst := blinkNext_status board pc s.leds
      cases pc with
      | check =>
        obtain rfl := Option.some.inj hn
        by_contra hadv
        simp [setBlink, blinkNext] at hadv
        simp [hadv] at hleave
      | leave => simp [setBlink, blinkNext] at hn
      | _ => exact hst.trans (hs.blink _ hpc (by simp) (by simp))

theorem solo_orderly (hs : Solo s) : Orderly s a := by
  intro r on hwr hw
  rcases writes_cases hwr with ⟨T,state,rfl,hc,rfl⟩ | ⟨T,state,rfl,hc,rfl,rfl⟩ | ⟨rfl,hpc,rfl⟩
  · have hst : state = s.leds.currentStatus := hs.status T _ hc state rfl
    exact ⟨T,by simp [hc, undoes, Call.relights, hst, hw.2]⟩
  · exact absurd (hs.status T _ hc state rfl) hw
  · have hst := hs.blink _ hpc (by simp) (by simp)
    cases on with
    | true => exact absurd hst.symm hw
    | false => exact absurd rfl hw.1

theorem apart_exclusive (hb : Distinct board) {es : List Label}
    (h : run (step board) es init = some t) (hc : AllSteps (step board) Apart es init)
    (hbegun : Begun es) (hq : ∀ T, t.calls T = none) : Exclusive board t.leds := by
  have hsolo : Solo init := Rest.solo ⟨fun _ => rfl,rfl⟩
  have ho : AllSteps (step board) Orderly es init :=
    allSteps_imp (fun _ _ _ => step_solo) (fun _ _ hs _ => solo_orderly hs) hsolo hc
  exact answered_exclusive (run_lit hb h ho) (run_dark hb h ho hbegun) hq

def callLeft : Call → ℕ
  | .store _ => 6
  | .off _ r => 5-r.index
  | .clearBlink | .cancel _ => 2
  | .reschedule | .on _ => 1

def blinkLeft : BlinkPc → ℕ
  | .check => 9
  | .load => 8
  | .store _ => 7
  | .level => 6
  | .pin _ => 5
  | .delay => 4
  | .phase => 3
  | .reschedule _ => 2
  | .leave => 1

def left (s : State) : ℕ := (∑ T, (s.calls T).elim 0 callLeft)+s.blink.elim 0 blinkLeft

theorem callNext_left (c : Call) (l : Leds) :
    (callNext board c l).2.elim 0 callLeft < callLeft c := by
  rcases c with _ | ⟨state,_ | _ | _⟩ | _ | _ | _ | _
  case off.error => cases state <;> simp [callNext, drive, callLeft, Status.index]
  all_goals simp [callNext, callLeft, Status.index]

theorem blinkNext_left (board : Board) (pc : BlinkPc) (l : Leds) :
    (blinkNext board pc l).2.elim 0 blinkLeft < blinkLeft pc := by
  cases pc with
  | check | delay =>
    dsimp only [blinkNext]
    split <;> simp [blinkLeft]
  | _ => simp [blinkNext, blinkLeft]

theorem call_left {T : Caller} (h : step board s (.call T) = some t) : left t < left s := by
  obtain ⟨c,hc,rfl⟩ := step_call.mp h
  refine Nat.add_lt_add_right (Finset.sum_lt_sum (fun U _ => ?_) ⟨T,Finset.mem_univ T,?_⟩) _
  · by_cases hU : U = T
    · simpa [setCall, hU, hc] using (callNext_left c s.leds).le
    · simp [setCall, hU]
  · simpa [setCall, hc] using callNext_left c s.leds

theorem blink_left (h : step board s .blink = some t) : left t < left s := by
  obtain ⟨pc,hpc,rfl⟩ := step_blink.mp h
  have hlt := blinkNext_left board pc s.leds
  simpa [left, setBlink, hpc] using hlt

def pastPin : BlinkPc → Bool
  | .delay | .phase | .reschedule _ | .leave => true
  | _ => false

/-- The LED of `r` is `on` against the status, and nothing which runs will undo it. -/
structure Stuck (board : Board) (r : Status) (on : Bool) (s : State) : Prop where
  lit : s.leds.lit (board r) = on
  wrong : Wrong s.leds.currentStatus r on
  calls : ¬Pending s (undoes r on)
  blink : r = .advertising → s.blink.all pastPin = true

def Running (a : Label) : Prop := a = .blink ∨ ∃ T, a = .call T

theorem callNext_back {c : Call} {r : Status} {on : Bool} (l : Leds)
    (h : (callNext board c l).2.any (undoes r on) = true) : undoes r on c = true := by
  rcases c with _ | ⟨state,_ | _ | _⟩ | _ | _ | _ | _
  case store => cases on <;> rfl
  case off.error =>
    cases state <;> cases on <;> simp_all [callNext, drive, undoes, Call.darkens, Call.relights]
  all_goals
    cases on <;> cases r <;>
      simp_all [callNext, undoes, Call.darkens, Call.relights, Status.index]

theorem running_back {r : Status} {on : Bool} (ha : Running a) (h : step board s a = some t)
    (ht : Pending t (undoes r on)) : Pending s (undoes r on) := by
  rcases ha with rfl | ⟨T,rfl⟩
  · obtain ⟨pc,_,rfl⟩ := step_blink.mp h
    exact ht
  · obtain ⟨c,hc,rfl⟩ := step_call.mp h
    obtain ⟨U,hU⟩ := ht
    by_cases hUT : U = T
    · have hn : (callNext board c s.leds).2.any (undoes r on) = true := by
        simpa [setCall, hUT] using hU
      exact ⟨T,by simpa [hc] using callNext_back s.leds hn⟩
    · exact ⟨U,by simpa [setCall, hUT] using hU⟩

theorem running_past (ha : Running a) (h : step board s a = some t)
    (hp : s.blink.all pastPin = true) : t.blink.all pastPin = true := by
  rcases ha with rfl | ⟨T,rfl⟩
  · obtain ⟨pc,hpc,rfl⟩ := step_blink.mp h
    rw [hpc] at hp
    cases pc with
    | delay =>
      dsimp only [setBlink, blinkNext]
      split <;> rfl
    | phase | reschedule | leave => rfl
    | _ => simp [pastPin] at hp
  · obtain ⟨c,_,rfl⟩ := step_call.mp h
    exact hp

theorem stores_undoes {state r : Status} {on : Bool} (h : stores s a = some state) :
    Pending s (undoes r on) := by
  cases a with
  | call T =>
    obtain ⟨c,hc,hs⟩ := Option.bind_eq_some_iff.mp h
    cases c with
    | store => exact ⟨T,by cases on <;> simp [hc, undoes, Call.darkens, Call.relights]⟩
    | _ => simp [Call.stores] at hs
  | _ => simp [stores] at h

theorem stores_none {r : Status} {on : Bool} (hn : ¬Pending s (undoes r on)) :
    stores s a = none := by
  by_contra hne
  obtain ⟨state,hst⟩ := Option.ne_none_iff_exists'.mp hne
  exact hn (stores_undoes hst)

/-- A pin is written by a call which still has to write it, or by the handler. -/
theorem writes_undoes {r : Status} {on : Bool} (h : writes s a = some (r,on)) :
    Pending s (undoes r !on) ∨ r = .advertising ∧ s.blink = some (.pin on) := by
  rcases writes_cases h with ⟨T,state,rfl,hc,rfl⟩ | ⟨T,state,rfl,hc,rfl,rfl⟩ | ⟨rfl,hpc,rfl⟩
  · exact Or.inl ⟨T,by simp [hc, undoes, Call.darkens]⟩
  · exact Or.inl ⟨T,by simp [hc, undoes, Call.relights]⟩
  · exact Or.inr ⟨rfl,hpc⟩

theorem Stuck.step {r : Status} {on : Bool} (hb : Distinct board) (ha : Running a)
    (h : step board s a = some t) (hw : Stuck board r on s) : Stuck board r on t := by
  have hm := step_moved hb h
  have hs : stores s a = none := stores_none hw.calls
  have hcalls : ¬Pending t (undoes r on) := fun ht => hw.calls (running_back ha h ht)
  refine ⟨?_,?_,hcalls,fun hr => running_past ha h (hw.blink hr)⟩
  · by_contra hl
    have hwl : written (writes s a) r (s.leds.lit (board r)) = !on :=
      (hm.lit r).symm.trans (Bool.eq_not_of_ne hl)
    rcases written_eq hwl with hwr | hlit
    · rcases writes_undoes hwr with hp | ⟨hr,hpc⟩
      · exact hw.calls (by simpa using hp)
      · simpa [hpc, pastPin] using hw.blink hr
    · simp [hw.lit] at hlit
  · rw [status_kept hm hs]
    exact hw.wrong

theorem writes_running {w : Status × Bool} (h : writes s a = some w) : Running a := by
  cases a with
  | call T => exact Or.inr ⟨T,rfl⟩
  | blink => exact Or.inl rfl
  | _ => simp [writes] at h

theorem disorder_stuck (hb : Distinct board) (ho : ¬Orderly s a) (h : step board s a = some t) :
    ∃ r on, Stuck board r on t := by
  simp only [Orderly, not_forall] at ho
  obtain ⟨r,on,hwr,hw,hn⟩ := ho
  have hm := step_moved hb h
  have hlit : t.leds.lit (board r) = on := by simp [hm.lit, hwr, written]
  have hst := status_kept hm (stores_none hn)
  have hcalls : ¬Pending t (undoes r on) := fun ht => hn (running_back (writes_running hwr) h ht)
  refine ⟨r,on,hlit,by rwa [hst],hcalls,fun hr => ?_⟩
  -- the advertising LED is lit by nobody but the handler
  rcases writes_cases hwr with ⟨T,state,_,_,hoff⟩ | ⟨T,state,_,_,hrs,_⟩ | ⟨rfl,hpc,_⟩
  · exact absurd hr (hw.solid hoff)
  · exact absurd (hrs.symm.trans hr) state.2
  · obtain ⟨pc,hpc',rfl⟩ := step_blink.mp h
    obtain rfl : BlinkPc.pin on = pc := Option.some.inj (hpc.symm.trans hpc')
    rfl

theorem running_possible (h : ¬Rest s) :
    ∃ a t, Running a ∧ step board s a = some t ∧ left t < left s := by
  by_cases hc : ∀ T, s.calls T = none
  · obtain ⟨pc,hpc⟩ := Option.ne_none_iff_exists'.mp (fun hb => h ⟨hc,hb⟩)
    have hst : step board s .blink = some (setBlink s (blinkNext board pc s.leds)) :=
      step_blink.mpr ⟨pc,hpc,rfl⟩
    exact ⟨.blink,_,Or.inl rfl,hst,blink_left hst⟩
  · obtain ⟨T,hT⟩ := not_forall.mp hc
    obtain ⟨c,hc⟩ := Option.ne_none_iff_exists'.mp hT
    have hst : step board s (.call T) = some (setCall s T (callNext board c s.leds)) :=
      step_call.mpr ⟨c,hc,rfl⟩
    exact ⟨.call T,_,Or.inr ⟨T,rfl⟩,hst,call_left hst⟩

/-- Behind each step out of order what runs already may come to rest with the LEDs
not exclusive. -/
theorem disorder_not_exclusive (hb : Distinct board) (ho : ¬Orderly s a)
    (h : step board s a = some t) :
    ∃ es u, (∀ b ∈ es, Running b) ∧ run (step board) es t = some u ∧ Rest u ∧
      ¬Exclusive board u.leds := by
  obtain ⟨r,on,hst⟩ := disorder_stuck hb ho h
  have hgo (s : State) (hw : Stuck board r on s) (hn : ¬Rest s) :
      ∃ a t, Running a ∧ step board s a = some t ∧ Stuck board r on t ∧ left t < left s := by
    obtain ⟨a,t,ha,ht,hlt⟩ := running_possible hn
    exact ⟨a,t,ha,ht,hw.step hb ha ht,hlt⟩
  obtain ⟨es,u,hes,hu,hw,hr⟩ := exists_rest left hgo hst
  exact ⟨es,u,hes,hu,hr,not_exclusive_of_wrong (hw.lit.symm ▸ hw.wrong)⟩

end NrfProxy.LedExclusion
