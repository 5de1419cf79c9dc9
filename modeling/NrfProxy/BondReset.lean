import NrfProxy.LockedMode
import NrfProxy.StatusLeds

/-!
# The bond-reset button

`bond_reset_requested` polls the button through the window of a hold, and `main`
wipes the bonds on its word. Each poll tests the result of `gpio_pin_get_dt` for
zero, so that a failed read counts as pressed.
-/

set_option autoImplicit false

namespace NrfProxy.BondReset
open NrfProxy.Delayable NrfProxy.LockedMode NrfProxy.StatusLeds

/-- What `gpio_pin_get_dt` returns: pressed, released, or a negative errno. -/
abbrev PinRead := {r : ℤ // r = 1 ∨ r ≤ 0}

def bondResetHoldMs : ℕ := 3000

def holdTimes : List ℕ := List.range' 0 (bondResetHoldMs/100) 100

def holdReads : ℕ := 1+bondResetHoldMs/100

structure Poll where
  requested : Bool
  reads : ℕ
  leds : Leds

def sleep (ms : ℕ) (l : Leds) : Leds := { l with now := l.now+ms }

def holdLoop (led : Option ℕ) (get : ℕ → PinRead) : List ℕ → ℕ → Leds → Poll
  | [], k, l => ⟨true,k,setPin led false l⟩
  | elapsed::rest, k, l =>
    if (get k).1 = 0 then ⟨false,k+1,setPin led false l⟩
    else holdLoop led get rest (k+1) (sleep 100 (setPin led ((elapsed/100) &&& 1 ≠ 0) l))

/-- `button` is `none` on a board without the alias, and otherwise tells whether the
port is ready. The `k`-th read returns `get k`. -/
def bondResetRequested (board : Board) (button : Option Bool) (get : ℕ → PinRead) (l : Leds) :
    Poll :=
  if button ≠ some true then ⟨false,0,l⟩
  else if (get 0).1 = 0 then ⟨false,1,l⟩
  else holdLoop (board .advertising) get holdTimes 1 l

inductive BootCall where
  | uartBridgeInit
  | identityInit
  | btEnable
  | btConnAuthInfoCbRegister
  | settingsLoad
  | btSetName
  | btNusInit
  | btUnpair
  | refreshLockedMode
  | advertisingStart
  | setStatusLeds (state : Status)
  deriving DecidableEq, Repr

structure Answers where
  uartBridgeInit : ℤ
  btEnable : ℤ
  btNusInit : ℤ

def mainCalls (factoryReset : Bool) (e : Answers) : List BootCall :=
  .uartBridgeInit ::
    if e.uartBridgeInit ≠ 0 then [.setStatusLeds .error]
    else .identityInit :: .btEnable ::
      if e.btEnable ≠ 0 then [.setStatusLeds .error]
      else .btConnAuthInfoCbRegister :: .settingsLoad :: .btSetName :: .btNusInit ::
        if e.btNusInit ≠ 0 then [.setStatusLeds .error]
        else (if factoryReset then [.btUnpair] else [])++[.refreshLockedMode,.advertisingStart]

theorem btUnpair_mem {factoryReset : Bool} {e : Answers} :
    .btUnpair ∈ mainCalls factoryReset e ↔
      factoryReset = true ∧ e.uartBridgeInit = 0 ∧ e.btEnable = 0 ∧ e.btNusInit = 0 := by
  unfold mainCalls
  split_ifs <;> simp_all

variable {board : Board} {button : Option Bool} {get : ℕ → PinRead} {l : Leds}

theorem holdLoop_requested (led : Option ℕ) (ts : List ℕ) (k : ℕ) (l : Leds) :
    (holdLoop led get ts k l).requested = true ↔ ∀ i < ts.length, (get (k+i)).1 ≠ 0 := by
  induction ts generalizing k l with
  | nil => simp [holdLoop]
  | cons elapsed ts ih =>
    rw [holdLoop, List.length_cons, Nat.forall_lt_succ_left, Nat.add_zero]
    by_cases h : (get k).1 = 0
    · simp [h]
    · have hk (i : ℕ) : k+1+i = k+(i+1) := by omega
      simp [h, ih, hk]

theorem holdLoop_reads {led : Option ℕ} {ts : List ℕ} {k : ℕ} {l : Leds}
    (h : (holdLoop led get ts k l).requested = true) :
    (holdLoop led get ts k l).reads = k+ts.length := by
  induction ts generalizing k l with
  | nil => rfl
  | cons elapsed ts ih =>
    rw [holdLoop] at h ⊢
    split at h
    · exact absurd h (by simp)
    · rw [if_neg ‹_›, ih h, List.length_cons]
      omega

theorem holdTimes_length : holdTimes.length = bondResetHoldMs/100 := List.length_range'

theorem requested_iff : (bondResetRequested board button get l).requested = true ↔
    button = some true ∧ ∀ k < holdReads, (get k).1 ≠ 0 := by
  unfold bondResetRequested
  by_cases hb : button = some true
  · rw [if_neg (not_not.mpr hb), holdReads, Nat.add_comm, Nat.forall_lt_succ_left]
    by_cases h0 : (get 0).1 = 0
    · simp [h0]
    · simp [h0, hb, holdLoop_requested, holdTimes_length, Nat.add_comm 1]
  · simp [hb]

theorem requested_reads (h : (bondResetRequested board button get l).requested = true) :
    (bondResetRequested board button get l).reads = holdReads := by
  unfold bondResetRequested at h ⊢
  split_ifs at h ⊢
  · rw [holdLoop_reads h, holdTimes_length, holdReads]

/-- A wipe needs a hold: each read pressed, and no wipe behind any other read. -/
structure RealHold (board : Board) (button : Option Bool) (get : ℕ → PinRead) (l : Leds) :
    Prop where
  held : (bondResetRequested board button get l).requested = true →
    ∀ k < holdReads, (get k).1 = 1
  aborts : (∃ k < (bondResetRequested board button get l).reads, (get k).1 ≠ 1) →
    (bondResetRequested board button get l).requested = false
  wipes : ∀ e, .btUnpair ∈ mainCalls (bondResetRequested board button get l).requested e →
    ∀ k < holdReads, (get k).1 = 1

theorem realHold_of (h : (bondResetRequested board button get l).requested = true →
    ∀ k < holdReads, (get k).1 = 1) : RealHold board button get l := by
  refine ⟨h,?_,fun e he => h (btUnpair_mem.mp he).1⟩
  rintro ⟨k,hk,hne⟩
  by_contra hr
  have hreq := Bool.eq_true_of_not_eq_false hr
  rw [requested_reads hreq] at hk
  exact hne (h hreq k hk)

/-- The reads of a usable button decide: a wipe needs a hold unless some of them
fail and none is released. -/
theorem bond_reset_real_hold (board : Board) (button : Option Bool) (get : ℕ → PinRead)
    (l : Leds) :
    RealHold board button get l ↔
      (button = some true → (∀ k < holdReads, 0 ≤ (get k).1) ∨ ∃ k < holdReads, (get k).1 = 0) := by
  constructor
  · intro h hb
    by_cases hz : ∃ k < holdReads, (get k).1 = 0
    · exact Or.inr hz
    · refine Or.inl (fun k hk => ?_)
      have hne : ∀ k < holdReads, (get k).1 ≠ 0 := by simpa using hz
      rw [h.held (requested_iff.mpr ⟨hb,hne⟩) k hk]
      exact Int.one_nonneg
  · intro h
    apply realHold_of
    intro hr k hk
    obtain ⟨hb,hne⟩ := requested_iff.mp hr
    rcases h hb with hp | ⟨j,hj,hz⟩
    · have h0 := hne k hk
      have hle := hp k hk
      rcases (get k).2 with h1 | h1
      · exact h1
      · omega
    · exact absurd hz (hne j hj)

def failingPin : ℕ → PinRead := fun _ => ⟨-5,by decide⟩

/-- The bonds are wiped with nobody at the button. -/
theorem failing_pin_wipes :
    (bondResetRequested (fun r => some r.index) (some true) failingPin ledsInit).requested = true ∧
    .btUnpair ∈ mainCalls true ⟨0,0,0⟩ ∧
    ¬RealHold (fun r => some r.index) (some true) failingPin ledsInit := by
  have hr : (bondResetRequested (fun r => some r.index) (some true) failingPin
      ledsInit).requested = true := requested_iff.mpr ⟨rfl,by simp [failingPin]⟩
  exact ⟨hr,by decide,fun h => absurd (h.held hr 0 (by decide)) (by decide)⟩

theorem released_keeps_bonds {k : ℕ} (hk : k < holdReads) (hz : (get k).1 = 0) (err : ℤ)
    (left restored : List ℕ) :
    bootBonds (bondResetRequested board button get l).requested err left restored = restored := by
  have hr : (bondResetRequested board button get l).requested = false := by
    by_contra hne
    exact (requested_iff.mp (Bool.eq_true_of_not_eq_false hne)).2 k hk hz
  simp [bootBonds, hr]

theorem holdLoop_leds (led : Option ℕ) (ts : List ℕ) (k : ℕ) (l : Leds)
    (hl : ∃ ms, setPin led false l = { ledsInit with now := ms }) :
    ∃ ms, (holdLoop led get ts k l).leds = { ledsInit with now := ms } := by
  induction ts generalizing k l with
  | nil => exact hl
  | cons elapsed ts ih =>
    rw [holdLoop]
    split
    · exact hl
    · apply ih
      obtain ⟨ms,hms⟩ := hl
      refine ⟨ms+100,?_⟩
      cases led with
      | none =>
        simp only [setPin] at hms ⊢
        rw [hms]
        rfl
      | some p =>
        simp only [setPin, sleep, Leds.mk.injEq, Function.update_idem] at hms ⊢
        exact ⟨by rw [hms.1],hms.2⟩

theorem bondResetRequested_leds (board : Board) (button : Option Bool) (get : ℕ → PinRead) :
    ∃ ms, (bondResetRequested board button get ledsInit).leds = { ledsInit with now := ms } := by
  unfold bondResetRequested
  split_ifs
  · exact ⟨0,rfl⟩
  · exact ⟨0,rfl⟩
  · apply holdLoop_leds
    refine ⟨0,?_⟩
    cases board .advertising with
    | none => rfl
    | some p => simp [setPin, ledsInit]

theorem leds_start (board : Board) (button : Option Bool) (get : ℕ → PinRead) :
    ∃ ms, step board init (.wait ms) =
      some { init with leds := (bondResetRequested board button get ledsInit).leds } := by
  obtain ⟨ms,hms⟩ := bondResetRequested_leds board button get
  refine ⟨ms,?_⟩
  rw [hms]
  simp [step, init, ledsInit]

end NrfProxy.BondReset
