import NrfProxy.BondReset
import NrfProxy.OwnerReturn

/-!
# The owner over power cycles

Power may go at any step. `main` restores the bonds from flash, and wipes them when the
button was held; where one of its calls fails it stops, and the device is off the air
until the next boot. Whoever owns the device owns it over any number of boots, until
one of them finds the button held.
-/

set_option autoImplicit false

namespace NrfProxy.OwnerLifetime
open NrfProxy.Runs NrfProxy.Simulation NrfProxy.Advertiser NrfProxy.LockedMode NrfProxy.StatusLeds
open NrfProxy.BondReset NrfProxy.OwnerLock NrfProxy.DeviceParts NrfProxy.PairingLock
open NrfProxy.DeviceProgress NrfProxy.OwnerReturn

/-- The stack stores a bond as it is made. `up` is the device behind its bring-up, and
`none` where `main` has stopped, or before the first boot. -/
structure State where
  flash : List ℕ
  up : Option Device.State
  deriving DecidableEq

/-- At a boot `get` is what the reads of the button return, `e` what the calls of `main`
answer, `unpairErr` what `bt_unpair` does, and `left` the bonds a failed one leaves. -/
inductive Label where
  | on (a : Device.Label)
  | boot (button : Option Bool) (get : ℕ → PinRead) (e : Answers) (unpairErr : ℤ) (left : List ℕ)

def resets (board : Board) : Label → Bool
  | .on _ => false
  | .boot button get _ _ _ => (bondResetRequested board button get ledsInit).requested

def step (port : Bool) (board : Board) (rate : UInt32) (s : State) : Label → Option State
  | .on a => s.up.bind (fun d => (Device.step port d a).map (fun d => ⟨d.bonds,some d⟩))
  | .boot button get e unpairErr left =>
    let factoryReset := (bondResetRequested board button get ledsInit).requested
    let bonds := bootBonds factoryReset unpairErr left s.flash
    some (if .refreshLockedMode ∈ mainCalls factoryReset e then
      ⟨bonds,some (Device.init bonds rate)⟩
    else ⟨s.flash,none⟩)

/-- The accept list takes what it is told, and a failed `bt_unpair` adds no bond. -/
def Sound (s : State) : Label → Prop
  | .on a => ∀ d ∈ s.up, AcceptCalls d a
  | .boot _ _ _ _ left => left.Sublist s.flash

instance (s : State) : ∀ a : Label, Decidable (Sound s a)
  | .on a => inferInstanceAs (Decidable (∀ d ∈ s.up, AcceptCalls d a))
  | .boot _ _ _ _ left => inferInstanceAs (Decidable (left.Sublist s.flash))

variable {port : Bool} {board : Board} {rate : UInt32} {s t : State} {a : Label} {o p : ℕ}

theorem step_on {b : Device.Label} : step port board rate s (.on b) = some t ↔
    ∃ d d', s.up = some d ∧ Device.step port d b = some d' ∧ t = ⟨d'.bonds,some d'⟩ := by
  simp only [step, Option.bind_eq_some_iff, Option.map_eq_some_iff, @eq_comm _ t]
  constructor
  · rintro ⟨d,hd,d',hd',ht⟩
    exact ⟨d,d',hd,hd',ht⟩
  · rintro ⟨d,d',hd,hd',ht⟩
    exact ⟨d,hd,d',hd',ht⟩

structure Alive (port : Bool) (rate : UInt32) (s : State) : Prop where
  one : s.flash.length ≤ 1
  up : ∀ d, s.up = some d → d.bonds = s.flash ∧
    ∃ bonds, bonds.length ≤ 1 ∧ Reached port bonds rate d

theorem bootBonds_length (factoryReset : Bool) (err : ℤ) {left restored : List ℕ}
    (hl : left.Sublist restored) (hr : restored.length ≤ 1) :
    (bootBonds factoryReset err left restored).length ≤ 1 := by
  unfold bootBonds
  split
  · split
    · simp
    · exact hl.length_le.trans hr
  · exact hr

theorem step_alive (hs : Alive port rate s) (hc : Sound s a)
    (h : step port board rate s a = some t) : Alive port rate t := by
  cases a with
  | on b =>
    obtain ⟨d,d',hd,hst,rfl⟩ := step_on.mp h
    obtain ⟨_,bonds,hb,hru⟩ := hs.up d hd
    have hru' : Reached port bonds rate d' := hru.snoc (hc d hd) hst
    obtain ⟨l,hl⟩ := hru'.locking hb
    refine ⟨hl.bonds,?_⟩
    rintro _ ⟨⟩
    exact ⟨rfl,bonds,hb,hru'⟩
  | boot button get e unpairErr left =>
    obtain rfl := Option.some.inj h
    split
    · have hb := bootBonds_length (bondResetRequested board button get ledsInit).requested unpairErr
        hc hs.one
      refine ⟨hb,?_⟩
      rintro _ ⟨⟩
      exact ⟨rfl,_,hb,Leads.refl _⟩
    · exact ⟨hs.one,by simp⟩

theorem run_alive {es : List Label} (hs : Alive port rate s)
    (hc : AllSteps (step port board rate) Sound es s)
    (h : run (step port board rate) es s = some t) : Alive port rate t :=
  invariant_of hs (fun _ _ _ hi hc hst => step_alive hi hc hst) h hc

theorem step_owned (hs : Alive port rate s) (ho : s.flash = [o]) (hc : Sound s a)
    (hr : resets board a = false) (h : step port board rate s a = some t) :
    t.flash = [o] ∧ ∀ p, a = .on (.attempt p) → p = o := by
  cases a with
  | on b =>
    obtain ⟨d,d',hd,hst,rfl⟩ := step_on.mp h
    -- one step of the lock the running device is
    obtain ⟨hflash,bonds,hb,hru⟩ := hs.up d hd
    obtain ⟨l,hl⟩ := hru.locking hb
    obtain ⟨m,hm,hlm⟩ := lock_part port d b d' l hl (hc d hd) hst
    have hown : l.owner = some o := by simp [hl.lock, lockOf, hflash, ho]
    obtain ⟨hkept,henter⟩ := owner_kept hl.held hown hm
    refine ⟨hlm.bond hkept,?_⟩
    rintro p ⟨⟩
    exact henter p (by simp [lockEvents])
  | boot button get e unpairErr left =>
    have hreq : (bondResetRequested board button get ledsInit).requested = false := hr
    obtain rfl := Option.some.inj h
    refine ⟨?_,by simp⟩
    split
    · simp [hreq, bootBonds, ho]
    · exact ho

theorem run_owned {es : List Label} (hs : Alive port rate s) (ho : s.flash = [o])
    (hc : AllSteps (step port board rate) Sound es s) (hr : ∀ a ∈ es, resets board a = false)
    (h : run (step port board rate) es s = some t) :
    t.flash = [o] ∧ ∀ p, .on (.attempt p) ∈ es → p = o := by
  induction es generalizing s with
  | nil =>
    obtain rfl : s = t := Option.some.inj h
    exact ⟨ho,by simp⟩
  | cons a es ih =>
    obtain ⟨r,hst,ht⟩ := Option.bind_eq_some_iff.mp h
    obtain ⟨hown,henter⟩ := step_owned hs ho hc.1 (hr a (by simp)) hst
    obtain ⟨hown',henter'⟩ := ih (step_alive hs hc.1 hst) hown (by simpa [hst] using hc.2)
      (fun b hb => hr b (by simp [hb])) ht
    refine ⟨hown',?_⟩
    intro p hp
    rcases List.mem_cons.mp hp with hp | hp
    · exact henter p hp.symm
    · exact henter' p hp

theorem on_leads {d d' : Device.State} (h : Leads (Device.step port) AcceptCalls d d') :
    Leads (step port board rate) Sound ⟨d.bonds,some d⟩ ⟨d'.bonds,some d'⟩ := by
  refine h.map (fun d => (⟨d.bonds,some d⟩ : State)) Label.on ?_ ?_
  · intro d b d' hst
    exact step_on.mpr ⟨d,d',rfl,hst,rfl⟩
  · rintro d b hb _ ⟨⟩
    exact hb

theorem transfer (port : Bool) (board : Board) (rate : UInt32) (s : State) (p : ℕ) :
    ∃ u, Leads (step port board rate) Sound s u ∧ u.flash = [p] := by
  have hreq : (bondResetRequested board (some true) (fun _ => ⟨1,Or.inl rfl⟩)
      ledsInit).requested = true := requested_iff.mpr ⟨rfl,by simp⟩
  have hboot : step port board rate s (.boot (some true) (fun _ => ⟨1,Or.inl rfl⟩) ⟨0,0,0⟩ 0 []) =
      some ⟨[],some (Device.init [] rate)⟩ := by
    simp [step, hreq, mainCalls, bootBonds]
  have hru : Reached port [] rate (Device.init [] rate) := Leads.refl _
  obtain ⟨d,hd,hbonds,hserved⟩ := reached_served (p := p) (by simp) hru (Or.inl rfl)
  have hpair : Device.step port d .pairingComplete =
      some { d with bonds := d.bonds.insert d.peer, refresh := some .count } :=
    Device.step_pairingComplete.mpr ⟨hserved.rest.task,hserved.obj,rfl⟩
  have hcalls : AcceptCalls d .pairingComplete := by
    intro b hb _ _
    rw [List.mem_singleton.mp hb]
    rfl
  refine ⟨_,((Leads.refl s).snoc (List.nil_sublist _) hboot).trans
    (on_leads ((hd.imp (fun _ _ hc => hc.1)).snoc hcalls hpair)),?_⟩
  have hempty : d.bonds = [] := hbonds
  simp [hempty, hserved.peer]

/-- Over any number of boots which do not find the button held, the owner stays the only
one, nobody else's attempt reaches the device or holds a link, and the device can be led to
an encrypted link with the owner. From any state a held button hands it to anyone. -/
theorem owned_until_reset (port : Bool) (board : Board) (rate : UInt32) (bonds : List ℕ)
    (xs ys : List Label) (s t : State) (o : ℕ) (hb : bonds.length ≤ 1)
    (hs : run (step port board rate) xs ⟨bonds,none⟩ = some s)
    (hx : AllSteps (step port board rate) Sound xs ⟨bonds,none⟩) (ho : o ∈ s.flash)
    (ht : run (step port board rate) ys s = some t)
    (hy : AllSteps (step port board rate) Sound ys s) (hr : ∀ a ∈ ys, resets board a = false) :
    t.flash = [o] ∧ (∀ p, .on (.attempt p) ∈ ys → p = o) ∧
    (∀ d, t.up = some d → (taken d.obj = true → d.peer = o) ∧
      ∃ as u, AllSteps (Device.step port) AcceptCalls as d ∧ run (Device.step port) as d = some u ∧
        Served o u) ∧
    ∀ p, ∃ zs u, AllSteps (step port board rate) Sound zs t ∧
      run (step port board rate) zs t = some u ∧ u.flash = [p] := by
  have hs' : Alive port rate s := run_alive ⟨hb,by simp⟩ hx hs
  have hown : s.flash = [o] := by
    obtain ⟨q,hq⟩ := List.length_eq_one_iff.mp
      (Nat.le_antisymm hs'.one (List.length_pos_of_mem ho))
    rw [hq] at ho ⊢
    rw [List.mem_singleton.mp ho]
  obtain ⟨hkept,henter⟩ := run_owned hs' hown hy hr ht
  refine ⟨hkept,henter,?_,?_⟩
  · intro d hd
    obtain ⟨hflash,bonds',hb',hru⟩ := (run_alive hs' hy ht).up d hd
    have hmem : o ∈ d.bonds := by simp [hflash, hkept]
    constructor
    · intro htaken
      obtain ⟨l,hl⟩ := hru.locking hb'
      exact hl.peer hmem htaken
    · obtain ⟨u,⟨as,has,hu⟩,_,hserved⟩ := reached_served hb' hru (Or.inr hmem)
      exact ⟨as,u,allSteps_mono (fun _ _ hc => hc.1) has,hu,hserved⟩
  · intro p
    obtain ⟨u,⟨zs,hz,hzu⟩,hu⟩ := transfer port board rate t p
    exact ⟨zs,u,hz,hzu,hu⟩

def bootReleased : Label := .boot (some true) (fun _ => ⟨0,Or.inr (le_refl 0)⟩) ⟨0,0,0⟩ 0 []

/-- Peer 7 pairs, and the power goes in the refresh behind it. -/
theorem owned_until_reset_power_cycle :
    [7] = [7] ∧ (∀ p, .on (.attempt p) ∈ [bootReleased] → p = 7) ∧
    (∀ d, some (Device.init [7] 115200) = some d → (taken d.obj = true → d.peer = 7) ∧
      ∃ as u, AllSteps (Device.step true) AcceptCalls as d ∧ run (Device.step true) as d = some u ∧
        Served 7 u) ∧
    ∀ p, ∃ zs u, AllSteps (step true (fun r => some r.index) 115200) Sound zs
        ⟨[7],some (Device.init [7] 115200)⟩ ∧
      run (step true (fun r => some r.index) 115200) zs ⟨[7],some (Device.init [7] 115200)⟩ =
        some u ∧ u.flash = [p] :=
  owned_until_reset true (fun r => some r.index) 115200 [] (bootReleased::pairing.map .on)
    [bootReleased] ⟨[7],some paired⟩ ⟨[7],some (Device.init [7] 115200)⟩ 7 (by decide) (by decide)
    (by decide) (by decide) (by decide) (by decide) (by decide)

end NrfProxy.OwnerLifetime
