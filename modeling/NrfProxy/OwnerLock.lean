import NrfProxy.Runs

/-!
# A lock with one owner

One session at a time. A lock without an owner admits anyone, and whoever is in
the session may take it; a lock with an owner admits nobody else. No rule forbids
to take an owned lock: it is enough that only its owner gets in.
-/

set_option autoImplicit false

namespace NrfProxy.OwnerLock
open NrfProxy.Runs

variable {ι : Type*}

structure Lock (ι : Type*) where
  owner : Option ι
  session : Option ι
  deriving DecidableEq, Repr

inductive Event (ι : Type*) where
  | enter (p : ι)
  | claim
  | leave
  deriving DecidableEq, Repr

def step [DecidableEq ι] (l : Lock ι) : Event ι → Option (Lock ι)
  | .enter p =>
    if l.session = none ∧ (l.owner = none ∨ l.owner = some p) then some { l with session := some p }
    else none
  | .claim => l.session.map (fun p => { l with owner := some p })
  | .leave => if l.session.isSome then some { l with session := none } else none

/-- Whoever is in the session of an owned lock is its owner. -/
def Held (l : Lock ι) : Prop :=
  ∀ o p, l.owner = some o → l.session = some p → p = o

variable [DecidableEq ι] {l m : Lock ι} {o p : ι} {e : Event ι} {es : List (Event ι)}

theorem step_held (h : step l e = some m) : Held m := by
  cases e with
  | enter p =>
    obtain ⟨⟨_,ho⟩,hm⟩ := Option.ite_none_right_eq_some.mp h
    obtain rfl := Option.some.inj hm
    intro o q hown hq
    obtain rfl : p = q := Option.some.inj hq
    rcases ho with ho | ho <;> simp_all
  | claim =>
    obtain ⟨p,hp,rfl⟩ := Option.map_eq_some_iff.mp h
    intro o q hown hq
    simp_all
  | leave =>
    obtain ⟨_,hm⟩ := Option.ite_none_right_eq_some.mp h
    obtain rfl := Option.some.inj hm
    intro o q _ hq
    simp at hq

theorem step_owner (hl : Held l) (ho : l.owner = some o) (h : step l e = some m) :
    m.owner = some o ∧ ∀ p, e = .enter p → p = o := by
  cases e with
  | enter p =>
    obtain ⟨⟨_,hp⟩,hm⟩ := Option.ite_none_right_eq_some.mp h
    obtain rfl := Option.some.inj hm
    refine ⟨ho,?_⟩
    rintro q ⟨⟩
    rcases hp with hp | hp <;> simp_all
  | claim =>
    obtain ⟨p,hp,rfl⟩ := Option.map_eq_some_iff.mp h
    exact ⟨by rw [hl o p ho hp],by simp⟩
  | leave =>
    obtain ⟨_,hm⟩ := Option.ite_none_right_eq_some.mp h
    obtain rfl := Option.some.inj hm
    exact ⟨ho,by simp⟩

/-- An owner stays, and from then on nobody else enters. -/
theorem owner_kept (hl : Held l) (ho : l.owner = some o) (h : run step es l = some m) :
    m.owner = some o ∧ ∀ p, .enter p ∈ es → p = o := by
  induction es generalizing l with
  | nil =>
    obtain rfl : l = m := Option.some.inj h
    exact ⟨ho,by simp⟩
  | cons e es ih =>
    obtain ⟨k,hk,hm⟩ := Option.bind_eq_some_iff.mp h
    obtain ⟨hown,henter⟩ := step_owner hl ho hk
    obtain ⟨hown',henter'⟩ := ih (step_held hk) hown hm
    refine ⟨hown',?_⟩
    intro p hp
    rcases List.mem_cons.mp hp with rfl | hp
    · exact henter p rfl
    · exact henter' p hp

end NrfProxy.OwnerLock
