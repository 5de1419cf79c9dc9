import Mathlib.Tactic

/-!
# Delayable work items

A work item of a kernel work queue has a timer and a place in the queue, and
may hold both at once: rescheduling moves the timer and leaves a submitted
item where it is. Cancelling takes back both, but not a handler which has begun:
the item then stays cancelled until that handler has returned, and whatever
submits it before is refused.
-/

set_option autoImplicit false

namespace NrfProxy.Delayable

/-- `running` and `canceling` are K_WORK_RUNNING and K_WORK_CANCELING: the
queue's thread clears both behind the handler. -/
inductive Handler where
  | returned
  | running
  | canceling
  deriving DecidableEq, Repr

structure Work where
  scheduled : Option ℕ
  queued : Bool
  handler : Handler
  deriving DecidableEq, Repr

def idle : Work := ⟨none,false,.returned⟩

def Work.pending (w : Work) : Bool := w.scheduled.isSome || w.queued

/-- A cancelled item is refused with -EBUSY. -/
def submit (w : Work) : Work := if w.handler = .canceling then w else { w with queued := true }

def reschedule (now delay : ℕ) (w : Work) : Work := { w with scheduled := some (now+delay) }

/-- `k_work_reschedule` with K_NO_WAIT. -/
def rescheduleNoWait (w : Work) : Work := submit { w with scheduled := none }

def cancel (w : Work) : Work where
  scheduled := none
  queued := false
  handler := if w.handler = .returned then .returned else .canceling

/-- The timer runs out and submits the item. Nobody hears of a refusal. -/
def expire (now : ℕ) (w : Work) : Option Work :=
  match w.scheduled with
  | some t => if t ≤ now then some (submit { w with scheduled := none }) else none
  | none => none

def take (w : Work) : Option Work :=
  if w.queued then some { w with queued := false, handler := .running } else none

def finish (w : Work) : Work := { w with handler := .returned }

@[simp] theorem idle_pending : idle.pending = false := rfl

@[simp] theorem cancel_pending (w : Work) : (cancel w).pending = false := rfl

@[simp] theorem finish_pending (w : Work) : (finish w).pending = w.pending := rfl

@[simp] theorem reschedule_pending (now delay : ℕ) (w : Work) :
    (reschedule now delay w).pending = true := rfl

theorem submit_of_ne {w : Work} (h : w.handler ≠ .canceling) :
    submit w = { w with queued := true } := if_neg h

@[simp] theorem submit_scheduled (w : Work) : (submit w).scheduled = w.scheduled := by
  unfold submit
  split <;> rfl

@[simp] theorem submit_handler (w : Work) : (submit w).handler = w.handler := by
  unfold submit
  split <;> rfl

theorem expire_some {now : ℕ} {w v : Work} : expire now w = some v ↔
    (∃ t, w.scheduled = some t ∧ t ≤ now) ∧ v = submit { w with scheduled := none } := by
  cases h : w.scheduled <;> simp [expire, h, eq_comm]

theorem take_some {w v : Work} :
    take w = some v ↔ w.queued = true ∧ v = { w with queued := false, handler := .running } := by
  cases h : w.queued <;> simp [take, h, eq_comm (a := v)]

theorem take_pending {w v : Work} (h : take w = some v) : w.pending = true := by
  simp [Work.pending, (take_some.mp h).1]

theorem expire_scheduled {now : ℕ} {w v : Work} (h : expire now w = some v) :
    v.scheduled = none := by
  obtain ⟨_,rfl⟩ := expire_some.mp h
  simp

theorem expire_handler {now : ℕ} {w v : Work} (h : expire now w = some v) :
    v.handler = w.handler := by
  obtain ⟨_,rfl⟩ := expire_some.mp h
  simp

theorem expire_submitted {now : ℕ} {w v : Work} (h : expire now w = some v) :
    v.pending = (submit w).queued := by
  obtain ⟨_,rfl⟩ := expire_some.mp h
  simp only [Work.pending, submit]
  split <;> simp

theorem expire_was_pending {now : ℕ} {w v : Work} (h : expire now w = some v) :
    w.pending = true := by
  obtain ⟨⟨t,ht,_⟩,_⟩ := expire_some.mp h
  simp [Work.pending, ht]

theorem expire_queued {now : ℕ} {w v : Work} (hw : w.handler ≠ .canceling)
    (h : expire now w = some v) : v = { w with scheduled := none, queued := true } := by
  obtain ⟨_,rfl⟩ := expire_some.mp h
  exact submit_of_ne hw

theorem expire_pending {now : ℕ} {w v : Work} (hw : w.handler ≠ .canceling)
    (h : expire now w = some v) : v.pending = true := by
  rw [expire_queued hw h]
  rfl

/-- The handler of the item is not entered before `d`. -/
def NotBefore (d : ℕ) (w : Work) : Prop := w.queued = false ∧ ∀ t, w.scheduled = some t → d ≤ t

theorem cancel_notBefore (d : ℕ) (w : Work) : NotBefore d (cancel w) := ⟨rfl,by simp [cancel]⟩

theorem reschedule_notBefore {d now delay : ℕ} {w : Work} (hq : w.queued = false)
    (h : d ≤ now+delay) : NotBefore d (reschedule now delay w) := by
  refine ⟨hq,?_⟩
  intro t ht
  obtain rfl : now+delay = t := Option.some.inj ht
  exact h

theorem expire_notBefore {d now : ℕ} {w v : Work} (hw : NotBefore d w)
    (h : expire now w = some v) : d ≤ now := by
  obtain ⟨⟨t,ht,hn⟩,_⟩ := expire_some.mp h
  exact (hw.2 t ht).trans hn

theorem take_notBefore {d : ℕ} {w : Work} (hw : NotBefore d w) : take w = none := by
  simp [take, hw.1]

end NrfProxy.Delayable
