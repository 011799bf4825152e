import Mathlib.Data.Fintype.Defs
import Mathlib.Data.Fintype.Basic

/-!
# Timers on one thread

One thread runs handlers in the order in which they were queued. A timer has at
most one wait; the clock passes at will, so a wait may be queued late, but never
before its deadline and never before a wait with an earlier one. A wait that is
cancelled does not run, one that has been queued does.
-/

namespace HeadsUp.Lib

structure TimerWait (η : Type*) where
  deadline : ℕ
  handler : η

structure Executor (τ η : Type*) where
  now : ℕ
  waits : τ → Option (TimerWait η)
  ready : List η

namespace Executor
variable {τ η : Type*}

def new : Executor τ η := ⟨0, fun _ => none, []⟩

def advance (x : Executor τ η) (ms : ℕ) : Executor τ η := { x with now := x.now + ms }

def post (x : Executor τ η) (handler : η) : Executor τ η :=
  { x with ready := x.ready ++ [handler] }

@[simp] theorem advance_now (x : Executor τ η) (ms : ℕ) : (x.advance ms).now = x.now + ms := rfl
@[simp] theorem advance_waits (x : Executor τ η) (ms : ℕ) : (x.advance ms).waits = x.waits := rfl
@[simp] theorem advance_ready (x : Executor τ η) (ms : ℕ) : (x.advance ms).ready = x.ready := rfl
@[simp] theorem post_now (x : Executor τ η) (handler : η) : (x.post handler).now = x.now := rfl
@[simp] theorem post_waits (x : Executor τ η) (handler : η) :
    (x.post handler).waits = x.waits := rfl
@[simp] theorem post_ready (x : Executor τ η) (handler : η) :
    (x.post handler).ready = x.ready ++ [handler] := rfl

/-- The wait is due, and no wait has an earlier deadline. -/
def Due (x : Executor τ η) (w : TimerWait η) : Prop :=
  w.deadline ≤ x.now ∧ ∀ timer, ∀ v ∈ x.waits timer, w.deadline ≤ v.deadline

/-- Nothing is left to run until the clock passes. -/
structure Settled (x : Executor τ η) : Prop where
  ready : x.ready = []
  waits : ∀ timer, ∀ w ∈ x.waits timer, x.now < w.deadline

section Ops
variable [DecidableEq τ]

def cancel (x : Executor τ η) (timer : τ) : Executor τ η :=
  { x with waits := Function.update x.waits timer none }

/-- The wait that was there is cancelled. -/
def wait (x : Executor τ η) (timer : τ) (ms : ℕ) (handler : η) : Executor τ η :=
  { x with waits := Function.update x.waits timer (some ⟨x.now + ms, handler⟩) }

variable [Fintype τ]

instance (x : Executor τ η) (w : TimerWait η) : Decidable (x.Due w) :=
  inferInstanceAs (Decidable (_ ∧ _))

def expire (x : Executor τ η) (timer : τ) : Executor τ η :=
  match x.waits timer with
  | none => x
  | some w => if x.Due w then (x.cancel timer).post w.handler else x

theorem expire_cases (x : Executor τ η) (timer : τ) :
    x.expire timer = x ∨
      ∃ w, x.waits timer = some w ∧ x.Due w ∧ x.expire timer = (x.cancel timer).post w.handler := by
  unfold expire
  cases hwait : x.waits timer with
  | none => exact .inl rfl
  | some w =>
    by_cases hdue : x.Due w
    · exact .inr ⟨w, rfl, hdue, if_pos hdue⟩
    · exact .inl (if_neg hdue)

omit [Fintype τ]

@[simp] theorem cancel_now (x : Executor τ η) (timer : τ) : (x.cancel timer).now = x.now := rfl
@[simp] theorem cancel_ready (x : Executor τ η) (timer : τ) :
    (x.cancel timer).ready = x.ready := rfl
@[simp] theorem wait_now (x : Executor τ η) (timer : τ) (ms : ℕ) (handler : η) :
    (x.wait timer ms handler).now = x.now := rfl
@[simp] theorem wait_ready (x : Executor τ η) (timer : τ) (ms : ℕ) (handler : η) :
    (x.wait timer ms handler).ready = x.ready := rfl

@[simp] theorem cancel_waits (x : Executor τ η) (timer other : τ) :
    (x.cancel timer).waits other = if other = timer then none else x.waits other := by
  simp only [cancel, Function.update_apply]

@[simp] theorem wait_waits (x : Executor τ η) (timer other : τ) (ms : ℕ) (handler : η) :
    (x.wait timer ms handler).waits other
      = if other = timer then some ⟨x.now + ms, handler⟩ else x.waits other := by
  simp only [wait, Function.update_apply]

end Ops
end Executor
end HeadsUp.Lib
