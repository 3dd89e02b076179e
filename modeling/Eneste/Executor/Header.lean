import Mathlib

/-!
# Header state flags

`Header::state` in `executor.rs` is one byte of flags, changed by atomic
`fetch_or` and `fetch_and` and read by `load`.
-/

namespace Eneste.Header

abbrev Flags := BitVec 8

/-- Prevents the same task from being enqueued multiple times before it is polled. -/
def queued : Flags := 1#8 <<< 0

/-- Canceled tasks drop their future and ignore any later wake-ups. -/
def canceled : Flags := 1#8 <<< 1

/-- Completed tasks should never be queued again. -/
def completed : Flags := 1#8 <<< 2

/-- `Header::is_finished`. -/
def isFinished (state : Flags) : Bool := state &&& (canceled ||| completed) != 0

/-- The test of `schedule` on the flags it has found. -/
def isQueued (state : Flags) : Bool := state &&& queued != 0

@[simp] theorem isQueued_zero : isQueued 0#8 = false := rfl

@[simp] theorem isFinished_zero : isFinished 0#8 = false := rfl

@[simp] theorem isQueued_or_queued : ∀ state, isQueued (state ||| queued) = true := by decide

@[simp] theorem isFinished_or_queued :
    ∀ state, isFinished (state ||| queued) = isFinished state := by decide

@[simp] theorem isQueued_and_not_queued :
    ∀ state, isQueued (state &&& ~~~queued) = false := by decide

@[simp] theorem isFinished_and_not_queued :
    ∀ state, isFinished (state &&& ~~~queued) = isFinished state := by decide

@[simp] theorem isFinished_or_canceled : ∀ state, isFinished (state ||| canceled) = true := by
  decide

@[simp] theorem isQueued_or_canceled :
    ∀ state, isQueued (state ||| canceled) = isQueued state := by decide

@[simp] theorem isFinished_or_completed : ∀ state, isFinished (state ||| completed) = true := by
  decide

@[simp] theorem isQueued_or_completed :
    ∀ state, isQueued (state ||| completed) = isQueued state := by decide

end Eneste.Header
