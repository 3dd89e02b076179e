import Eneste.Executor.Executor
import Eneste.Executor.SpinLock

/-!
# The inbox

What the critical sections of `executor.rs` do with the `VecDeque` in the spin lock, and
which step of the executor is which of them. A step depends on the inbox only by what its
critical section returns.
-/

namespace Eneste

namespace Inbox

/-- What runs with the guard. -/
inductive Op where
  /-- `schedule`. -/
  | pushBack (id : Nat)
  /-- `process_tasks`. -/
  | drain (count : Nat)
  /-- `process_tasks(usize::MAX)`: no inbox is longer than that. -/
  | drainAll
  /-- `has_tasks`. -/
  | isEmpty
  /-- `ExecutorState::drop`. -/
  | take
  deriving DecidableEq

inductive Ans where
  | pushed
  | entries (ids : List Nat)
  | empty (result : Bool)
  deriving DecidableEq

def apply : Op → List Nat → Ans × List Nat
  | .pushBack id, inbox => (.pushed, inbox ++ [id])
  | .drain count, inbox =>
    let count := min count inbox.length
    (.entries (inbox.take count), inbox.drop count)
  | .drainAll, inbox => (.entries inbox, [])
  | .isEmpty, inbox => (.empty inbox.isEmpty, inbox)
  | .take, inbox => (.entries inbox, [])

/-- The entry that a critical section adds. -/
def added : Op → List Nat
  | .pushBack id => [id]
  | _ => []

/-- The entries that it takes out. -/
def removed : Ans → List Nat
  | .entries ids => ids
  | _ => []

/-- Entries go out at the front and come in at the back. -/
theorem apply_spec (op : Op) (inbox : List Nat) :
    inbox ++ added op = removed (apply op inbox).1 ++ (apply op inbox).2 := by
  cases op <;> simp [apply, added, removed]

/-- What a step of a thread puts into the inbox, when its work on it is done. -/
def enters (t : Machine.Transition (SpinLock (List Nat) Op Ans) (SpinLock.Act Op)
    (Option (AtomicObject.Visible Op Ans))) : List Nat :=
  match t.act with
  | .exit thread =>
    match t.before.phases thread with
    | .inside op _ => added op
    | _ => []
  | _ => []

/-- What it takes out of the inbox. -/
def leaves (t : Machine.Transition (SpinLock (List Nat) Op Ans) (SpinLock.Act Op)
    (Option (AtomicObject.Visible Op Ans))) : List Nat :=
  match t.act with
  | .exit thread =>
    match t.after.phases thread with
    | .leaving _ answer => removed answer
    | _ => []
  | _ => []

/-- However many threads push and however they overlap: no entry is lost, none is seen twice,
and they leave the inbox in the order in which they came. -/
theorem nothing_lost {ts s} (run : (SpinLock.machine apply []).Run ts s) :
    ts.flatMap enters = ts.flatMap leaves ++ s.value := by
  refine run.history (P := fun ts s => s.Exclusive ∧
    ts.flatMap enters = ts.flatMap leaves ++ s.value) ?_ ?_ |>.2
  · rintro _ rfl
    exact ⟨.new [], rfl⟩
  · rintro ts s act s' out ⟨exclusive, same⟩ taken
    refine ⟨exclusive.step taken, ?_⟩
    cases SpinLock.step_spec taken with
    | call | spin | acquire | enter | unlock =>
      simp only [List.flatMap_append, List.flatMap_singleton, enters, leaves, List.append_nil]
      exact same
    | @exit t op found here =>
      have still := exclusive.found t op found here
      simp [enters, leaves, here, same, apply_spec, SpinLock.phases_setPhase, still]
      rfl

/-- Two threads push, one after the other, and a third one takes what is there in between. -/
theorem pushes_kept : ∃ ts s, (SpinLock.machine apply []).Run ts s ∧
    ts.map Machine.Transition.act = [.call 1 (.pushBack 7), .call 2 (.pushBack 8),
      .attempt 2 false, .attempt 1 false, .enter 2, .exit 2, .unlock 2, .call 0 (.drain 5),
      .attempt 0 false, .enter 0, .attempt 1 false, .exit 0, .unlock 0, .attempt 1 false,
      .enter 1, .exit 1] ∧
    s.value = [7] ∧ ts.flatMap enters = [8, 7] ∧ ts.flatMap leaves ++ [7] = [8, 7] := by
  obtain ⟨ts, s, run, acts, left, entered⟩ := Machine.exists_run
    (m := SpinLock.machine apply [])
    (P := fun ts s => s.value = [7] ∧ ts.flatMap enters = [8, 7])
    [.call 1 (.pushBack 7), .call 2 (.pushBack 8), .attempt 2 false, .attempt 1 false, .enter 2,
      .exit 2, .unlock 2, .call 0 (.drain 5), .attempt 0 false, .enter 0, .attempt 1 false,
      .exit 0, .unlock 0, .attempt 1 false, .enter 1, .exit 1] rfl ⟨_, rfl, rfl, rfl⟩
  exact ⟨ts, s, run, acts, left, entered,
    (left ▸ nothing_lost run).symm.trans entered⟩

end Inbox

namespace Executor

open Header

/-- The critical section that the next operation of `schedule` is. -/
def sectionOfCall (call : Call) : Option Inbox.Op :=
  match call.pc with
  | .push => some (.pushBack call.id)
  | _ => none

/-- The critical section that a step of the executor is. -/
def sectionOf (e : Executor) : Act → Option Inbox.Op
  | .stepThread index => e.threads[index]?.bind sectionOfCall
  | .processTasks count =>
    if e.userMode && e.executors != 0 then some (.drain count) else none
  | .advance =>
    match e.stack with
    | .schedule call :: _ => sectionOfCall call
    | .blockOn _ false :: _ => some .isEmpty
    | .blockOn _ true :: _ => some .drainAll
    | .shutdown .clearInbox :: _ => some .take
    | _ => none
  | _ => none

/-- A critical section on the inbox of the executor, if there is one. -/
def afterSection (inbox : List Nat) : Option Inbox.Op → List Nat
  | none => inbox
  | some op => (Inbox.apply op inbox).2

/-- The same executor with another inbox. -/
def withInbox (e : Executor) (inbox : List Nat) : Executor := { e with inbox := inbox }

section

variable (e : Executor) (inbox : List Nat)

@[simp] theorem withInbox_inbox : (e.withInbox inbox).inbox = inbox := rfl
@[simp] theorem withInbox_self : e.withInbox e.inbox = e := rfl
@[simp] theorem withInbox_withInbox (other : List Nat) :
    (e.withInbox other).withInbox inbox = e.withInbox inbox := rfl
@[simp] theorem withInbox_stack : (e.withInbox inbox).stack = e.stack := rfl
@[simp] theorem withInbox_threads : (e.withInbox inbox).threads = e.threads := rfl
@[simp] theorem withInbox_slots : (e.withInbox inbox).slots = e.slots := rfl
@[simp] theorem withInbox_headers : (e.withInbox inbox).headers = e.headers := rfl
@[simp] theorem withInbox_handles : (e.withInbox inbox).handles = e.handles := rfl
@[simp] theorem withInbox_executors : (e.withInbox inbox).executors = e.executors := rfl
@[simp] theorem withInbox_nextId : (e.withInbox inbox).nextId = e.nextId := rfl
@[simp] theorem withInbox_userMode : (e.withInbox inbox).userMode = e.userMode := rfl
@[simp] theorem withInbox_finished : (e.withInbox inbox).finished = e.finished := rfl
@[simp] theorem withInbox_closed : (e.withInbox inbox).closed = e.closed := rfl
@[simp] theorem withInbox_returned : (e.withInbox inbox).returned = e.returned := rfl

end

section

variable (e : Executor) (inbox : List Nat)

private theorem scheduleStep_withInbox (call : Call) :
    (e.withInbox inbox).scheduleStep call =
      ((e.scheduleStep call).1.withInbox (afterSection inbox (sectionOfCall call)),
        (e.scheduleStep call).2) := by
  obtain ⟨id, pc, start⟩ := call
  cases pc with
  | loadState =>
    cases isOver : e.finished id <;> simp only [scheduleStep, withInbox_finished, isOver] <;> rfl
  | loadClosed =>
    cases closed : e.closed <;> simp only [scheduleStep, withInbox_closed, closed] <;> rfl
  | fetchOr =>
    cases set : Header.isQueued (e.headers id) <;>
      simp only [scheduleStep, withInbox_headers, set] <;> rfl
  | push | notify => rfl

private theorem dropHandle_withInbox (id : Nat) : (e.withInbox inbox).dropHandle id =
    ((e.dropHandle id).1.withInbox inbox, (e.dropHandle id).2) := by
  simp only [dropHandle, withInbox_headers, withInbox_executors, withInbox_stack, withInbox_slots]
  by_cases finished : isFinished (e.headers id) = true
  · simp only [finished, ite_true]
    rfl
  · by_cases gone : strong e.executors e.stack = 0
    · simp only [finished, gone, ite_true, ite_false, Bool.false_eq_true]
      rfl
    · by_cases present : e.slots.get? id = some true <;>
        simp only [finished, gone, present, ite_true, ite_false, Bool.false_eq_true] <;> rfl

private theorem run_withInbox (id : Nat) (batch : List Nat) (rest : List Frame) :
    (e.withInbox inbox).run id batch rest =
      ((e.run id batch rest).1.withInbox inbox, (e.run id batch rest).2) := by
  by_cases present : e.slots.get? id = some true <;>
    simp only [run, withInbox_slots, present, ite_true, ite_false] <;> rfl

end

/-- A step is one critical section or none, and sees of the inbox only what that returns: with
another inbox that answers the same it does the same to everything else. -/
theorem step_inbox (e : Executor) (act : Act) (inbox : List Nat)
    (same : ∀ op, e.sectionOf act = some op →
      (Inbox.apply op inbox).1 = (Inbox.apply op e.inbox).1) :
    (e.withInbox inbox).step act = (e.step act).map fun result =>
      (result.1.withInbox (afterSection inbox (e.sectionOf act)), result.2) := by
  cases act with
  | wakeThread | spawn | wake | detach | blockOn | cloneExecutor | dropExecutor =>
    simp only [step, Option.map_if]
    rfl
  | stepThread index =>
    simp only [step, sectionOf, withInbox_threads]
    cases e.threads[index]? with
    | none => rfl
    | some call =>
      simp only [scheduleStep_withInbox, Option.bind_some]
      rfl
  | dropHandle id =>
    simp only [step, Option.map_if, dropHandle_withInbox]
    rfl
  | processTasks count =>
    cases legal : (e.userMode && e.executors != 0) with
    | false =>
      simp only [step, withInbox_userMode, withInbox_executors, legal]
      rfl
    | true =>
      have drained : inbox.take (min count inbox.length) =
          e.inbox.take (min count e.inbox.length) := by
        simpa [Inbox.apply] using same (.drain count) (by simp only [sectionOf, legal]; rfl)
      simp only [step, sectionOf, withInbox_userMode, withInbox_executors, legal, withInbox_inbox,
        drained]
      rfl
  | pollReady | pollPanic | dropReturn =>
    simp only [step, sectionOf, afterSection, withInbox_stack]
    split <;> rfl
  | pollPending =>
    simp only [step, sectionOf, afterSection, withInbox_stack]
    split
    next id rest top =>
      cases back : ((e.slots.get? id).isSome && !e.finished id) <;>
        simp only [withInbox_slots, withInbox_finished, back] <;> rfl
    next => rfl
  | advance =>
    simp only [step, advance, sectionOf, withInbox_stack] at same ⊢
    split
    next call rest top =>
      simp only [scheduleStep_withInbox, top]
      split <;> rfl
    next rest top =>
      simp only [top]
      rfl
    next id batch rest top =>
      cases isOver : e.finished id <;> simp only [top, withInbox_finished, isOver] <;> rfl
    next id batch rest top =>
      simp only [top, run_withInbox]
      rfl
    next id rest top =>
      have empty : inbox.isEmpty = e.inbox.isEmpty := by simpa [top, Inbox.apply] using same
      by_cases none_left : e.inbox = []
      · have none_left' : inbox = [] := by simpa [none_left] using empty
        simp only [top, withInbox_inbox, none_left, none_left', ite_true]
        rfl
      · have some_left : inbox ≠ [] := by
          intro nothing
          simp [nothing, none_left] at empty
        simp only [top, withInbox_inbox, none_left, some_left, ite_false]
        rfl
    next id rest top =>
      have whole : inbox = e.inbox := by simpa [top, Inbox.apply] using same
      simp only [top, withInbox_inbox, whole]
      rfl
    next stage rest top =>
      simp only [top]
      cases stage with
      | close | clearInbox => rfl
      | cancel others => cases others <;> rfl
      | dropSlots futures => cases futures <;> rfl
    next => split <;> simp_all

/-- A step that has reached its critical section can take it, whatever is in the inbox. -/
theorem step_of_section {e : Executor} {act : Act} {op : Inbox.Op}
    (reached : e.sectionOf act = some op) : ∃ result, e.step act = some result := by
  cases act with
  | stepThread index =>
    obtain ⟨call, found, -⟩ := Option.bind_eq_some_iff.mp reached
    simp only [step, found]
    exact ⟨_, rfl⟩
  | processTasks count =>
    simp only [sectionOf] at reached
    split at reached
    next legal =>
      simp only [step, legal, ite_true]
      exact ⟨_, rfl⟩
    next => cases reached
  | advance =>
    simp only [sectionOf] at reached
    split at reached
    next call rest top =>
      simp only [step, advance, top]
      split <;> exact ⟨_, rfl⟩
    next id rest top =>
      simp only [step, advance, top]
      split <;> exact ⟨_, rfl⟩
    next id rest top =>
      simp only [step, advance, top]
      exact ⟨_, rfl⟩
    next rest top =>
      simp only [step, advance, top]
      exact ⟨_, rfl⟩
    next => cases reached
  | _ => cases reached

end Executor

end Eneste
