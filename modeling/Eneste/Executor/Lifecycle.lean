import Eneste.Executor.Places

/-!
# Life of a task

With polls that do not panic, whatever user code does from polls and destructors, and
whoever wakes tasks meanwhile.
-/

namespace Eneste.Executor

open Header

/-- No poll panics. -/
def calm : Machine Executor Act Event := machine.restrict fun _ act => !act matches .pollPanic

/-- The moments at which the future of a task is to be dropped. -/
def DropDue (e : Executor) (act : Act) (id : Nat) : Prop :=
  match act with
  | .dropHandle task => task = id ∧ e.finished id = false ∧ ¬ e.Polling id
  | .pollReady => ∃ rest, e.stack = .poll id :: rest
  | .pollPending => (∃ rest, e.stack = .poll id :: rest) ∧ e.released id = true
  | .advance => e.executors = 0 ∧ ∃ others rest,
      e.stack = .shutdown (.dropSlots (id :: others)) :: rest
  | _ => False

/-- An empty slot belongs to a task being polled. -/
def Taken (e : Executor) : Prop := ∀ id, e.slots.get? id = some false → e.Polling id

/-- Erasing slots empties none. -/
private theorem found_of_erase {slots : OrderedMap Nat Bool} {task id : Nat} {slot : Bool}
    (found : (slots.erase task).get? id = some slot) : id ≠ task ∧ slots.get? id = some slot := by
  rw [OrderedMap.get?_erase] at found
  split at found
  next => cases found
  next other => exact ⟨other, found⟩

/-- Filled slots are not empty. -/
private theorem found_of_insert {slots : OrderedMap Nat Bool} {task id : Nat}
    (found : (slots.insert task true).get? id = some false) :
    id ≠ task ∧ slots.get? id = some false := by
  rw [OrderedMap.get?_insert] at found
  split at found
  next => cases found
  next other => exact ⟨other, found⟩

theorem Taken.moves {e e' : Executor} {act : Act} {ev : Event} (taken : Taken e) (inv : Placed e)
    (moved : Moves e act e' ev) (calm : act ≠ .pollPanic) : Taken e' := by
  intro id found
  cases moved with
  | pollPanic => exact absurd rfl calm
  | wakeThread | dropFinished | detach | cloneExecutor => exact taken id found
  | @stepThread index call _ =>
    have same := (Executor.scheduled e call).untouched
    simp only [same.slots] at found
    simpa only [Polling, same.stack] using taken id found
  | dropPolled => exact taken id (found_of_erase found).2
  | dropPending => exact List.mem_cons_of_mem _ (taken id (found_of_erase found).2)
  | spawn => exact List.mem_cons_of_mem _ (taken id (found_of_insert found).2)
  | blockOn =>
    exact List.mem_cons_of_mem _ (List.mem_cons_of_mem _ (taken id (found_of_insert found).2))
  | wake | processTasks => exact List.mem_cons_of_mem _ (taken id found)
  | dropExecutor => exact mem_stack_release (taken id found)
  | @pollReady task rest top =>
    obtain ⟨other, found⟩ := found_of_erase found
    have below := taken id found
    simp [Polling, top, other] at below
    simp [Polling, dropFuture, below]
  | @pollPending task rest slot top =>
    obtain ⟨other, found⟩ := found_of_insert found
    have below := taken id found
    simpa [Polling, top, other] using below
  | @pollCanceled task rest top gone =>
    have below := taken id found
    have other : id ≠ task := by
      rintro rfl
      -- a task whose future is not put back has lost its slot
      rcases gone with absent | isOver
      · cases absent.symm.trans found
      · exact Bool.noConfusion (isOver.symm.trans (inv.unfinished id false found))
    simp only [Polling, top, List.mem_cons, Frame.poll.injEq, other, false_or] at below
    exact List.mem_cons_of_mem _ below
  | dropHandleReturn top =>
    have below := taken id found
    simp only [Polling, top, List.mem_cons, reduceCtorEq, false_or] at below
    exact mem_stack_release below
  | @schedule call rest top =>
    have same := (Executor.scheduled e call).untouched
    simp only [same.slots] at found
    have below := taken id found
    simp only [Polling, top, List.mem_cons, reduceCtorEq, false_or] at below
    exact List.mem_append_right _ below
  | @run task batch rest top =>
    by_cases own : id = task
    · simp [Polling, own]
    · have below := taken id (by simpa [OrderedMap.get?_insert_of_ne _ _ own] using found)
      simpa [Polling, top, own] using below
  | stale top =>
    have below := taken id found
    simpa [Polling, dequeue, top] using below
  | unwinds top =>
    have below := taken id found
    simp only [Polling, top, List.mem_cons, reduceCtorEq, false_or] at below
    exact mem_unwind_of_ne below (by simp)
  | clearInbox => cases found
  | dropReturn top | processed top | skip top | check top | blockedOn top | deadlock top
  | hasTasks top | drain top | canceledAll top | shutDown top | close top | cancel top
  | dropSlot top =>
    have below := taken id found
    simpa [Polling, dropFuture, top] using below

theorem Moves.present_of_began {e e' : Executor} {act : Act} {ev : Event} {id : Nat}
    (moved : Moves e act e' ev) (began : ev = .began id) : e.slots.get? id = some true := by
  cases moved with
  | run top present =>
    cases began
    exact present
  | _ => cases began

/-- The history counts the drops. -/
theorem Moves.drops {e e' : Executor} {act : Act} {ev : Event} (moved : Moves e act e' ev)
    (id : Nat) : e'.drops id = e.drops id + (decide (ev = .dropped id)).toNat := by
  cases moved with
  | @stepThread index call found =>
    have same := (Executor.scheduled e call).untouched
    simp only [same.drops]
    rfl
  | @schedule call rest top =>
    have same := (Executor.scheduled e call).untouched
    simp only [same.drops]
    rfl
  | @dropPending task | @pollReady task | @pollCanceled task | @pollPanic task | @dropSlot task =>
    by_cases own : id = task
    · simp [dropFuture, cancelHandle, own]
    · simp [dropFuture, cancelHandle, own, Ne.symm own]
  | _ => rfl

theorem drops_eq_count {ts : List (Machine.Transition Executor Act Event)} {e : Executor}
    (run : machine.Run ts e) (id : Nat) :
    e.drops id = ts.countP fun t => decide (t.out = .dropped id) := by
  refine run.history (P := fun ts e => e.drops id = ts.countP fun t =>
    decide (t.out = .dropped id)) ?_ ?_
  · rintro _ rfl
    rfl
  · intro ts e act e' ev before taken
    rw [(step_cases taken).drops id, before, List.countP_append]
    by_cases here : ev = .dropped id <;> simp [here]

/-- The future of a task is dropped when it should be, and at no other moment. -/
theorem dropped_iff {e e' : Executor} {act : Act} {ev : Event} (inv : Placed e)
    (nested : Nested e.closed e.executors e.stack) (taken : Taken e)
    (moved : Moves e act e' ev) (calm : act ≠ .pollPanic) (id : Nat) :
    ev = .dropped id ↔ DropDue e act id := by
  cases moved with
  | pollPanic => exact absurd rfl calm
  | @dropFinished task user member idle =>
    apply iff_of_false nofun
    rintro ⟨rfl, unfinished, -⟩
    -- an executor nobody holds has no slots, and so no unfinished task
    rcases idle with isOver | free
    · exact Bool.noConfusion (unfinished.symm.trans isOver)
    · refine (inv.present task (inv.handles task member) unfinished).elim (fun some => some ?_) ?_
      · rw [inv.empty_of_user nested user free, OrderedMap.get?_empty]
      · simp [canceling_of_user user]
  | @dropPolled task user member unfinished upgraded absent =>
    apply iff_of_false nofun
    rintro ⟨rfl, -, still⟩
    refine (inv.present task (inv.handles task member) unfinished).elim (fun some => ?_) ?_
    · -- its slot is empty, which is so only during its own poll
      obtain ⟨slot, found⟩ := Option.ne_none_iff_exists'.mp some
      cases slot with
      | true => exact absent found
      | false => exact still (taken task found)
    · simp [canceling_of_user user]
  | @dropPending task user member unfinished upgraded present =>
    constructor
    · intro same
      cases same
      exact ⟨rfl, unfinished, inv.not_polling present⟩
    · rintro ⟨rfl, -, -⟩
      rfl
  | @pollReady task rest top => simp [DropDue, top]
  | @pollPending task rest slot top found unfinished =>
    apply iff_of_false nofun
    rintro ⟨⟨more, polled⟩, gone⟩
    have same : task = id := by simpa using (List.cons.inj (top.symm.trans polled)).1
    subst same
    exact Bool.noConfusion (unfinished.symm.trans (inv.released task gone).2)
  | @pollCanceled task rest top gone =>
    constructor
    · intro same
      cases same
      -- while a poll runs, a task without a slot is a finished one
      have isOver : e.finished id = true := by
        rcases gone with none | isOver
        · by_contra unfinished
          exact (inv.present id (inv.of_poll top).1 (by simpa using unfinished)).elim
            (fun some => some none) (by simp [canceling, top])
        · exact isOver
      exact ⟨⟨rest, top⟩, inv.canceled id (by simp [Polling, top]) isOver⟩
    · rintro ⟨⟨more, polled⟩, -⟩
      have same : task = id := by simpa using (List.cons.inj (top.symm.trans polled)).1
      rw [same]
  | @dropSlot task others rest top =>
    -- the slots are dropped when nobody holds the executor any more
    have free := (nested.leaving (.dropSlots (task :: others)) (by simp [top])).1
    have none : e.executors = 0 := by
      unfold strong at free
      omega
    simp [DropDue, top, none]
  | schedule top | processed top | skip top | check top | run top | stale top | blockedOn top
  | deadlock top | hasTasks top | drain top | canceledAll top | shutDown top | close top
  | clearInbox top | cancel top => simp [DropDue, top]
  | _ => simp [DropDue]

section

variable {allowed : Executor → Act → Bool} {ts : List (Machine.Transition Executor Act Event)}
  {e : Executor}

theorem calm_step (calm : ∀ e, allowed e .pollPanic = false) {e' : Executor} {act : Act}
    {ev : Event} (stepped : (machine.restrict allowed).step e act = some (e', ev)) :
    Moves e act e' ev ∧ act ≠ .pollPanic := by
  obtain ⟨legal, stepped⟩ := Machine.restrict_step stepped
  refine ⟨step_cases stepped, ?_⟩
  rintro rfl
  exact Bool.noConfusion (legal.symm.trans (calm e))

/-- So it is unless polls panic. -/
theorem taken_of_run (calm : ∀ e, allowed e .pollPanic = false)
    (run : (machine.restrict allowed).Run ts e) : Taken e := by
  apply run.relative
  · rintro _ rfl
    exact nofun
  · intro _ e act _ _ prior taken stepped
    obtain ⟨moved, calm⟩ := calm_step calm stepped
    exact taken.moves (placed_of_run prior.of_restrict) moved calm

end

/-- With nobody left to poll it, the future of every task is gone from the executor. -/
theorem Placed.gone {e : Executor} (inv : Placed e)
    (nested : Nested e.closed e.executors e.stack) (closed : e.closed = true)
    (ended : ∀ stage, .shutdown stage ∉ e.stack) (id : Nat) : e.held id = 0 := by
  have empty : e.slots = OrderedMap.empty := by
    apply (inv.emptied closed).resolve_right
    intro clearing
    unfold Executor.clearing at clearing
    split at clearing
    next rest top => exact ended .clearInbox (by simp [top])
    next => cases clearing
  -- only polls and `ExecutorState::drop` hold futures, and both are over
  have nowhere : onStack id e.stack = 0 := by
    apply List.sum_eq_zero_iff_forall_eq_nat.mpr
    intro count member
    obtain ⟨frame, present, rfl⟩ := List.mem_map.mp member
    cases frame with
    | poll task => exact Bool.noConfusion ((nested.open_of_poll present).1.symm.trans closed)
    | shutdown stage => exact absurd present (ended stage)
    | _ => rfl
  rw [held, empty, nowhere]
  rfl

/-- A future is polled by one poll at a time, and not once its task has completed or lost
its handle; slots and flags agree whenever user code runs; the future is dropped when it
should be, at most once, and once if the executor is gone. -/
theorem task_lifecycle {ts : List (Machine.Transition Executor Act Event)} {e : Executor}
    (run : calm.Run ts e) :
    (∀ t ∈ ts, ∀ id, t.out = .began id →
      ¬ t.before.Polling id ∧ t.before.returned id = false ∧ t.before.released id = false) ∧
    (e.userMode = true → ∀ id < e.nextId,
      ((e.slots.get? id).isSome = true ↔ e.finished id = false) ∧
      ∀ slot, e.slots.get? id = some slot → (slot = true ↔ ¬ e.Polling id)) ∧
    (∀ t ∈ ts, ∀ id, t.out = .dropped id ↔ DropDue t.before t.act id) ∧
    (∀ id, (ts.countP fun t => decide (t.out = .dropped id)) ≤ 1) ∧
    (e.closed = true → (∀ stage, .shutdown stage ∉ e.stack) → ∀ id < e.nextId,
      (ts.countP fun t => decide (t.out = .dropped id)) = 1) := by
  have all := run.of_restrict
  have nested := nested_of_run all
  have placed := placed_of_run all
  have taken := taken_of_run (fun _ => rfl) run
  have moves : ∀ t ∈ ts, (Nested t.before.closed t.before.executors t.before.stack ∧
      Placed t.before ∧ Taken t.before) ∧ t.act ≠ .pollPanic ∧
      Moves t.before t.act t.after t.out := by
    intro t member
    obtain ⟨⟨earlier, before⟩, stepped⟩ := run.step_of_mem member
    obtain ⟨calm, stepped⟩ := Machine.restrict_step stepped
    refine ⟨⟨nested_of_run before.of_restrict, placed_of_run before.of_restrict,
      taken_of_run (fun _ => rfl) before⟩, fun panic => ?_, step_cases stepped⟩
    simp [panic] at calm
  refine ⟨?_, ?_, ?_, ?_, ?_⟩
  · intro t member id began
    obtain ⟨⟨-, placed, -⟩, -, moved⟩ := moves t member
    have present := moved.present_of_began began
    have unfinished := placed.unfinished id true present
    refine ⟨placed.not_polling present, ?_, ?_⟩
    · exact Bool.eq_false_iff.mpr fun ready =>
        Bool.noConfusion (unfinished.symm.trans (placed.returned id ready).2)
    · exact Bool.eq_false_iff.mpr fun gone =>
        Bool.noConfusion (unfinished.symm.trans (placed.released id gone).2)
  · intro user id known
    refine ⟨⟨fun some => ?_, fun unfinished => ?_⟩, fun slot found => ?_⟩
    · obtain ⟨slot, found⟩ := Option.isSome_iff_exists.mp some
      exact placed.unfinished id slot found
    · exact Option.isSome_iff_ne_none.mpr
        ((placed.present id known unfinished).resolve_right (by simp [canceling_of_user user]))
    · cases slot with
      | true => exact iff_of_true rfl (placed.not_polling found)
      | false => exact iff_of_false nofun (not_not.mpr (taken id found))
  · intro t member id
    obtain ⟨⟨nested, placed, taken⟩, calm, moved⟩ := moves t member
    exact dropped_iff placed nested taken moved calm id
  · intro id
    rw [← drops_eq_count all id]
    -- a future is in one place, so it can be dropped once
    have one := placed.conserved id
    have bound := Bool.toNat_le (decide (id < e.nextId))
    omega
  · intro closed ended id known
    -- and if it is nowhere else, it has been dropped
    have one := placed.conserved id
    simp only [placed.gone nested closed ended id, Nat.zero_add, known, decide_true,
      Bool.toNat_true] at one
    rw [← drops_eq_count all id, one]

/-- A task cancels itself while it is polled; then the executor is dropped. -/
theorem self_canceled_once : ∃ ts e, calm.Run ts e ∧
    ts.map Machine.Transition.act = [.spawn, .advance, .advance, .advance, .advance, .advance,
      .processTasks 1, .advance, .advance, .dropHandle 0, .pollPending, .dropReturn, .advance,
      .dropExecutor, .advance, .advance, .advance, .advance] ∧
    (ts.countP fun t => decide (t.out = .dropped 0)) = 1 := by
  obtain ⟨ts, e, run, acts, spawned, closed, idle⟩ := Machine.exists_run (m := calm)
    (P := fun _ e => 0 < e.nextId ∧ e.closed = true ∧ e.stack.isEmpty = true)
    [.spawn, .advance, .advance, .advance, .advance, .advance,
      .processTasks 1, .advance, .advance, .dropHandle 0, .pollPending, .dropReturn, .advance,
      .dropExecutor, .advance, .advance, .advance, .advance] rfl (by decide)
  have empty := List.isEmpty_iff.mp idle
  exact ⟨ts, e, run, acts, (task_lifecycle run).2.2.2.2 closed (by simp [empty]) 0 spawned⟩

end Eneste.Executor
