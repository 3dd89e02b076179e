import Eneste.Executor.Nesting

/-!
# Calls of `schedule`

What a step does to the calls in flight and to those that have returned, and to the
flags and polls that their outcome depends on.
-/

namespace Eneste.Executor

open Header

/-- The call is in flight, on whichever thread. -/
def Running (e : Executor) (call : Call) : Prop := call ∈ e.threads ∨ .schedule call ∈ e.stack

/-- The call has just been made. -/
def Fresh (e : Executor) (call : Call) : Prop :=
  call.pc = .loadState ∧ call.start = e.polls call.id ∧ call.id < e.nextId

/-- A step of the machine in which a call does `done`. -/
structure Calls (e e' : Executor) (call : Call) (done : Executor) (next : Option Call) : Prop where
  running : e.Running call
  scheduled : Scheduled e call done next
  calls : e'.calls = done.calls
  queued : ∀ id, e'.isQueued id = done.isQueued id
  closed : e'.closed = done.closed
  left : ∀ other, e'.Running other → e.Running other ∨ next = some other

theorem Moves.calling {e e' : Executor} {act : Act} {ev : Event} (moved : Moves e act e' ev) :
    (e'.calls = e.calls ∧ ∀ call, e'.Running call → e.Running call ∨ e'.Fresh call) ∨
      ∃ call done next, Calls e e' call done next := by
  cases moved with
  | @wakeThread id known =>
    refine Or.inl ⟨rfl, fun call running => ?_⟩
    rcases running with thread | frame
    · -- the new call is fresh, the others were in flight
      rcases List.mem_cons.mp thread with rfl | old
      · exact Or.inr ⟨rfl, rfl, known⟩
      · exact Or.inl (Or.inl old)
    · exact Or.inl (Or.inr frame)
  | @stepThread index call found =>
    have done := Executor.scheduled e call
    have same := done.untouched
    -- the call takes a step where it runs, on another thread
    refine Or.inr ⟨call, _, _, Or.inl (List.mem_of_getElem? found), done, rfl, fun _ => rfl, rfl,
      fun other running => ?_⟩
    rcases running with thread | frame
    · rcases List.mem_append.mp thread with next | old
      · exact Or.inr (Option.mem_toList.mp next)
      · exact Or.inl (Or.inl (List.mem_of_mem_eraseIdx old))
    · exact Or.inl (Or.inr (same.stack ▸ frame))
  | @schedule call rest top =>
    have done := Executor.scheduled e call
    have same := done.untouched
    -- the same on the executor's own thread
    refine Or.inr ⟨call, _, _, Or.inr (by simp [top]), done, rfl, fun _ => rfl, rfl,
      fun other running => ?_⟩
    rcases running with thread | frame
    · exact Or.inl (Or.inl (same.threads ▸ thread))
    · rcases List.mem_append.mp frame with next | old
      · right
        simpa using next
      · exact Or.inl (Or.inr (by simp [top, old]))
  | spawn | blockOn =>
    refine Or.inl ⟨rfl, fun call running => ?_⟩
    rcases running with thread | frame
    · exact Or.inl (Or.inl thread)
    · rcases List.mem_cons.mp frame with new | old
      · cases new
        exact Or.inr ⟨rfl, rfl, Nat.lt_succ_self _⟩
      · exact Or.inl (Or.inr (by simpa using old))
  | wake user known =>
    refine Or.inl ⟨rfl, fun call running => ?_⟩
    rcases running with thread | frame
    · exact Or.inl (Or.inl thread)
    · rcases List.mem_cons.mp frame with new | old
      · cases new
        exact Or.inr ⟨rfl, rfl, known⟩
      · exact Or.inl (Or.inr old)
  | dropExecutor =>
    exact Or.inl ⟨rfl, fun call running => Or.inl (running.imp_right (mem_release · (by simp)))⟩
  | dropHandleReturn top =>
    refine Or.inl ⟨rfl, fun call running => Or.inl (running.imp_right fun frame => ?_)⟩
    have below := mem_release frame (by simp)
    simp [top, below]
  | unwinds top =>
    refine Or.inl ⟨rfl, fun call running => Or.inl (running.imp_right fun frame => ?_)⟩
    simp [top, mem_unwind frame]
  | dropFinished | dropPolled | detach | cloneExecutor => exact Or.inl ⟨rfl, fun _ => Or.inl⟩
  | dropPending | processTasks =>
    refine Or.inl ⟨rfl, fun call running => Or.inl (running.imp_right fun frame => ?_)⟩
    simpa [dropFuture, cancelHandle] using frame
  | pollReady top | pollPending top | pollCanceled top | pollPanic top | dropReturn top
  | processed top | skip top | check top | run top | stale top | blockedOn top | deadlock top
  | hasTasks top | drain top | close top | clearInbox top | cancel top | canceledAll top
  | dropSlot top | shutDown top =>
    refine Or.inl ⟨rfl, fun call running => Or.inl (running.imp_right fun frame => ?_)⟩
    simpa [dropFuture, dequeue, top] using frame

/-- Tasks stay finished. -/
theorem Moves.finished {e e' : Executor} {act : Act} {ev : Event} (moved : Moves e act e' ev)
    {id : Nat} (known : id < e.nextId) (isOver : e.finished id = true) : e'.finished id = true := by
  have old : id ≠ e.nextId := by omega
  cases moved with
  | stepThread | schedule => exact ((Executor.scheduled e _).untouched.finished id).trans isOver
  | spawn | blockOn => simpa [Executor.finished, Executor.spawn, old] using isOver
  | @dropFinished task | @dropPolled task | @dropPending task =>
    apply (e.finished_cancelHandle task id).trans
    split
    · rfl
    · exact isOver
  | @pollReady task | @cancel task =>
    by_cases own : id = task
    · simp [Executor.finished, dropFuture, own]
    · simpa [Executor.finished, dropFuture, own] using isOver
  | @run task batch rest | @stale task batch rest =>
    exact (e.finished_dequeue task id batch rest).trans isOver
  | _ => exact isOver

theorem Moves.polls {e e' : Executor} {act : Act} {ev : Event} (moved : Moves e act e' ev)
    (id : Nat) : e.polls id ≤ e'.polls id := by
  cases moved with
  | stepThread | schedule => simp [(Executor.scheduled e _).untouched.polls]
  | @run task => by_cases own : id = task <;> simp [own]
  | _ => exact Nat.le_refl _

theorem Scheduled.queued {e e' : Executor} {call : Call} {next : Option Call}
    (done : Scheduled e call e' next) {id : Nat} (queued : e.isQueued id = true) :
    e'.isQueued id = true := by
  cases done with
  | already | won =>
    apply (e.isQueued_enqueue call.id id).trans
    split
    · rfl
    · exact queued
  | _ => exact queued

/-- A queued task stays queued until its entry is run, whether or not its future is there
to be polled. -/
theorem Moves.queued {e e' : Executor} {act : Act} {ev : Event} (moved : Moves e act e' ev)
    {id : Nat} (known : id < e.nextId) (queued : e.isQueued id = true) :
    e'.isQueued id = true ∨ e.polls id < e'.polls id ∨ act = .advance ∧ ∃ batch rest,
      e.stack = .process true (id :: batch) :: rest ∧ e.slots.get? id ≠ some true := by
  have old : id ≠ e.nextId := by omega
  cases moved with
  | stepThread | schedule => exact Or.inl ((Executor.scheduled e _).queued queued)
  | spawn | blockOn => exact Or.inl (by simpa [isQueued, Executor.spawn, old] using queued)
  | @dropFinished task | @dropPolled task | @dropPending task =>
    exact Or.inl ((e.isQueued_cancelHandle task id).trans queued)
  | @pollReady task | @cancel task =>
    left
    by_cases own : id = task
    · subst own
      simpa [isQueued, dropFuture] using queued
    · simpa [isQueued, dropFuture, own] using queued
  | @run task batch rest =>
    by_cases own : id = task
    · right
      left
      simp [own]
    · left
      apply (e.isQueued_dequeue task id batch rest).trans
      rwa [if_neg own]
  | @stale task batch rest top absent =>
    by_cases own : id = task
    · right
      right
      exact ⟨rfl, batch, rest, own ▸ top, own ▸ absent⟩
    · left
      apply (e.isQueued_dequeue task id batch rest).trans
      rwa [if_neg own]
  | _ => exact Or.inl queued

theorem Scheduled.was_queued {e e' : Executor} {call : Call} {next : Option Call}
    (done : Scheduled e call e' next) {id : Nat} (queued : e'.isQueued id = true) :
    e.isQueued id = true ∨ id = call.id := by
  cases done with
  | already | won =>
    -- the flag was set before, or by this call
    have still := (e.isQueued_enqueue call.id id).symm.trans queued
    split at still
    next own => exact Or.inr own
    next => exact Or.inl still
  | _ => exact Or.inl queued

/-- Only calls of `schedule` set the flag. -/
theorem Moves.was_queued {e e' : Executor} {act : Act} {ev : Event} (moved : Moves e act e' ev)
    {id : Nat} (queued : e'.isQueued id = true) : e'.polls id = e.polls id ∧
      (e.isQueued id = true ∨ ∃ call, e.Running call ∧ call.id = id) := by
  cases moved with
  | @stepThread index call found =>
    have done := Executor.scheduled e call
    refine ⟨by simp only [done.untouched.polls], (done.was_queued queued).imp_right fun own => ?_⟩
    exact ⟨call, Or.inl (List.mem_of_getElem? found), own.symm⟩
  | @schedule call rest top =>
    have done := Executor.scheduled e call
    refine ⟨by simp only [done.untouched.polls], (done.was_queued queued).imp_right fun own => ?_⟩
    exact ⟨call, Or.inr (by simp [top]), own.symm⟩
  | spawn | blockOn =>
    refine ⟨rfl, Or.inl ?_⟩
    by_cases own : id = e.nextId
    · simp [isQueued, Executor.spawn, own] at queued
    · simpa [isQueued, Executor.spawn, own] using queued
  | @dropFinished task | @dropPolled task | @dropPending task =>
    exact ⟨rfl, Or.inl ((e.isQueued_cancelHandle task id).symm.trans queued)⟩
  | @pollReady task | @cancel task =>
    refine ⟨rfl, Or.inl ?_⟩
    by_cases own : id = task
    · subst own
      simpa [isQueued, dropFuture] using queued
    · simpa [isQueued, dropFuture, own] using queued
  | @run task batch rest =>
    have still := (e.isQueued_dequeue task id batch rest).symm.trans queued
    split at still
    · cases still
    next other => exact ⟨by simp [other], Or.inl still⟩
  | @stale task batch rest =>
    have still := (e.isQueued_dequeue task id batch rest).symm.trans queued
    split at still
    · cases still
    · exact ⟨rfl, Or.inl still⟩
  | _ => exact ⟨rfl, Or.inl queued⟩

theorem Moves.nextId {e e' : Executor} {act : Act} {ev : Event} (moved : Moves e act e' ev) :
    e.nextId ≤ e'.nextId := by
  cases moved with
  | stepThread | schedule => simp [(Executor.scheduled e _).untouched.nextId]
  | spawn | blockOn => exact Nat.le_succ _
  | _ => exact Nat.le_refl _

/-- A closed executor stays closed. -/
theorem Moves.closed {e e' : Executor} {act : Act} {ev : Event} (moved : Moves e act e' ev)
    (opened : e'.closed = false) : e.closed = false := by
  cases moved with
  | stepThread | schedule => exact (Executor.scheduled e _).untouched.closed.symm.trans opened
  | close => cases opened
  | _ => exact opened

/-- The future of a task whose poll has panicked is being dropped, and then the entries left
in the batch of `process_tasks`. -/
def Unwinding (e : Executor) (batch : List Nat) : Prop :=
  ∃ id checked rest, e.stack = .dropFuture id .unwound :: .process checked batch :: rest

/-- Entries are lost when `process_tasks` unwinds. -/
theorem Moves.lost {e e' : Executor} {act : Act} {ev : Event} (moved : Moves e act e' ev) :
    e'.lost = e.lost ∨ act = .dropReturn ∧ ∃ batch, Unwinding e batch := by
  cases moved with
  | stepThread | schedule => exact Or.inl (Executor.scheduled e _).untouched.lost
  | unwinds top => exact Or.inr ⟨rfl, _, _, _, _, top⟩
  | _ => exact Or.inl rfl

/-- Futures are dropped by unwinding after a panic only. -/
theorem Moves.unwound {e e' : Executor} {act : Act} {ev : Event} (moved : Moves e act e' ev)
    (calm : act ≠ .pollPanic) {id : Nat} (member : .dropFuture id .unwound ∈ e'.stack) :
    .dropFuture id .unwound ∈ e.stack := by
  cases moved with
  | pollPanic => exact absurd rfl calm
  | wakeThread | dropFinished | dropPolled | detach | cloneExecutor => exact member
  | stepThread => exact (Executor.scheduled e _).untouched.stack ▸ member
  | dropExecutor => exact mem_release member (by simp)
  | dropHandleReturn top =>
    have below := mem_release member (by simp)
    simp [top, below]
  | unwinds top =>
    have below := mem_unwind member
    simp [top, below]
  | @schedule call rest top =>
    rcases List.mem_append.mp member with next | below
    · simp at next
    · simp [top, below]
  | spawn | wake | dropPending | processTasks | blockOn =>
    simpa [Executor.spawn, dropFuture, cancelHandle] using member
  | pollReady top | pollPending top | pollCanceled top | processed top | skip top | check top
  | run top | stale top | blockedOn top | deadlock top | hasTasks top | drain top | close top
  | clearInbox top | cancel top | canceledAll top | dropSlot top | shutDown top =>
    simpa [top, dropFuture, dequeue] using member
  | dropReturn top =>
    rw [top]
    exact List.mem_cons_of_mem _ member

theorem Scheduled.calls {e e' : Executor} {call : Call} {next : Option Call}
    (done : Scheduled e call e' next) {c : Nat × Nat} (member : c ∈ e'.calls) :
    c ∈ e.calls ∨ next = none ∧ c = (call.id, call.start) := by
  cases done with
  | finished | closed | already | notified =>
    exact (List.mem_append.mp member).imp_right fun new => ⟨rfl, List.mem_singleton.mp new⟩
  | _ => exact Or.inl member

/-- Calls are made for spawned tasks, and polls are only added later. -/
structure Started (e : Executor) : Prop where
  calls : ∀ c ∈ e.calls, c.1 < e.nextId ∧ c.2 ≤ e.polls c.1
  running : ∀ call, e.Running call → call.id < e.nextId ∧ call.start ≤ e.polls call.id
  queued : ∀ id, e.isQueued id = true → id < e.nextId

theorem Started.moves {e e' : Executor} {act : Act} {ev : Event} (inv : Started e)
    (moved : Moves e act e' ev) : Started e' := by
  have later : ∀ id start, id < e.nextId ∧ start ≤ e.polls id →
      id < e'.nextId ∧ start ≤ e'.polls id := fun id start before =>
    ⟨before.1.trans_le moved.nextId, before.2.trans (moved.polls id)⟩
  have flagged : ∀ id, e'.isQueued id = true → id < e'.nextId := by
    intro id queued
    refine Nat.lt_of_lt_of_le ?_ moved.nextId
    -- whoever sets a flag does so for a task that exists
    rcases (moved.was_queued queued).2 with before | ⟨call, running, rfl⟩
    · exact inv.queued id before
    · exact (inv.running call running).1
  rcases moved.calling with ⟨same, only⟩ | ⟨call, done, next, step⟩
  · refine ⟨fun c member => ?_, fun call running => ?_, flagged⟩
    · exact later _ _ (inv.calls c (same ▸ member))
    · rcases only call running with old | ⟨-, start, known⟩
      · exact later _ _ (inv.running call old)
      · exact ⟨known, start.le⟩
  · -- a call that goes on keeps its task and start; one that returns is logged with them
    have own := inv.running call step.running
    refine ⟨fun c member => ?_, fun other running => ?_, flagged⟩
    · rcases step.scheduled.calls (step.calls ▸ member) with old | ⟨-, rfl⟩
      · exact later _ _ (inv.calls c old)
      · exact later _ _ own
    · rcases step.left other running with old | rfl
      · exact later _ _ (inv.running other old)
      · obtain ⟨id, start⟩ := step.scheduled.same_task
        rw [id, start]
        exact later _ _ own

theorem started_of_run {ts : List (Machine.Transition Executor Act Event)} {e : Executor}
    (run : machine.Run ts e) : Started e := by
  apply run.relative
  · rintro _ rfl
    exact ⟨nofun, fun _ running => (nomatch running),
      fun _ queued => Bool.noConfusion (isQueued_zero.symm.trans queued)⟩
  · intro _ _ _ _ _ _ inv taken
    exact inv.moves (step_cases taken)

end Eneste.Executor
