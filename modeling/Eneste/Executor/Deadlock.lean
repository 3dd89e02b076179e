import Eneste.Executor.Reentry

/-!
# Deadlock reports

`block_on` panics when the inbox is empty and its future is pending. Entries that an
enclosing `process_tasks` has drained are not in the inbox.
-/

namespace Eneste.Executor

/-- No unfinished task is queued, other than those being polled. -/
def NothingRunnable (e : Executor) : Prop :=
  ∀ id, e.finished id = false → ¬ e.Polling id → e.isQueued id = false

/-- Batches, also those that were dropped by an unwinding `process_tasks`, have no entry left
of an unfinished task that is not being polled. -/
def BatchesDone (e : Executor) : Prop :=
  ∀ id, (id ∈ e.lost ∨ ∃ checked batch, .process checked batch ∈ e.stack ∧ id ∈ batch) →
    e.finished id = true ∨ e.Polling id

theorem Moves.dry_of_deadlock {e e' : Executor} {act : Act} {ev : Event} {id : Nat}
    (moved : Moves e act e' ev) (panics : ev = .deadlock id) :
    e.inbox = [] ∧ ∃ rest, e.stack = .blockOn id false :: rest := by
  cases moved with
  | deadlock top dry =>
    cases panics
    exact ⟨dry, _, top⟩
  | _ => cases panics

/-- On one thread, `block_on` reports a deadlock with nothing left to run exactly when the
`process_tasks` calls around it have nothing left either. If no wake was forgotten before,
then every task woken by then has been polled since. -/
theorem deadlock_iff {ts : List (Machine.Transition Executor Act Event)} {e : Executor}
    (run : solo.Run ts e) {t : Machine.Transition Executor Act Event} (member : t ∈ ts) {id : Nat}
    (panics : t.out = .deadlock id) :
    (NothingRunnable t.before ↔ BatchesDone t.before) ∧
    ((∀ u ∈ ts, u.before.forgets u.act = false) → NothingRunnable t.before →
      ∀ id start, (id, start) ∈ t.before.calls → t.before.finished id = false →
        ¬ t.before.Polling id → start < t.before.polls id) := by
  obtain ⟨⟨earlier, prior⟩, stepped⟩ := run.step_of_mem member
  have inv := alone_of_run prior
  obtain ⟨dry, rest, top⟩ := (solo_step stepped).1.dry_of_deadlock panics
  have alive : t.before.closed = false :=
    (inv.nested.alive (inv.nested.borrowed (.blockOn id false) (by simp [top]) rfl)).1
  have idle : ∀ call, ¬ t.before.Running call := by
    intro call running
    obtain ⟨more, here⟩ := (inv.lone.running_iff inv.nested call).mp running
    cases here.symm.trans top
  -- the inbox is empty and no call is in flight: a queued task has its entry in a batch
  have queued_iff : ∀ id, t.before.finished id = false → (t.before.isQueued id = true ↔
      id ∈ t.before.lost ∨
        ∃ checked batch, .process checked batch ∈ t.before.stack ∧ id ∈ batch) := by
    intro id unfinished
    rw [inv.tokens.queued_iff alive idle unfinished, Entered, dry]
    simp [or_comm]
  refine ⟨⟨fun nothing id entry => ?_, fun done id unfinished still => ?_⟩, ?_⟩
  · by_contra neither
    obtain ⟨unfinished, still⟩ := not_or.mp neither
    have unfinished : t.before.finished id = false := by simpa using unfinished
    have queued := (queued_iff id unfinished).mpr entry
    exact Bool.noConfusion ((nothing id unfinished still).symm.trans queued)
  · apply Bool.eq_false_iff.mpr
    intro queued
    rcases done id ((queued_iff id unfinished).mp queued) with isOver | polled
    · exact Bool.noConfusion (unfinished.symm.trans isOver)
    · exact still polled
  · intro careful nothing id start called unfinished still
    -- a wake that is not pending has been followed by a poll
    have safe := ((wakesPending_iff run).mpr careful).2 t member
    apply (safe (Or.inl alive) id start called unfinished).resolve_right
    intro pending
    exact Bool.noConfusion ((nothing id unfinished still).symm.trans pending.1)

/-- A task calls `block_on` while the task behind it in the same batch has not been polled:
the deadlock is reported, with that task still queued. -/
theorem deadlock_with_queued_task : ∃ ts e, solo.Run ts e ∧
    ts.map Machine.Transition.act = [.spawn, .advance, .advance, .advance, .advance, .advance,
      .spawn, .advance, .advance, .advance, .advance, .advance, .processTasks 10, .advance,
      .advance, .blockOn, .advance, .advance, .advance, .advance, .advance, .advance, .advance,
      .advance, .advance, .pollPending, .advance, .advance] ∧
    ∃ t ∈ ts, t.out = .deadlock 2 ∧ t.before.polls 1 = 0 ∧ ¬ NothingRunnable t.before := by
  obtain ⟨ts, e, run, acts, t, member, panics, unpolled, unfinished, queued, waiting⟩ :=
    Machine.exists_run (m := solo)
    (P := fun ts _ => ∃ t ∈ ts, t.out = .deadlock 2 ∧ t.before.polls 1 = 0 ∧
      t.before.finished 1 = false ∧ t.before.isQueued 1 = true ∧
      onStack 1 t.before.stack = 0)
    [.spawn, .advance, .advance, .advance, .advance, .advance,
      .spawn, .advance, .advance, .advance, .advance, .advance, .processTasks 10, .advance,
      .advance, .blockOn, .advance, .advance, .advance, .advance, .advance, .advance, .advance,
      .advance, .advance, .pollPending, .advance, .advance] rfl (by decide)
  refine ⟨ts, e, run, acts, t, member, panics, unpolled, fun nothing => ?_⟩
  have still : ¬ t.before.Polling 1 := fun polled => (onStack_pos polled).ne' waiting
  exact Bool.noConfusion ((nothing 1 unfinished still).symm.trans queued)

/-- Called from outside every poll, with no batch around it. -/
theorem lone_block_on_deadlock : ∃ ts e, solo.Run ts e ∧
    ts.map Machine.Transition.act = [.blockOn, .advance, .advance, .advance, .advance, .advance,
      .advance, .advance, .advance, .advance, .pollPending, .advance, .advance] ∧
    ∃ t ∈ ts, t.out = .deadlock 0 ∧ NothingRunnable t.before := by
  obtain ⟨ts, e, run, acts, t, member, panics, lost, single⟩ :=
    Machine.exists_run (m := solo)
    (P := fun ts _ => ∃ t ∈ ts, t.out = .deadlock 0 ∧ t.before.lost = [] ∧
      t.before.stack.length = 1)
    [.blockOn, .advance, .advance, .advance, .advance, .advance, .advance, .advance, .advance,
      .advance, .pollPending, .advance, .advance] rfl (by decide)
  obtain ⟨-, rest, top⟩ := (solo_step (run.step_of_mem member).2).1.dry_of_deadlock panics
  -- `block_on` is the only frame
  have alone : rest = [] := by simpa [top] using single
  refine ⟨ts, e, run, acts, t, member, panics, (deadlock_iff run member panics).1.mpr ?_⟩
  rintro id (dropped | ⟨checked, batch, frame, -⟩)
  · simp [lost] at dropped
  · simp [top, alone] at frame

end Eneste.Executor
