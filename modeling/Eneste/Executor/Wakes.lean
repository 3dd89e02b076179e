import Eneste.Executor.Calls
import Eneste.Executor.Lifecycle
import Eneste.Executor.Tokens

/-!
# Wakes from any thread

Other threads wake tasks at any time, and no task's poll calls back into `process_tasks`:
a task that is woken has its entry, or has been polled since.
-/

namespace Eneste

def Frame.isPoll : Frame → Bool
  | .poll _ => true
  | _ => false

/-- No task is being polled under a frame that runs tasks. -/
def Flat : List Frame → Prop
  | [] => True
  | frame :: rest => (frame.borrows = true → rest.any Frame.isPoll = false) ∧ Flat rest

namespace Executor

open Header

/-- No poll panics, and `process_tasks` is not called from inside a poll. -/
def orderly : Machine Executor Act Event :=
  machine.restrict fun e act =>
    match act with
    | .pollPanic => false
    | .processTasks _ | .blockOn => !e.stack.any Frame.isPoll
    | _ => true

theorem Flat.release {e : Executor} {executors : Nat} {stack : List Frame} (flat : Flat stack) :
    Flat (e.release executors stack).stack := by
  unfold Executor.release
  dsimp only
  split
  · exact ⟨nofun, flat⟩
  · exact flat

theorem Flat.moves {e e' : Executor} {act : Act} {ev : Event} (flat : Flat e.stack)
    (moved : Moves e act e' ev)
    (outside : ((∃ count, act = .processTasks count) ∨ act = .blockOn) →
      e.stack.any Frame.isPoll = false) : Flat e'.stack := by
  cases moved with
  | wakeThread | dropFinished | dropPolled | detach | cloneExecutor => exact flat
  | @stepThread index call found =>
    simpa only [(Executor.scheduled e call).untouched.stack] using flat
  | spawn | wake | dropPending => exact ⟨nofun, flat⟩
  | processTasks => exact ⟨fun _ => outside (Or.inl ⟨_, rfl⟩), flat⟩
  | blockOn => exact ⟨nofun, fun _ => outside (Or.inr rfl), flat⟩
  | dropExecutor => exact Flat.release flat
  | dropHandleReturn top =>
    rw [top] at flat
    exact Flat.release flat.2
  | @schedule call rest top =>
    rw [top] at flat
    cases (e.scheduleStep call).2 with
    | none => exact flat.2
    | some next => exact (⟨nofun, flat.2⟩ : Flat (.schedule next :: rest))
  | pollPending top | dropReturn top | processed top | blockedOn top | deadlock top
  | shutDown top =>
    rw [top] at flat
    exact flat.2
  | unwinds top =>
    rw [top] at flat
    unfold unwind
    split
    · exact flat.2.2.2
    · exact flat.2.2
  | pollReady top | pollCanceled top | pollPanic top =>
    rw [top] at flat
    exact ⟨nofun, flat.2⟩
  | skip top | check top | stale top | hasTasks top =>
    rw [top] at flat
    exact ⟨fun _ => flat.1 rfl, flat.2⟩
  | run top =>
    rw [top] at flat
    exact ⟨nofun, fun _ => flat.1 rfl, flat.2⟩
  | drain top =>
    rw [top] at flat
    exact ⟨fun _ => flat.1 rfl, fun _ => flat.1 rfl, flat.2⟩
  | close top | clearInbox top | cancel top | canceledAll top =>
    rw [top] at flat
    exact ⟨nofun, flat.2⟩
  | dropSlot top =>
    rw [top] at flat
    exact ⟨nofun, nofun, flat.2⟩

/-- A task that was woken, unless it has finished, is queued or has been polled since. -/
def Pending (e : Executor) (id start : Nat) : Prop :=
  e.finished id = false → e.isQueued id = true ∨ start < e.polls id

/-- Calls keep their promise, and so do those whose entry is in the making. -/
structure Answered (e : Executor) : Prop where
  calls : ∀ c ∈ e.calls, Pending e c.1 c.2
  running : ∀ call, e.Running call → call.pc = .push ∨ call.pc = .notify →
    Pending e call.id call.start

/-- An entry is run only when the future is there, or not needed any more. -/
def NoneStale (e : Executor) : Prop := ∀ id batch rest,
  e.stack = .process true (id :: batch) :: rest → e.finished id = false →
    e.slots.get? id = some true

theorem Pending.moves {e e' : Executor} {act : Act} {ev : Event} (moved : Moves e act e' ev)
    (timely : act = .advance → NoneStale e) {id start : Nat} (pending : Pending e id start)
    (known : id < e.nextId) (earlier : start ≤ e.polls id) : Pending e' id start := by
  intro unfinished'
  have unfinished : e.finished id = false := by
    by_contra isOver
    exact Bool.noConfusion (unfinished'.symm.trans (moved.finished known (by simpa using isOver)))
  -- the flag is cleared by a poll, or by an entry without a future, which there is none of
  rcases pending unfinished with queued | polled
  · rcases moved.queued known queued with still | more | ⟨advance, batch, rest, top, absent⟩
    · exact Or.inl still
    · exact Or.inr (by omega)
    · exact absurd (timely advance id batch rest top unfinished) absent
  · exact Or.inr (polled.trans_le (moved.polls id))

theorem Answered.moves {e e' : Executor} {act : Act} {ev : Event} (inv : Answered e)
    (started : Started e) (moved : Moves e act e' ev) (timely : act = .advance → NoneStale e)
    (alive : e'.closed = false) : Answered e' := by
  have kept : ∀ id start, Pending e id start → id < e.nextId ∧ start ≤ e.polls id →
      Pending e' id start := fun id start pending before =>
    pending.moves moved timely before.1 before.2
  rcases moved.calling with ⟨same, only⟩ | ⟨call, done, next, step⟩
  · constructor
    · intro c member
      rw [same] at member
      exact kept _ _ (inv.calls c member) (started.calls c member)
    · intro call running stage
      rcases only call running with old | ⟨first, -, -⟩
      · exact kept _ _ (inv.running call old stage) (started.running call old)
      · simp [first] at stage
  · have own := started.running call step.running
    constructor
    · intro c member
      rcases step.scheduled.calls (step.calls ▸ member) with old | ⟨returned, rfl⟩
      · exact kept _ _ (inv.calls c old) (started.calls c old)
      · cases step.scheduled with
        | finished here isOver =>
          -- it found the task finished, and the task stays finished
          have ended := moved.finished own.1 isOver
          exact fun unfinished => Bool.noConfusion (unfinished.symm.trans ended)
        | closed here closed =>
          -- it found the executor closed, and the executor stays closed
          exact Bool.noConfusion (alive.symm.trans (step.closed.trans closed))
        | already here set =>
          -- it found the flag set: the entry that is owed serves this wake too
          refine fun _ => Or.inl ((step.queued call.id).trans ?_)
          exact (e.isQueued_enqueue call.id call.id).trans (if_pos rfl)
        | notified here => exact kept _ _ (inv.running call step.running (Or.inr here)) own
        | _ => cases returned
    · intro other running stage
      rcases step.left other running with old | made
      · exact kept _ _ (inv.running other old stage) (started.running other old)
      · cases step.scheduled with
        | won here clear =>
          cases made
          refine fun _ => Or.inl ((step.queued call.id).trans ?_)
          exact (e.isQueued_enqueue call.id call.id).trans (if_pos rfl)
        | pushed here =>
          cases made
          exact kept _ _ (inv.running call step.running (Or.inl here)) own
        | loaded | opened =>
          cases made
          simp at stage
        | _ => cases made

theorem noneStale {e : Executor} (tokens : TokenInv e) (placed : Placed e) (taken : Taken e)
    (flat : Flat e.stack) : NoneStale e := by
  intro id batch rest top unfinished
  -- an entry is a token, so its task exists
  have known : id < e.nextId := by
    by_contra unused
    have none := tokens.fresh id (by omega)
    simp [Executor.tokens, top, Frame.tokens] at none
  have occupied := (placed.present id known unfinished).resolve_right (by simp [canceling, top])
  obtain ⟨slot, found⟩ := Option.ne_none_iff_exists'.mp occupied
  cases slot with
  | true => exact found
  | false =>
    -- its future would be in the hands of a poll under this `process_tasks`
    have polled := taken id found
    rw [top] at flat
    simp only [Polling, top, List.mem_cons, reduceCtorEq, false_or] at polled
    have none := List.any_eq_false.mp (flat.1 rfl) _ polled
    exact absurd rfl none

/-- Unless polls panic, no entries are lost. -/
theorem lost_of_run {allowed : Executor → Act → Bool}
    (calm : ∀ e, allowed e .pollPanic = false)
    {ts : List (Machine.Transition Executor Act Event)} {e : Executor}
    (run : (machine.restrict allowed).Run ts e) : e.lost = [] := by
  suffices kept : (∀ id, .dropFuture id .unwound ∉ e.stack) ∧ e.lost = [] from kept.2
  apply run.relative (P := fun e => (∀ id, .dropFuture id .unwound ∉ e.stack) ∧ e.lost = [])
  · rintro _ rfl
    exact ⟨fun _ => List.not_mem_nil, rfl⟩
  · rintro _ e act e' _ _ ⟨smooth, none⟩ stepped
    obtain ⟨moved, calm⟩ := calm_step calm stepped
    refine ⟨fun id member => smooth id (moved.unwound calm member), ?_⟩
    rcases moved.lost with same | ⟨-, batch, id, checked, rest, top⟩
    · exact same.trans none
    · exact absurd (by simp [top]) (smooth id)

theorem orderly_step {e e' : Executor} {act : Act} {ev : Event}
    (stepped : orderly.step e act = some (e', ev)) : Moves e act e' ev ∧ act ≠ .pollPanic ∧
      (((∃ count, act = .processTasks count) ∨ act = .blockOn) →
        e.stack.any Frame.isPoll = false) := by
  obtain ⟨legal, stepped⟩ := Machine.restrict_step stepped
  refine ⟨step_cases stepped, ?_, ?_⟩
  · rintro rfl
    cases legal
  · rintro (⟨count, rfl⟩ | rfl) <;> simpa using legal

theorem flat_of_run {ts : List (Machine.Transition Executor Act Event)} {e : Executor}
    (run : orderly.Run ts e) : Flat e.stack ∧ e.lost = [] := by
  refine ⟨?_, lost_of_run (fun _ => rfl) run⟩
  apply run.relative (P := fun e => Flat e.stack)
  · rintro _ rfl
    exact trivial
  · intro _ _ _ _ _ _ flat taken
    obtain ⟨moved, -, outside⟩ := orderly_step taken
    exact Flat.moves flat moved outside

theorem answered_of_run {ts : List (Machine.Transition Executor Act Event)} {e : Executor}
    (run : orderly.Run ts e) (alive : e.closed = false) : Answered e := by
  refine run.relative (P := fun e => e.closed = false → Answered e) ?_ ?_ alive
  · rintro _ rfl _
    exact ⟨nofun, fun _ running => nomatch running⟩
  · intro _ e _ _ _ prior inv taken alive'
    obtain ⟨moved, calm, outside⟩ := orderly_step taken
    have all := prior.of_restrict
    have timely := noneStale (tokenInv_of_run all) (placed_of_run all)
      (taken_of_run (fun _ => rfl) prior) (flat_of_run prior).1
    exact (inv (moved.closed alive')).moves (started_of_run all) moved (fun _ => timely) alive'

/-- While the executor lives, an unfinished task has one token if it is queued and none
otherwise; each push is notified once; and whoever has woken a task can rely on its token,
or on a poll that began after the wake did. -/
theorem wake_protocol {ts : List (Machine.Transition Executor Act Event)} {e : Executor}
    (run : orderly.Run ts e) (alive : e.closed = false) :
    (∀ id, e.finished id = false → e.tokens id = if e.isQueued id then 1 else 0) ∧
    (∀ id, e.finished id = false → e.inbox.count id ≤ 1) ∧
    e.pushed = e.notified + e.notifying ∧
    ∀ id start, (id, start) ∈ e.calls → e.finished id = false →
      e.tokens id = 1 ∨ start < e.polls id := by
  have balanced : ∀ id, e.finished id = false → e.tokens id = if e.isQueued id then 1 else 0 := by
    intro id unfinished
    have even := (tokenInv_of_run run.of_restrict).balanced alive id unfinished
    rw [(flat_of_run run).2, List.count_nil, Nat.add_zero, owed] at even
    cases queued : e.isQueued id <;> simpa [queued] using even
  refine ⟨balanced, fun id unfinished => ?_, notified_of_run run.of_restrict,
    fun id start called unfinished => ?_⟩
  · have even := balanced id unfinished
    have most : (if e.isQueued id then 1 else 0) ≤ 1 := by split <;> simp
    unfold tokens at even
    omega
  · rcases (answered_of_run run alive).calls (id, start) called unfinished with queued | polled
    · exact Or.inl (by rw [balanced id unfinished, if_pos queued])
    · exact Or.inr polled

/-- Another thread wakes the task after its entry was drained and before its flag is
cleared: that wake finds the flag set, and the poll comes after it. -/
theorem racing_wake_answered : ∃ ts e, orderly.Run ts e ∧
    ts.map Machine.Transition.act = [.spawn, .advance, .advance, .advance, .advance, .advance,
      .processTasks 1, .wakeThread 0, .stepThread 0, .advance, .stepThread 0, .stepThread 0,
      .advance, .pollPending] ∧
    e.calls = [(0, 0), (0, 0)] ∧ e.tokens 0 = 0 ∧ (e.tokens 0 = 1 ∨ 0 < e.polls 0) := by
  obtain ⟨ts, e, run, acts, alive, calls, unfinished, tokens⟩ := Machine.exists_run
    (m := orderly)
    (P := fun _ e => e.closed = false ∧ e.calls = [(0, 0), (0, 0)] ∧ e.finished 0 = false ∧
      e.tokens 0 = 0)
    [.spawn, .advance, .advance, .advance, .advance, .advance, .processTasks 1, .wakeThread 0,
      .stepThread 0, .advance, .stepThread 0, .stepThread 0, .advance, .pollPending] rfl (by decide)
  exact ⟨ts, e, run, acts, calls, tokens,
    (wake_protocol run alive).2.2.2 0 0 (by simp [calls]) unfinished⟩

end Executor

end Eneste
