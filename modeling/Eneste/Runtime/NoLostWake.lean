import Eneste.Executor.Deadlock
import Eneste.Executor.Panics
import Eneste.Executor.Wakes
import Eneste.Runtime.Runtime

/-!
# No wake is lost

From the notification to the poll of the task: a task that waits for an event and is told
has its waker called, the call queues it, and its entry is run, or another wake has had it
polled meanwhile. `block_on` gives up only when none of this is still to come. The executor
itself loses a wake when it runs the entry of a task being polled, or unwinds a batch with
entries left; the last two hold of the runs in which it does neither.
-/

namespace Eneste

/-- The steps of a call of `schedule` from here on, at most. -/
def SchedulePc.left : SchedulePc → Nat
  | .loadState => 5
  | .loadClosed => 4
  | .fetchOr => 3
  | .push => 2
  | .notify => 1

namespace Executor

/-! ### Calls that go on -/

theorem Scheduled.logged {e e' : Executor} {call : Call} (done : Scheduled e call e' none) :
    (call.id, call.start) ∈ e'.calls := by
  cases done <;> simp [logCall]

theorem Scheduled.calls_kept {e e' : Executor} {call : Call} {next : Option Call}
    (done : Scheduled e call e' next) {c : Nat × Nat} (returned : c ∈ e.calls) :
    c ∈ e'.calls := by
  cases done <;> simp [logCall, enqueue, returned]

theorem Scheduled.left {e e' : Executor} {call next : Call}
    (done : Scheduled e call e' (some next)) : next.pc.left < call.pc.left := by
  cases done with
  | loaded here | opened here | won here | pushed here => simp [here, SchedulePc.left]

/-- A call on the executor's thread goes on until it returns. -/
theorem Moves.call_kept {e e' : Executor} {act : Act} {ev : Event} (moved : Moves e act e' ev)
    {call : Call} (running : .schedule call ∈ e.stack) :
    (∃ later, .schedule later ∈ e'.stack ∧ later.id = call.id ∧ later.start = call.start) ∨
      (call.id, call.start) ∈ e'.calls := by
  have still : .schedule call ∈ e'.stack →
      (∃ later, .schedule later ∈ e'.stack ∧ later.id = call.id ∧ later.start = call.start) ∨
        (call.id, call.start) ∈ e'.calls := fun member => .inl ⟨call, member, rfl, rfl⟩
  have under : ∀ {frame rest}, e.stack = frame :: rest → frame.isSchedule = false →
      .schedule call ∈ rest := by
    intro frame rest top other
    rw [top] at running
    refine (List.mem_cons.mp running).resolve_left ?_
    rintro rfl
    cases other
  cases moved with
  | wakeThread | dropFinished | dropPolled | detach | cloneExecutor => exact still running
  | @stepThread index other found =>
    exact still ((Executor.scheduled e other).untouched.stack ▸ running)
  | spawn | wake | dropPending | processTasks =>
    exact still (List.mem_cons_of_mem _ running)
  | blockOn => exact still (List.mem_cons_of_mem _ (List.mem_cons_of_mem _ running))
  | dropExecutor => exact still (mem_stack_release running)
  | dropHandleReturn top => exact still (mem_stack_release (under top rfl))
  | unwinds top =>
    have below := (List.mem_cons.mp (under top rfl)).resolve_left nofun
    exact still (mem_unwind_of_ne below (by simp))
  | @schedule other rest top =>
    have done := Executor.scheduled e other
    rw [top] at running
    rcases List.mem_cons.mp running with same | below
    · cases same
      cases next : (e.scheduleStep call).2 with
      | some later =>
        rw [next] at done
        exact .inl ⟨later, by simp, done.same_task⟩
      | none =>
        rw [next] at done
        exact .inr done.logged
    · exact still (List.mem_append_right _ below)
  | pollPending top | dropReturn top | processed top | blockedOn top | deadlock top
  | shutDown top => exact still (under top rfl)
  | pollReady top | pollCanceled top | pollPanic top | skip top | check top | stale top
  | hasTasks top | close top | clearInbox top | cancel top | canceledAll top =>
    exact still (List.mem_cons_of_mem _ (under top rfl))
  | run top | drain top | dropSlot top =>
    exact still (List.mem_cons_of_mem _ (List.mem_cons_of_mem _ (under top rfl)))

/-- Calls that have returned are not forgotten. -/
theorem Moves.calls_kept {e e' : Executor} {act : Act} {ev : Event} (moved : Moves e act e' ev)
    {c : Nat × Nat} (returned : c ∈ e.calls) : c ∈ e'.calls := by
  rcases moved.calling with ⟨same, _⟩ | ⟨call, done, next, step⟩
  · exact same ▸ returned
  · exact step.calls ▸ step.scheduled.calls_kept returned

/-! ### Runs that lose no wake -/

/-- No step of the executor loses a wake. -/
def careful : Machine Executor Act Event := machine.restrict fun e act => !e.forgets act

theorem careful_step {e e' : Executor} {act : Act} {ev : Event} (keeps : e.forgets act = false)
    (taken : e.step act = some (e', ev)) : careful.step e act = some (e', ev) := by
  simpa [careful, Machine.restrict, machine, keeps] using taken

theorem forgets_of_strands {e : Executor} {act : Act} (strands : e.strands act = true) :
    e.forgets act = true := by
  obtain ⟨rfl, batch, ⟨id, checked, rest, top⟩, left⟩ := strands_iff.mp strands
  simpa [forgets, top] using left

/-- Then queued tasks keep their entries, and calls their promise, on all threads. -/
theorem careful_of_run {ts : List (Machine.Transition Executor Act Event)} {e : Executor}
    (run : careful.Run ts e) : NoneStranded e ∧ (e.closed = false → Answered e) := by
  apply run.relative (P := fun e => NoneStranded e ∧ (e.closed = false → Answered e))
  · rintro _ rfl
    refine ⟨(tokenInv_of_run (.start rfl)).noneStranded_iff.mpr fun _ => nofun, fun _ => ?_⟩
    exact ⟨nofun, fun _ running => nomatch running⟩
  · rintro _ e act e' _ prior ⟨safe, answered⟩ taken
    obtain ⟨legal, stepped⟩ := Machine.restrict_step taken
    have keeps : e.forgets act = false := by simpa using legal
    have all := prior.of_restrict
    have moved := step_cases stepped
    constructor
    · refine (safe.step_iff (tokenInv_of_run all) (tokenInv_of_run (all.next stepped))
        (nested_of_run all) moved).mpr (Bool.eq_false_iff.mpr fun strands => ?_)
      -- a task is stranded by the loss of its entry, and with it of its wake
      exact Bool.noConfusion (keeps.symm.trans (forgets_of_strands strands))
    · intro alive'
      refine (answered (moved.closed alive')).moves (started_of_run all) moved ?_ alive'
      -- an entry that is run finds the future of its task, unless the task has finished
      rintro rfl id batch rest top unfinished
      by_contra absent
      simp [forgets, top, unfinished, absent] at keeps

end Executor

namespace Runtime

section

variable {T : Type} {s s' : Runtime T}

/-- `userMode`, of the stack alone. -/
def inUserCode : List Frame → Bool
  | [] | .poll _ :: _ | .dropFuture _ _ :: _ => true
  | _ => false

/-- The waker of the poll has been called: the call goes on, or has returned. -/
def Begun (e : Executor) (a : Asked) : Prop :=
  (∃ call, .schedule call ∈ e.stack ∧ call.id = a.task ∧ a.poll ≤ call.start) ∨
    ∃ start, (a.task, start) ∈ e.calls ∧ a.poll ≤ start

theorem Begun.moves {a : Asked} {e e' : Executor} {act : Executor.Act} {ev : Executor.Event}
    (begun : Begun e a) (moved : e.Moves act e' ev) : Begun e' a := by
  rcases begun with ⟨call, running, own, later⟩ | ⟨start, returned, later⟩
  · rcases moved.call_kept running with ⟨next, goesOn, id, start⟩ | logged
    · exact .inl ⟨next, goesOn, id.trans own, start ▸ later⟩
    · exact .inr ⟨call.start, own ▸ logged, later⟩
  · exact .inr ⟨start, moved.calls_kept returned, later⟩

structure Inv (s : Runtime T) : Prop where
  handles : ∀ ev, (s.events ev).Inv
  parked : ∀ ev name a, s.asked ev name = some a → (s.events ev).Parked name a
  known : ∀ ev name a, s.asked ev name = some a →
    a.task < s.executor.nextId ∧ a.poll ≤ s.executor.polls a.task
  /-- A waker that the event has called is called next, or its call has begun. -/
  begun : ∀ ev name a, s.asked ev name = some a → (s.events ev).Called a →
    a.task ∈ s.toWake ∨ Begun s.executor a

private theorem ask_spec {polls : Nat → Nat} {h : Handles Nat T} {asked : Nat → Option Asked}
    {op : Handles.Op Nat T} {r : Handles.Res T} {name : Nat} {a : Asked}
    (found : ask polls h asked op r name = some a) :
    (op.handle = some name ∧ ∃ task, op.waits r = some task ∧
      a = ⟨task, polls task, h.inner.woken.length, !h.inner.closed⟩) ∨
      op.handle ≠ some name ∧ asked name = some a := by
  cases used : op.handle with
  | none =>
    simp only [ask, used] at found
    exact .inr ⟨nofun, found⟩
  | some other =>
    simp only [ask, used] at found
    by_cases own : name = other
    · subst own
      rw [Function.update_self, Option.map_eq_some_iff] at found
      obtain ⟨task, waits, same⟩ := found
      exact .inl ⟨rfl, task, waits, same.symm⟩
    · rw [Function.update_of_ne own] at found
      exact .inr ⟨fun same => own (Option.some.inj same).symm, found⟩

/-- Whoever waits is being polled. -/
private theorem polling_of_waits {op : Handles.Op Nat T} {r : Handles.Res T} {task : Nat}
    (legal : s.mayUse op = true) (pending : op.waits r = some task) :
    ∃ rest, s.executor.stack = .poll task :: rest := by
  have own : ∀ name, s.mayUse (.poll name task) = true →
      ∃ rest, s.executor.stack = .poll task :: rest := by
    intro name legal
    simp only [mayUse] at legal
    split at legal
    next id rest top => exact ⟨rest, by rw [top, beq_iff_eq.mp legal]⟩
    next => cases legal
  cases op with
  | poll name | pollNext name =>
    rcases r with _ | _ | ⟨_ | _⟩ | ⟨_ | _⟩ <;> cases pending
    exact own name legal
  | _ => cases pending

private theorem user_of_mayUse {op : Handles.Op Nat T} (legal : s.mayUse op = true) :
    s.executor.userMode = true := by
  cases op with
  | poll | pollNext =>
    simp only [mayUse] at legal
    split at legal
    next top => simp [Executor.userMode, top]
    next => cases legal
  | _ => exact legal

/-- User code runs, or a call that it has made of `schedule`. -/
def Seat (stack : List Frame) : Prop :=
  inUserCode stack = true ∨ ∃ call rest, stack = .schedule call :: rest ∧ inUserCode rest = true

/-- While wakers are being called, only the call of `schedule` goes on. -/
private theorem Seat.moves {e : Executor} {act : Executor.Act} {ev : Executor.Event}
    (seat : Seat s.executor.stack) (moved : s.executor.Moves act e ev)
    (legal : s.mayRun act = true) (busy : s.toWake ≠ []) : Seat e.stack := by
  have waits : s.toWake.isEmpty = false := by simpa using busy
  have top_of_advance : s.mayRun .advance = true → ∀ frame rest,
      s.executor.stack = frame :: rest → frame.isSchedule = true := by
    intro legal frame rest top
    simpa [mayRun, waits, top] using legal
  cases moved with
  | wakeThread => exact seat
  | @stepThread index call found =>
    simpa only [(Executor.scheduled s.executor call).untouched.stack] using seat
  | @schedule call rest top =>
    have user : inUserCode rest = true := by
      rcases seat with user | ⟨other, below, same, user⟩
      · simp [inUserCode, top] at user
      · cases top.symm.trans same
        exact user
    cases (s.executor.scheduleStep call).2 with
    | none => exact .inl user
    | some next => exact .inr ⟨next, rest, rfl, user⟩
  | processed top | skip top | check top | run top | stale top | blockedOn top | deadlock top
  | hasTasks top | drain top | close top | clearInbox top | cancel top | canceledAll top
  | dropSlot top | shutDown top => cases top_of_advance legal _ _ top
  | _ => exact absurd (waits.symm.trans legal) Bool.false_ne_true

/-! ### One step -/

inductive Stepped [Usize] (s : Runtime T) : Act T → Runtime T → Executor.Event → Prop
  | run {act e ev} (legal : s.mayRun act = true)
      (taken : s.executor.step act = some (e, ev)) :
      Stepped s (.run act) { s with executor := e } ev
  | use {event op h r} (quiet : s.toWake = []) (legal : s.mayUse op = true)
      (taken : (s.events event).step op = some (h, r)) :
      Stepped s (.use event op)
        { s with
          events := Function.update s.events event h
          toWake := h.inner.woken.drop (s.events event).inner.woken.length
          asked := Function.update s.asked event
            (ask s.executor.polls (s.events event) (s.asked event) op r) } .quiet
  | wake {task rest e ev} (next : s.toWake = task :: rest)
      (taken : s.executor.step (.wake task) = some (e, ev)) :
      Stepped s .wake { s with executor := e, toWake := rest } ev

variable [Usize]

theorem step_spec {act : Act T} {ev : Executor.Event} (taken : s.step act = some (s', ev)) :
    Stepped s act s' ev := by
  cases act with
  | run act =>
    simp only [step] at taken
    split at taken
    next legal =>
      obtain ⟨⟨e, ev⟩, moved, same⟩ := Option.map_eq_some_iff.mp taken
      cases same
      exact .run legal moved
    next => cases taken
  | use event op =>
    simp only [step] at taken
    split at taken
    next legal =>
      split at taken
      · cases taken
      next h r used =>
        cases taken
        exact .use legal.1 legal.2 used
    next => cases taken
  | wake =>
    simp only [step] at taken
    split at taken
    · cases taken
    next task rest next =>
      obtain ⟨⟨e, ev⟩, moved, same⟩ := Option.map_eq_some_iff.mp taken
      cases same
      exact .wake next moved

/-- The executor of a runtime is an executor. -/
theorem reachable {ts} (run : (machine (T := T)).Run ts s) :
    Executor.machine.Reachable s.executor := by
  refine run.refines Runtime.executor ?_ ?_
  · rintro _ rfl
    rfl
  · rintro _ s act s' ev _ taken
    cases step_spec taken with
    | run _ moved => exact .one moved
    | @wake task _ _ _ _ moved => exact .one (a := .wake task) moved
    | use => exact .refl

namespace Inv

theorem step {act : Act T} {ev : Executor.Event} (inv : s.Inv)
    (reached : Executor.machine.Reachable s.executor) (taken : s.step act = some (s', ev)) :
    s'.Inv := by
  have known : ∀ {act e ev}, s.executor.Moves act e ev → ∀ event name a,
      s.asked event name = some a → a.task < e.nextId ∧ a.poll ≤ e.polls a.task := by
    intro act e ev moved event name a found
    obtain ⟨below, earlier⟩ := inv.known event name a found
    exact ⟨below.trans_le moved.nextId, earlier.trans (moved.polls a.task)⟩
  cases step_spec taken with
  | run legal taken =>
    have moved := Executor.step_cases taken
    refine ⟨inv.handles, inv.parked, known moved, fun event name a found called => ?_⟩
    exact (inv.begun event name a found called).imp_right fun begun => begun.moves moved
  | @wake task rest e _ next taken =>
    have moved := Executor.step_cases taken
    refine ⟨inv.handles, inv.parked, known moved, fun event name a found called => ?_⟩
    rcases inv.begun event name a found called with waits | begun
    · rw [next] at waits
      rcases List.mem_cons.mp waits with own | later
      · -- the call begins now, and the task has been polled before
        cases moved with
        | wake =>
          refine .inr (.inl ⟨_, List.mem_cons_self, own.symm, ?_⟩)
          exact own ▸ (inv.known event name a found).2
      · exact .inl later
    · exact .inr (begun.moves moved)
  | @use event op h r quiet legal used =>
    have before := inv.handles event
    have stepped := Handles.step_spec before.streams used
    obtain ⟨extra, grown⟩ := stepped.grown before
    have parked : ∀ name a,
        ask s.executor.polls (s.events event) (s.asked event) op r name = some a →
        h.Parked name a ∧ (a.task < s.executor.nextId ∧ a.poll ≤ s.executor.polls a.task) ∧
          (h.Called a → a.task ∈ extra ∨ Begun s.executor a) := by
      intro name a found
      rcases ask_spec found with ⟨polled, task, pending, rfl⟩ | ⟨others, kept⟩
      · refine ⟨stepped.parks polled pending, ⟨?_, le_rfl⟩, fun called => ?_⟩
        · obtain ⟨us, prior⟩ := reached
          obtain ⟨rest, top⟩ := polling_of_waits legal pending
          exact ((Executor.placed_of_run prior).of_poll top).1
        · left
          simpa [Handles.Called, grown] using called
      · have old := inv.parked event name a kept
        refine ⟨old.stepped before stepped others, inv.known event name a kept, fun called => ?_⟩
        obtain ⟨_, _, ⟨within, _⟩, _⟩ := old
        rw [Handles.Called, grown, List.drop_append_of_le_length within, List.mem_append] at called
        rcases called with earlier | now
        · refine .inr ((inv.begun event name a kept earlier).resolve_left ?_)
          simp [quiet]
        · exact .inl now
    have asked : ∀ other name a, Function.update s.asked event
        (ask s.executor.polls (s.events event) (s.asked event) op r) other name = some a →
        (Function.update s.events event h other).Parked name a ∧
          (a.task < s.executor.nextId ∧ a.poll ≤ s.executor.polls a.task) ∧
          ((Function.update s.events event h other).Called a →
            a.task ∈ extra ∨ Begun s.executor a) := by
      intro other name a found
      by_cases same : other = event
      · subst same
        rw [Function.update_self] at found ⊢
        exact parked name a found
      · rw [Function.update_of_ne same] at found ⊢
        refine ⟨inv.parked other name a found, inv.known other name a found, fun called => ?_⟩
        refine .inr ((inv.begun other name a found called).resolve_left ?_)
        simp [quiet]
    refine ⟨fun other => ?_, fun other name a found => (asked other name a found).1,
      fun other name a found => (asked other name a found).2.1, fun other name a found called => ?_⟩
    · by_cases same : other = event
      · subst same
        simpa using before.stepped stepped
      · simpa [same] using inv.handles other
    · rw [grown, List.drop_left]
      exact (asked other name a found).2.2 called

theorem of_run {ts} (run : (machine (T := T)).Run ts s) : s.Inv := by
  refine run.relative ?_ fun ts s act s' ev prior inv taken => inv.step (reachable prior) taken
  rintro _ rfl
  exact ⟨fun _ => .new, fun _ _ _ => nofun, fun _ _ _ => nofun, fun _ _ _ => nofun⟩

end Inv

/-! ### Calls of wakers come to an end -/

structure Ready (s : Runtime T) : Prop where
  stores : ∀ event, Stores (· < s.executor.nextId) (s.events event).inner.listeners
  next : ∀ task ∈ s.toWake, task < s.executor.nextId
  seat : s.toWake ≠ [] → Seat s.executor.stack

namespace Ready

theorem step {act : Act T} {ev : Executor.Event} (ready : s.Ready) (inv : s.Inv)
    (reached : Executor.machine.Reachable s.executor) (taken : s.step act = some (s', ev)) :
    s'.Ready := by
  cases step_spec taken with
  | run legal taken =>
    have moved := Executor.step_cases taken
    refine ⟨fun event id entry w found left => ?_, fun task member => ?_, fun some => ?_⟩
    · exact (ready.stores event id entry w found left).trans_le moved.nextId
    · exact (ready.next task member).trans_le moved.nextId
    · exact (ready.seat some).moves moved legal some
  | @wake task rest e _ next taken =>
    have moved := Executor.step_cases taken
    refine ⟨fun event id entry w found left => ?_, fun other member => ?_, fun some => ?_⟩
    · exact (ready.stores event id entry w found left).trans_le moved.nextId
    · have before : other ∈ s.toWake := by simp [next, show other ∈ rest from member]
      exact (ready.next other before).trans_le moved.nextId
    · cases moved with
      | wake user known => exact .inr ⟨_, _, rfl, user⟩
  | @use event op h r quiet legal used =>
    have stepped := Handles.step_spec (inv.handles event).streams used
    have own : ∀ w, op.waits r = some w → w < s.executor.nextId := by
      intro w pending
      obtain ⟨us, prior⟩ := reached
      obtain ⟨rest, top⟩ := polling_of_waits legal pending
      exact ((Executor.placed_of_run prior).of_poll top).1
    obtain ⟨kept, woken⟩ := stepped.stores (inv.handles event) (ready.stores event) own
    refine ⟨fun other => ?_, woken, fun _ => .inl ?_⟩
    · by_cases same : other = event
      · subst same
        simpa using kept
      · simpa [same] using ready.stores other
    · exact user_of_mayUse legal

theorem of_run {ts} (run : (machine (T := T)).Run ts s) : s.Ready := by
  refine run.relative ?_ fun ts s act s' ev prior ready taken =>
    ready.step (Inv.of_run prior) (reachable prior) taken
  rintro _ rfl
  exact ⟨fun _ _ _ _ => nofun, nofun, fun some => absurd rfl some⟩

end Ready

/-- The steps left of the call that goes on. -/
def callLeft : List Frame → Nat
  | .schedule call :: _ => call.pc.left
  | _ => 0

/-- The steps left of the calls of wakers. -/
def remaining (s : Runtime T) : Nat := 6 * s.toWake.length + callLeft s.executor.stack

/-- No step of the executor loses a wake; events may be used as before. -/
def careful : Machine (Runtime T) (Act T) Executor.Event :=
  machine.restrict fun s act =>
    match act with
    | .run act => !s.executor.forgets act
    | .use _ _ | .wake => true

theorem reachable_careful {ts} (run : (careful (T := T)).Run ts s) :
    Executor.careful.Reachable s.executor := by
  refine run.refines Runtime.executor ?_ ?_
  · rintro _ rfl
    rfl
  · rintro _ s act s' ev _ taken
    obtain ⟨legal, taken⟩ := Machine.restrict_step taken
    cases step_spec taken with
    | run _ moved => exact .one (Executor.careful_step (by simpa using legal) moved)
    | wake _ moved => exact .one (Executor.careful_step rfl moved)
    | use => exact .refl

omit [Usize] in
/-- An unfinished task that is queued has its one entry. -/
private theorem tokens_eq {us} {e : Executor} (run : Executor.careful.Run us e)
    (alive : e.closed = false) {id : Nat} (unfinished : e.finished id = false)
    (queued : e.isQueued id = true) : e.tokens id = 1 := by
  have inv := Executor.tokenInv_of_run run.of_restrict
  have even := inv.balanced alive id unfinished
  -- its entry has not been lost, or it would be stranded
  have kept : id ∉ e.lost := fun lost =>
    (Executor.careful_of_run run).1 alive id ((inv.stranded_iff alive id).mpr ⟨unfinished, lost⟩)
  rw [List.count_eq_zero.mpr kept, Executor.owed, queued] at even
  exact even

/-- Unless the executor loses wakes, a task that waits for an event and has been told of it, or
of its end, has its waker called next, or the call is under way, or the task has its entry, or
it has been polled since. -/
theorem no_wake_lost {ts} (run : (careful (T := T)).Run ts s)
    (alive : s.executor.closed = false) {event name : Nat} {a : Asked}
    (waits : s.asked event name = some a) (informed : (s.events event).Informed name a)
    (unfinished : s.executor.finished a.task = false) :
    a.task ∈ s.toWake ∨
      (∃ call, .schedule call ∈ s.executor.stack ∧ call.id = a.task ∧ a.poll ≤ call.start) ∨
        s.executor.tokens a.task = 1 ∨ a.poll < s.executor.polls a.task := by
  have inv := Inv.of_run run.of_restrict
  obtain ⟨us, prior⟩ := reachable_careful run
  have called := (inv.parked event name a waits).called informed
  rcases inv.begun event name a waits called with next | running | ⟨start, returned, later⟩
  · exact .inl next
  · exact .inr (.inl running)
  · -- the call has returned: it keeps its promise
    rcases ((Executor.careful_of_run prior).2 alive).calls _ returned unfinished with
      queued | polled
    · exact .inr (.inr (.inl (tokens_eq prior alive unfinished queued)))
    · exact .inr (.inr (.inr (later.trans_lt polled)))

omit [Usize] in
/-- Nothing is on its way when `block_on` gives up. -/
private theorem dry_of_deadlock [Usize] {act : Act T} {ev : Executor.Event}
    (stepped : Stepped s act s' ev) {id : Nat} (panics : ev = .deadlock id) :
    s.toWake = [] ∧ s.executor.inbox = [] ∧
      ∃ rest, s.executor.stack = .blockOn id false :: rest := by
  cases stepped with
  | run legal taken =>
    have moved := Executor.step_cases taken
    obtain ⟨dry, rest, top⟩ := moved.dry_of_deadlock panics
    refine ⟨?_, dry, rest, top⟩
    cases moved with
    | deadlock => simpa [mayRun, top, Frame.isSchedule] using legal
    | _ => cases panics
  | use => cases panics
  | wake _ taken =>
    cases Executor.step_cases taken
    cases panics

/-- Unless the executor loses wakes, `block_on` gives up only when nothing is left of the
notifications that tasks wait for, other than what it cannot see: the batch that an enclosing
`process_tasks` has taken, and a push that another thread has not made yet. -/
theorem deadlock_after_polls {ts : List (Machine.Transition (Runtime T) (Act T) Executor.Event)}
    (run : careful.Run ts s) {t : Machine.Transition (Runtime T) (Act T) Executor.Event}
    (member : t ∈ ts) {id : Nat} (panics : t.out = .deadlock id) {event name : Nat} {a : Asked}
    (waits : t.before.asked event name = some a)
    (informed : (t.before.events event).Informed name a)
    (unfinished : t.before.executor.finished a.task = false) :
    a.poll < t.before.executor.polls a.task ∨
      (∃ batch, .process false batch ∈ t.before.executor.stack ∧ a.task ∈ batch) ∨
        ∃ call ∈ t.before.executor.threads, call.id = a.task ∧ call.pc = .push := by
  obtain ⟨⟨earlier, prior⟩, stepped⟩ := run.step_of_mem member
  obtain ⟨us, reached⟩ := reachable prior.of_restrict
  have nested := Executor.nested_of_run reached
  obtain ⟨quiet, dry, rest, top⟩ :=
    dry_of_deadlock (step_spec (Machine.restrict_step stepped).2) panics
  have alive := (nested.alive (nested.borrowed (.blockOn id false) (by simp [top]) rfl)).1
  rcases no_wake_lost prior alive waits informed unfinished with
    next | ⟨call, running, -, -⟩ | token | polled
  · simp [quiet] at next
  · -- `block_on` is the innermost call
    rw [top] at running
    have below : .schedule call ∈ t.before.executor.stack.tail := by simpa [top] using running
    cases nested.resting _ below
  · refine .inr ?_
    rw [Executor.tokens, dry, List.count_nil, Nat.zero_add] at token
    rcases Nat.eq_zero_or_pos
        (t.before.executor.stack.map (Frame.tokens a.task)).sum with none | some
    · rw [none, Nat.zero_add] at token
      obtain ⟨call, going, pushes⟩ := List.countP_pos_iff.mp (token ▸ Nat.one_pos)
      simp only [Call.pushes, Bool.and_eq_true, beq_iff_eq] at pushes
      exact .inr ⟨call, going, pushes⟩
    · obtain ⟨frame, onStack, holds⟩ := Executor.sum_pos.mp some
      have below : frame ∈ t.before.executor.stack.tail := by
        rw [top] at onStack ⊢
        refine (List.mem_cons.mp onStack).resolve_left fun same => ?_
        simp [same, Frame.tokens] at holds
      have resting := nested.resting frame below
      cases frame with
      | process checked batch =>
        cases checked
        · exact .inl ⟨batch, onStack, List.count_pos_iff.mp holds⟩
        · cases resting
      | schedule call => cases resting
      | _ => exact absurd holds (Nat.lt_irrefl 0)
  · exact .inl polled

end

/-- A task waits for an event in `block_on`, and another one notifies it. -/
def waitAndNotify : List (Act Unit) :=
  [.run .spawn] ++ List.replicate 5 (.run .advance) ++ [.run .blockOn] ++
    List.replicate 9 (.run .advance) ++ [.use 0 .listen, .use 0 (.poll 0 0), .run .pollPending] ++
    List.replicate 2 (.run .advance) ++ [.use 0 (.notify (.usize 1))]

/-- The call of `schedule` has returned, and the entry is in the inbox. -/
theorem notified_is_queued : ∃ ts, ∃ s : Runtime Unit, careful.Run ts s ∧
    ts.map Machine.Transition.act = waitAndNotify ++ [.wake] ++
      List.replicate 5 (.run .advance) ∧
    s.toWake = [] ∧ s.executor.inbox = [0] ∧
    (0 ∈ s.toWake ∨
      (∃ call, .schedule call ∈ s.executor.stack ∧ call.id = 0 ∧ 1 ≤ call.start) ∨
        s.executor.tokens 0 = 1 ∨ 1 < s.executor.polls 0) := by
  obtain ⟨ts, s, run, acts, next, inbox, alive, waits, listens, notified, unfinished⟩ :=
    Machine.exists_run (m := careful (T := Unit))
    (P := fun _ s => s.toWake = [] ∧ s.executor.inbox = [0] ∧ s.executor.closed = false ∧
      s.asked 0 0 = some ⟨0, 1, 0, true⟩ ∧ (s.events 0).states 0 = some (.listening 0) ∧
      EventListener.isNotified 0 (s.events 0).inner = true ∧ s.executor.finished 0 = false)
    (waitAndNotify ++ [.wake] ++ List.replicate 5 (.run .advance)) rfl (by decide)
  exact ⟨ts, s, run, acts, next, inbox,
    no_wake_lost run alive waits ⟨0, listens, .inl notified⟩ unfinished⟩

/-- The task that was notified has been polled when `block_on` gives up. -/
theorem polled_before_deadlock :
    ∃ ts, ∃ s : Runtime Unit, careful.Run ts s ∧
    ts.map Machine.Transition.act = waitAndNotify ++ [.wake] ++
      List.replicate 5 (.run .advance) ++ [.run .pollPending] ++ List.replicate 5 (.run .advance) ++
      [.run .pollPending] ++ List.replicate 2 (.run .advance) ∧
    ∃ t ∈ ts, t.out = .deadlock 1 ∧ t.before.asked 0 0 = some ⟨0, 1, 0, true⟩ ∧
      (1 < t.before.executor.polls 0 ∨
        (∃ batch, .process false batch ∈ t.before.executor.stack ∧ 0 ∈ batch) ∨
          ∃ call ∈ t.before.executor.threads, call.id = 0 ∧ call.pc = .push) := by
  obtain ⟨ts, s, run, acts, t, member, panics, waits, listens, notified, unfinished⟩ :=
    Machine.exists_run (m := careful (T := Unit))
    (P := fun ts _ => ∃ t ∈ ts, t.out = .deadlock 1 ∧
      t.before.asked 0 0 = some ⟨0, 1, 0, true⟩ ∧
      (t.before.events 0).states 0 = some (.listening 0) ∧
      EventListener.isNotified 0 (t.before.events 0).inner = true ∧
      t.before.executor.finished 0 = false)
    (waitAndNotify ++ [.wake] ++ List.replicate 5 (.run .advance) ++ [.run .pollPending] ++
      List.replicate 5 (.run .advance) ++ [.run .pollPending] ++
      List.replicate 2 (.run .advance)) rfl (by decide)
  exact ⟨ts, s, run, acts, t, member, panics, waits,
    deadlock_after_polls run member panics waits ⟨0, listens, .inl notified⟩ unfinished⟩

end Runtime

end Eneste
