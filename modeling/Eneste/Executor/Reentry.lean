import Eneste.Executor.Places
import Eneste.Executor.Tokens

/-!
# Wakes on the executor's own thread

Without other threads, but with polls and destructors that call back into the executor
as they like, `process_tasks` and `block_on` included.
-/

namespace Eneste.Executor

open Header

/-- No other thread wakes tasks. -/
def solo : Machine Executor Act Event :=
  machine.restrict fun _ act => !act matches .wakeThread _ | .stepThread _

/-- An entry of the task is in the inbox, or drained and not run yet. -/
def Entered (e : Executor) (id : Nat) : Prop :=
  id ∈ e.inbox ∨ ∃ checked batch, .process checked batch ∈ e.stack ∧ id ∈ batch

/-- The wake of an unfinished task is pending unless a poll has begun since. Nothing is
said about the middle of `ExecutorState::drop`, where no user code runs. -/
def WakesPending (e : Executor) : Prop :=
  e.closed = false ∨ e.userMode = true → ∀ id start, (id, start) ∈ e.calls →
    e.finished id = false → start < e.polls id ∨ e.isQueued id = true ∧ e.Entered id

/-- The step loses a wake: it runs the entry of a task whose future is being polled, or it
unwinds a `process_tasks` that has entries of unfinished tasks left. -/
def forgets (e : Executor) (act : Act) : Bool :=
  match act, e.stack with
  | .advance, .process true (id :: _) :: _ => !e.finished id && e.slots.get? id != some true
  | .dropReturn, .dropFuture _ .unwound :: .process _ batch :: _ =>
    batch.any fun id => !e.finished id
  | _, _ => false

/-! ### Entries -/

theorem sum_pos {stack : List Frame} {f : Frame → Nat} :
    0 < (stack.map f).sum ↔ ∃ frame ∈ stack, 0 < f frame := by
  induction stack with
  | nil => simp
  | cons frame rest ih =>
    simp only [List.map_cons, List.sum_cons, Nat.add_pos_iff_pos_or_pos, ih, List.mem_cons,
      exists_eq_or_imp]

/-- Entries are tokens, and the only ones while no call is in flight. -/
theorem Entered.tokens {e : Executor} {id : Nat} (entered : e.Entered id) : 0 < e.tokens id := by
  unfold Executor.tokens
  rcases entered with inbox | ⟨checked, batch, frame, member⟩
  · have pos := List.count_pos_iff.mpr inbox
    omega
  · have pos : 0 < (e.stack.map (Frame.tokens id)).sum :=
      sum_pos.mpr ⟨_, frame, List.count_pos_iff.mpr member⟩
    omega

theorem entered_of_tokens {e : Executor} {id : Nat} (idle : ∀ call, ¬ e.Running call)
    (pos : 0 < e.tokens id) : e.Entered id := by
  unfold Executor.tokens at pos
  have quiet : e.threads.countP (Call.pushes id) = 0 :=
    List.countP_eq_zero.mpr fun call member => absurd (Or.inl member) (idle call)
  rcases Nat.eq_zero_or_pos (e.inbox.count id) with none | some
  · have below : 0 < (e.stack.map (Frame.tokens id)).sum := by omega
    obtain ⟨frame, member, holds⟩ := sum_pos.mp below
    right
    cases frame with
    | process checked batch => exact ⟨checked, batch, member, List.count_pos_iff.mp holds⟩
    | schedule call => exact absurd (Or.inr member) (idle call)
    | _ => exact absurd holds (Nat.lt_irrefl 0)
  · exact Or.inl (List.count_pos_iff.mp some)

theorem TokenInv.queued_iff {e : Executor} (inv : TokenInv e) (alive : e.closed = false)
    (idle : ∀ call, ¬ e.Running call) {id : Nat} (unfinished : e.finished id = false) :
    e.isQueued id = true ↔ e.Entered id ∨ id ∈ e.lost := by
  -- no scheduler is about to push, so a token is an entry or lost
  have even := inv.balanced alive id unfinished
  constructor
  · intro queued
    rw [owed, queued, Bool.toNat_true] at even
    rcases Nat.eq_zero_or_pos (e.tokens id) with none | some
    · exact Or.inr (List.count_pos_iff.mp (by omega))
    · exact Or.inl (entered_of_tokens idle some)
  · intro holds
    have pos : 0 < e.owed id := by
      rcases holds with entered | lost
      · have := entered.tokens
        omega
      · have := List.count_pos_iff.mpr lost
        omega
    unfold owed at pos
    cases queued : e.isQueued id with
    | true => rfl
    | false => simp [queued] at pos

/-- A step that takes no entry off. -/
private theorem Entered.keep {e e' : Executor} {id : Nat} (entered : e.Entered id)
    (inbox : id ∈ e.inbox → id ∈ e'.inbox)
    (stack : ∀ checked batch, .process checked batch ∈ e.stack →
      .process checked batch ∈ e'.stack) : e'.Entered id :=
  entered.imp inbox fun ⟨checked, batch, frame, member⟩ =>
    ⟨checked, batch, stack checked batch frame, member⟩

/-- The entries in the innermost batch, and the others. -/
theorem entered_process {e : Executor} {checked : Bool} {batch : List Nat} {rest : List Frame}
    (top : e.stack = .process checked batch :: rest) (id : Nat) :
    e.Entered id ↔ id ∈ batch ∨ { e with stack := rest }.Entered id := by
  simp only [Entered, top, List.mem_cons, Frame.process.injEq]
  constructor
  · rintro (inbox | ⟨c, b, ⟨rfl, rfl⟩ | frame, member⟩)
    · exact Or.inr (Or.inl inbox)
    · exact Or.inl member
    · exact Or.inr (Or.inr ⟨c, b, frame, member⟩)
  · rintro (member | inbox | ⟨c, b, frame, member⟩)
    · exact Or.inr ⟨checked, batch, Or.inl ⟨rfl, rfl⟩, member⟩
    · exact Or.inl inbox
    · exact Or.inr ⟨c, b, Or.inr frame, member⟩

theorem Scheduled.inbox {e e' : Executor} {call : Call} {next : Option Call}
    (done : Scheduled e call e' next) {id : Nat} (member : id ∈ e.inbox) : id ∈ e'.inbox := by
  cases done with
  | pushed => exact List.mem_append_left _ member
  | _ => exact member

/-- Entries stay until they are run, unless a step loses them. -/
theorem Moves.entered {e e' : Executor} {act : Act} {ev : Event} (moved : Moves e act e' ev)
    (nested : Nested e.closed e.executors e.stack) (alive : e'.closed = false) {id : Nat}
    (unfinished : e.finished id = false) (entered : e.Entered id) :
    e'.Entered id ∨ e.polls id < e'.polls id ∨ e.forgets act = true := by
  cases moved with
  | wakeThread | dropFinished | dropPolled | detach | cloneExecutor => exact Or.inl entered
  | @stepThread index call found =>
    have done := Executor.scheduled e call
    refine Or.inl (entered.keep done.inbox fun checked batch frame => ?_)
    simpa only [done.untouched.stack] using frame
  | spawn | wake | dropPending =>
    exact Or.inl (entered.keep (fun member => member) fun _ _ => List.mem_cons_of_mem _)
  | blockOn =>
    exact Or.inl (entered.keep (fun member => member) fun _ _ frame =>
      List.mem_cons_of_mem _ (List.mem_cons_of_mem _ frame))
  | dropExecutor =>
    exact Or.inl (entered.keep (fun member => member) fun _ _ => mem_stack_release)
  | @processTasks count =>
    left
    rcases entered with inbox | ⟨checked, batch, frame, member⟩
    · rw [← List.take_append_drop (min count e.inbox.length) e.inbox] at inbox
      rcases List.mem_append.mp inbox with taken | left
      · exact Or.inr ⟨false, _, List.mem_cons_self, taken⟩
      · exact Or.inl left
    · exact Or.inr ⟨checked, batch, List.mem_cons_of_mem _ frame, member⟩
  | dropReturn top | pollReady top | pollPending top | pollCanceled top | pollPanic top
  | blockedOn top | deadlock top | hasTasks top | cancel top | canceledAll top | dropSlot top
  | shutDown top =>
    refine Or.inl (entered.keep (fun member => member) fun checked batch frame => ?_)
    simpa [dropFuture, top] using frame
  | dropHandleReturn top =>
    refine Or.inl (entered.keep (fun member => member) fun checked batch frame => ?_)
    exact mem_stack_release (by simpa [top] using frame)
  | @schedule call rest top =>
    have done := Executor.scheduled e call
    refine Or.inl (entered.keep done.inbox fun checked batch frame => ?_)
    exact List.mem_append_right _ (by simpa [top] using frame)
  | drain top =>
    left
    rcases entered with inbox | ⟨checked, batch, frame, member⟩
    · exact Or.inr ⟨false, _, List.mem_cons_self, inbox⟩
    · simp only [top, List.mem_cons, reduceCtorEq, false_or] at frame
      exact Or.inr ⟨checked, batch, by simp [frame], member⟩
  | processed top =>
    exact Or.inl (((entered_process top id).mp entered).resolve_left List.not_mem_nil)
  | @skip task batch rest top isOver =>
    refine Or.inl ((entered_process rfl id).mpr ?_)
    apply ((entered_process top id).mp entered).imp_left
    intro member
    apply (List.mem_cons.mp member).resolve_left
    rintro rfl
    exact Bool.noConfusion (unfinished.symm.trans isOver)
  | check top => exact Or.inl ((entered_process rfl id).mpr ((entered_process top id).mp entered))
  | @run task batch rest top present =>
    by_cases own : id = task
    · -- the poll of this task begins
      exact Or.inr (Or.inl (by simp [own]))
    · left
      rcases (entered_process top id).mp entered with member | elsewhere
      · exact Or.inr ⟨false, batch, by simp, (List.mem_cons.mp member).resolve_left own⟩
      · exact elsewhere.keep (fun member => member) fun _ _ frame => by simp [frame]
  | @stale task batch rest top absent =>
    by_cases own : id = task
    · subst own
      exact Or.inr (Or.inr (by simp [forgets, top, unfinished, absent]))
    · refine Or.inl ((entered_process rfl id).mpr ?_)
      apply ((entered_process top id).mp entered).imp_left
      intro member
      exact (List.mem_cons.mp member).resolve_left own
  | @unwinds task checked batch rest top =>
    have below : { e with stack := .process checked batch :: rest }.Entered id :=
      entered.keep (fun member => member) fun _ _ frame => by simpa [top] using frame
    rcases (entered_process rfl id).mp below with member | elsewhere
    · right
      right
      simpa [forgets, top] using ⟨id, member, unfinished⟩
    · -- the `block_on` that may unwind too has no entries
      exact Or.inl (elsewhere.keep (fun member => member) fun _ _ frame =>
        mem_unwind_of_ne frame (by simp))
  | close => cases alive
  | clearInbox top =>
    rw [top] at nested
    exact Bool.noConfusion ((nested.closed_of_stage (by simp)).symm.trans alive)

/-! ### One call at a time -/

/-- The call of `schedule` in progress, and what every set flag is due to. -/
structure Lone (e : Executor) : Prop where
  threads : e.threads = []
  start : ∀ call rest, e.stack = .schedule call :: rest → call.start = e.polls call.id
  won : ∀ call rest, e.stack = .schedule call :: rest → call.pc = .push ∨ call.pc = .notify →
    e.isQueued call.id = true
  pushed : ∀ call rest, e.stack = .schedule call :: rest → call.pc = .notify → call.id ∈ e.inbox
  /-- A queued task was woken since its last poll began. -/
  cause : ∀ id, e.finished id = false → e.isQueued id = true → (id, e.polls id) ∈ e.calls ∨
    ∃ call rest, e.stack = .schedule call :: rest ∧ call.id = id ∧
      (call.pc = .push ∨ call.pc = .notify)

theorem Lone.running_iff {e : Executor} (lone : Lone e)
    (nested : Nested e.closed e.executors e.stack) (call : Call) :
    e.Running call ↔ ∃ rest, e.stack = .schedule call :: rest := by
  constructor
  · rintro (thread | frame)
    · simp [lone.threads] at thread
    · cases top : e.stack with
      | nil => simp [top] at frame
      | cons first rest =>
        rw [top] at frame
        rcases List.mem_cons.mp frame with rfl | below
        · exact ⟨rest, rfl⟩
        · -- only the innermost frame is in the middle of a call
          have resting := nested.resting (.schedule call) (by simpa [top] using below)
          cases resting
  · rintro ⟨rest, top⟩
    exact Or.inr (by simp [top])

/-- Either the step is one of the call in progress, or there is none. -/
theorem Lone.call_or_idle {e e' : Executor} {act : Act} {ev : Event} (lone : Lone e)
    (nested : Nested e.closed e.executors e.stack) (moved : Moves e act e' ev)
    (single : ∀ id, act ≠ .wakeThread id) :
    (∃ call rest, e.stack = .schedule call :: rest ∧ act = .advance ∧
      e' = { (e.scheduleStep call).1 with
        stack := ((e.scheduleStep call).2.map Frame.schedule).toList ++ rest }) ∨
    ∀ call, ¬ e.Running call := by
  by_cases running : ∃ call, e.Running call
  · left
    obtain ⟨call, running⟩ := running
    obtain ⟨rest, here⟩ := (lone.running_iff nested call).mp running
    cases moved with
    | schedule top => exact ⟨_, _, top, rfl, rfl⟩
    | wakeThread => exact absurd rfl (single _)
    | stepThread found => simp [lone.threads] at found
    | spawn user | wake user | dropFinished user | dropPolled user | dropPending user | detach user
    | processTasks user | blockOn user | cloneExecutor user | dropExecutor user =>
      simp [userMode, here] at user
    | pollReady top | pollPending top | pollCanceled top | pollPanic top | unwinds top
    | dropReturn top | dropHandleReturn top | processed top | skip top | check top | run top
    | stale top | blockedOn top | deadlock top | hasTasks top | drain top | close top
    | clearInbox top | cancel top | canceledAll top | dropSlot top | shutDown top =>
      cases here.symm.trans top
  · exact Or.inr fun call here => running ⟨call, here⟩

theorem Moves.threads {e e' : Executor} {act : Act} {ev : Event} (moved : Moves e act e' ev)
    (idle : ∀ call, ¬ e.Running call) (single : ∀ id, act ≠ .wakeThread id) :
    e'.threads = e.threads := by
  cases moved with
  | wakeThread => exact absurd rfl (single _)
  | stepThread found => exact absurd (Or.inl (List.mem_of_getElem? found)) (idle _)
  | schedule => exact (Executor.scheduled e _).untouched.threads
  | _ => rfl

/-- The call in progress takes one step. -/
private theorem Lone.scheduled {e e' : Executor} {call : Call} {rest : List Frame}
    {next : Option Call} (lone : Lone e) (top : e.stack = .schedule call :: rest)
    (resting : ∀ frame ∈ rest, frame.resting = true) (done : Scheduled e call e' next) :
    Lone { e' with stack := (next.map Frame.schedule).toList ++ rest } := by
  have same := done.untouched
  -- the frames below are at rest, so the call on top is the one that went on
  have only : ∀ other more, (next.map Frame.schedule).toList ++ rest = .schedule other :: more →
      next = some other := by
    intro other more eq
    cases next with
    | none => exact absurd (resting (.schedule other) (by simp [show rest = _ from eq])) nofun
    | some after => simpa using (List.cons.inj eq).1
  -- a set flag is due to a call that has returned, or to this one once it has won
  have due : ∀ id, e.finished id = false → e.isQueued id = true →
      (id, e.polls id) ∈ e.calls ∨ call.id = id ∧ (call.pc = .push ∨ call.pc = .notify) := by
    intro id unfinished queued
    apply (lone.cause id unfinished queued).imp_right
    rintro ⟨other, more, here, named, stage⟩
    cases here.symm.trans top
    exact ⟨named, stage⟩
  constructor
  case threads => exact same.threads.trans lone.threads
  case start =>
    intro other more eq
    rw [only other more eq] at done
    obtain ⟨id, start⟩ := done.same_task
    simp only [id, start, same.polls]
    exact lone.start call rest top
  case won =>
    intro other more eq stage
    have made := only other more eq
    cases done with
    | won here clear =>
      cases made
      exact (e.isQueued_enqueue call.id call.id).trans (if_pos rfl)
    | pushed here =>
      cases made
      exact lone.won call rest top (Or.inl here)
    | loaded | opened =>
      cases made
      simp at stage
    | _ => cases made
  case pushed =>
    intro other more eq stage
    have made := only other more eq
    cases done with
    | pushed here =>
      cases made
      exact List.mem_append_right _ List.mem_cons_self
    | won | loaded | opened =>
      cases made
      cases stage
    | _ => cases made
  case cause =>
    intro id unfinished' queued
    have unfinished := (same.finished id).symm.trans unfinished'
    cases done with
    | finished here | closed here =>
      have logged := (due id unfinished queued).resolve_right (by simp [here])
      exact Or.inl (List.mem_append_left _ logged)
    | loaded here | opened here =>
      exact Or.inl ((due id unfinished queued).resolve_right (by simp [here]))
    | already here set =>
      have still := (e.isQueued_enqueue call.id id).symm.trans queued
      have before : e.isQueued id = true := by
        split at still
        next own => exact own ▸ set
        next => exact still
      have logged := (due id unfinished before).resolve_right (by simp [here])
      exact Or.inl (List.mem_append_left _ logged)
    | won here clear =>
      have still := (e.isQueued_enqueue call.id id).symm.trans queued
      split at still
      next own => exact Or.inr ⟨_, rest, rfl, own.symm, Or.inl rfl⟩
      next => exact Or.inl ((due id unfinished still).resolve_right (by simp [here]))
    | pushed here =>
      rcases due id unfinished queued with logged | ⟨named, -⟩
      · exact Or.inl logged
      · exact Or.inr ⟨_, rest, rfl, named, Or.inr rfl⟩
    | notified here =>
      left
      rcases due id unfinished queued with logged | ⟨rfl, -⟩
      · exact List.mem_append_left _ logged
      · -- the call returns, and no poll has begun meanwhile
        refine List.mem_append_right _ (List.mem_singleton.mpr ?_)
        rw [lone.start call rest top]
        rfl

theorem Lone.moves {e e' : Executor} {act : Act} {ev : Event} (lone : Lone e)
    (nested : Nested e.closed e.executors e.stack) (started : Started e)
    (moved : Moves e act e' ev) (single : ∀ id, act ≠ .wakeThread id) : Lone e' := by
  rcases lone.call_or_idle nested moved single with ⟨call, rest, top, rfl, rfl⟩ | idle
  · exact lone.scheduled top (by simpa [top] using nested.resting) (Executor.scheduled e call)
  · obtain ⟨same, fresh⟩ := moved.calling.resolve_right fun ⟨call, _, _, step⟩ =>
      idle call step.running
    -- a call on top of the stack has just been made, and has not won anything yet
    have made : ∀ call rest, e'.stack = .schedule call :: rest → e'.Fresh call := by
      intro call rest top
      exact (fresh call (Or.inr (by simp [top]))).resolve_left (idle call)
    constructor
    case threads => exact (moved.threads idle single).trans lone.threads
    case start => exact fun call rest top => (made call rest top).2.1
    case won =>
      intro call rest top stage
      simp [(made call rest top).1] at stage
    case pushed =>
      intro call rest top stage
      simp [(made call rest top).1] at stage
    case cause =>
      intro id unfinished' queued'
      obtain ⟨polls, before⟩ := moved.was_queued queued'
      have queued := before.resolve_right fun ⟨call, running, _⟩ => idle call running
      have unfinished : e.finished id = false := by
        by_contra isOver
        have isOver := moved.finished (started.queued id queued) (by simpa using isOver)
        exact Bool.noConfusion (unfinished'.symm.trans isOver)
      rcases lone.cause id unfinished queued with logged | ⟨call, rest, top, -⟩
      · left
        rwa [polls, same]
      · exact absurd (Or.inr (by simp [top])) (idle call)

/-! ### Wakes are lost by those steps and no others -/

/-- What is known of the states that runs on one thread reach. -/
structure Alone (e : Executor) : Prop where
  nested : Nested e.closed e.executors e.stack
  started : Started e
  tokens : TokenInv e
  placed : Placed e
  lone : Lone e

theorem solo_step {e e' : Executor} {act : Act} {ev : Event}
    (stepped : solo.step e act = some (e', ev)) :
    Moves e act e' ev ∧ ∀ id, act ≠ .wakeThread id := by
  obtain ⟨legal, stepped⟩ := Machine.restrict_step stepped
  refine ⟨step_cases stepped, ?_⟩
  rintro id rfl
  cases legal

theorem alone_of_run {ts : List (Machine.Transition Executor Act Event)} {e : Executor}
    (run : solo.Run ts e) : Alone e := by
  have all := run.of_restrict
  refine ⟨nested_of_run all, started_of_run all, tokenInv_of_run all, placed_of_run all, ?_⟩
  apply run.relative
  · rintro _ rfl
    exact ⟨rfl, nofun, nofun, nofun, fun _ _ queued =>
      Bool.noConfusion (isQueued_zero.symm.trans queued)⟩
  · intro _ _ _ _ _ prior lone stepped
    obtain ⟨moved, single⟩ := solo_step stepped
    have all := prior.of_restrict
    exact lone.moves (nested_of_run all) (started_of_run all) moved single

/-- A call of `schedule` loses no wake, neither its own nor an earlier one. -/
private theorem pending_of_call {e e' : Executor} {call : Call} {rest : List Frame}
    {next : Option Call} (inv : Alone e) (alive : e.closed = false) (safe : WakesPending e)
    (top : e.stack = .schedule call :: rest) (done : Scheduled e call e' next) {id start : Nat}
    (called : (id, start) ∈ e'.calls) (unfinished : e.finished id = false) :
    start < e.polls id ∨ e'.isQueued id = true ∧
      { e' with stack := (next.map Frame.schedule).toList ++ rest }.Entered id := by
  have kept : e.Entered id →
      { e' with stack := (next.map Frame.schedule).toList ++ rest }.Entered id := fun entered =>
    entered.keep done.inbox fun checked batch frame =>
      List.mem_append_right _ (by simpa [top] using frame)
  rcases done.calls called with old | ⟨returned, same⟩
  · exact (safe (Or.inl alive) id start old unfinished).imp_right fun ⟨queued, entered⟩ =>
      ⟨done.queued queued, kept entered⟩
  · cases same
    cases done with
    | finished here isOver => exact Bool.noConfusion (unfinished.symm.trans isOver)
    | closed here closed => exact Bool.noConfusion (alive.symm.trans closed)
    | already here set =>
      right
      -- an earlier wake has set the flag, and it is pending
      have logged := (inv.lone.cause call.id unfinished set).resolve_right (by
        rintro ⟨other, more, eq, -, stage⟩
        cases eq.symm.trans top
        simp [here] at stage)
      obtain ⟨queued, entered⟩ := (safe (Or.inl alive) _ _ logged unfinished).resolve_left
        (Nat.lt_irrefl _)
      exact ⟨(e.isQueued_enqueue call.id call.id).trans (if_pos rfl), kept entered⟩
    | notified here =>
      exact Or.inr ⟨inv.lone.won call rest top (Or.inr here),
        kept (Or.inl (inv.lone.pushed call rest top here))⟩
    | _ => cases returned

/-- A step that does not forget leaves every wake pending or polled. -/
private theorem WakesPending.step {e e' : Executor} {act : Act} {ev : Event} (inv : Alone e)
    (after : Placed e') (moved : Moves e act e' ev) (single : ∀ id, act ≠ .wakeThread id)
    (safe : WakesPending e) (careful : e.forgets act = false) : WakesPending e' := by
  intro visible id start called unfinished'
  -- once the executor is closed, user code sees finished tasks only
  have alive' : e'.closed = false := by
    rcases visible with alive | user
    · exact alive
    · by_contra closed
      have known := ((inv.started.moves moved).calls _ called).1
      have isOver := after.finished_of_user (by simpa using closed) user known
      exact Bool.noConfusion (unfinished'.symm.trans isOver)
  have alive := moved.closed alive'
  have unfinished : (id, start) ∈ e.calls → e.finished id = false := by
    intro old
    by_contra isOver
    have known := (inv.started.calls _ old).1
    exact Bool.noConfusion (unfinished'.symm.trans (moved.finished known (by simpa using isOver)))
  rcases inv.lone.call_or_idle inv.nested moved single with ⟨call, rest, top, rfl, rfl⟩ | idle
  · have done := Executor.scheduled e call
    have same := done.untouched
    have still : e.finished id = false := (same.finished id).symm.trans unfinished'
    have pending := pending_of_call inv alive safe top done called still
    rw [← same.polls] at pending
    exact pending
  · obtain ⟨same, -⟩ := moved.calling.resolve_right fun ⟨call, _, _, step⟩ =>
      idle call step.running
    rw [same] at called
    obtain ⟨known, earlier⟩ := inv.started.calls _ called
    have still := unfinished called
    rcases safe (Or.inl alive) id start called still with polled | ⟨queued, entered⟩
    · exact Or.inl (polled.trans_le (moved.polls id))
    · -- flag and entry go together: a poll takes both, and what takes one alone forgets the wake
      rcases moved.queued known queued with queued' | more | ⟨rfl, batch, rest, top, absent⟩
      · rcases moved.entered inv.nested alive' still entered with entered' | more | forgets
        · exact Or.inr ⟨queued', entered'⟩
        · exact Or.inl (earlier.trans_lt more)
        · exact Bool.noConfusion (careful.symm.trans forgets)
      · exact Or.inl (earlier.trans_lt more)
      · simp [forgets, top, still, absent] at careful

/-- A task with an entry was woken since its last poll began. -/
private theorem Alone.woken {e : Executor} (inv : Alone e) (alive : e.closed = false)
    (idle : ∀ call rest, e.stack ≠ .schedule call :: rest) {id : Nat}
    (unfinished : e.finished id = false) (entered : e.Entered id) : (id, e.polls id) ∈ e.calls := by
  have silent : ∀ call, ¬ e.Running call := by
    intro call running
    obtain ⟨rest, top⟩ := (inv.lone.running_iff inv.nested call).mp running
    exact idle call rest top
  -- the entry is owed by the flag, and the flag has a cause
  have queued := (inv.tokens.queued_iff alive silent unfinished).mpr (Or.inl entered)
  exact (inv.lone.cause id unfinished queued).resolve_right fun ⟨call, rest, top, _⟩ =>
    idle call rest top

/-- A step that forgets leaves a task that was woken with neither flag and entry nor poll. -/
private theorem Alone.breaks {e e' : Executor} {act : Act} {ev : Event} (inv : Alone e)
    (after : TokenInv e') (moved : Moves e act e' ev) (forgets : e.forgets act = true) :
    ¬ WakesPending e' := by
  intro safe'
  have nested := inv.nested
  cases moved with
  | @stale id batch rest top absent =>
    have unfinished : e.finished id = false := by
      simp [Executor.forgets, top] at forgets
      exact forgets.1
    have alive : e.closed = false := (nested.alive (nested.borrowed (.process true (id :: batch))
      (by simp [top]) rfl)).1
    have woken := inv.woken alive (by simp [top]) unfinished
      ((entered_process top id).mpr (Or.inl List.mem_cons_self))
    -- the flag is cleared and no poll begins
    have unqueued : (e.dequeue id batch rest).isQueued id = false :=
      (e.isQueued_dequeue id id batch rest).trans (if_pos rfl)
    rcases safe' (Or.inl alive) id _ woken ((e.finished_dequeue id id batch rest).trans unfinished)
      with polled | ⟨queued, -⟩
    · exact absurd polled (Nat.lt_irrefl _)
    · exact Bool.noConfusion (unqueued.symm.trans queued)
  | @unwinds id checked batch rest top =>
    obtain ⟨other, member, unfinished⟩ : ∃ other ∈ batch, e.finished other = false := by
      simpa [Executor.forgets, top] using forgets
    -- an entry of the batch that unwinds stood for a wake
    have alive := (nested.alive (nested.borrowed (.process checked batch) (by simp [top]) rfl)).1
    have woken := inv.woken alive (by simp [top]) unfinished
      (Or.inr ⟨checked, batch, by simp [top], member⟩)
    rcases safe' (Or.inl alive) other _ woken unfinished with polled | ⟨-, entered⟩
    · exact absurd polled (Nat.lt_irrefl _)
    · -- the flag would owe two tokens, the entry and the one that was lost
      have even := after.balanced alive other unfinished
      have one := entered.tokens
      have two : 0 < (e.lost ++ batch).count other :=
        List.count_pos_iff.mpr (List.mem_append_right _ member)
      have isOver : 1 + 1 ≤ 1 := (Nat.add_le_add one two).trans (even.le.trans (Bool.toNat_le _))
      omega
  | run top present => simp [Executor.forgets, top, present] at forgets
  | dropReturn top other plain =>
    simp only [Executor.forgets, top] at forgets
    split at forgets
    next advance _ => cases advance
    next here =>
      cases here
      exact plain rfl _ _ _ rfl
    next => cases forgets
  | dropHandleReturn top => simp [Executor.forgets, top] at forgets
  | schedule top | processed top | skip top | check top | blockedOn top | deadlock top
  | hasTasks top | drain top | close top | clearInbox top | cancel top | canceledAll top
  | dropSlot top | shutDown top =>
    simp [Executor.forgets, top] at forgets
  | _ => simp [Executor.forgets] at forgets

theorem wakesPending_iff {ts : List (Machine.Transition Executor Act Event)} {e : Executor}
    (run : solo.Run ts e) : (WakesPending e ∧ ∀ t ∈ ts, WakesPending t.before) ↔
      ∀ t ∈ ts, t.before.forgets t.act = false := by
  refine run.safe_iff_guard Alone WakesPending (fun e act => e.forgets act = false)
    (fun _ _ prior => alone_of_run prior) ?_ ?_
  · rintro _ rfl _
    exact nofun
  · intro e act e' ev inv safe stepped
    obtain ⟨moved, single⟩ := solo_step stepped
    have after := inv.placed.moves inv.nested moved
    have tokens := inv.tokens.moves inv.nested inv.started moved
    constructor
    · exact fun safe' => Bool.eq_false_iff.mpr fun forgets =>
        inv.breaks tokens moved forgets safe'
    · exact fun careful => safe.step inv after moved single careful

/-- On one thread the wakes of unfinished tasks stay pending exactly as long as no step
forgets one. When nothing is running, a wake that is pending has its entry in the inbox. -/
theorem reentrant_wakes_iff {ts : List (Machine.Transition Executor Act Event)} {e : Executor}
    (run : solo.Run ts e) :
    ((WakesPending e ∧ ∀ t ∈ ts, WakesPending t.before) ↔
      ∀ t ∈ ts, t.before.forgets t.act = false) ∧
    (WakesPending e → e.stack = [] → ∀ id start, (id, start) ∈ e.calls →
      e.finished id = false → start < e.polls id ∨ id ∈ e.inbox) := by
  refine ⟨wakesPending_iff run, fun safe idle id start called unfinished => ?_⟩
  apply (safe (Or.inr (by simp [userMode, idle])) id start called unfinished).imp_right
  rintro ⟨-, inbox | ⟨checked, batch, frame, -⟩⟩
  · exact inbox
  · simp [idle] at frame

/-- A task wakes itself while it is polled and calls `process_tasks`, which takes the
entry and finds no future. The poll returns, and nothing is left of the wake. -/
theorem self_wake_forgotten : ∃ ts e, solo.Run ts e ∧
    ts.map Machine.Transition.act = [.spawn, .advance, .advance, .advance, .advance, .advance,
      .processTasks 10, .advance, .advance, .wake 0, .advance, .advance, .advance, .advance,
      .advance, .processTasks 10, .advance, .advance, .advance, .pollPending, .advance] ∧
    e.stack = [] ∧ e.inbox = [] ∧ ¬ WakesPending e := by
  obtain ⟨ts, e, run, acts, idle, alive, woken, unfinished, polls, clear, empty⟩ :=
    Machine.exists_run (m := solo)
    (P := fun _ e => e.stack.isEmpty = true ∧ e.closed = false ∧ (0, 1) ∈ e.calls ∧
      e.finished 0 = false ∧ e.polls 0 = 1 ∧ e.isQueued 0 = false ∧ e.inbox = [])
    [.spawn, .advance, .advance, .advance, .advance, .advance,
      .processTasks 10, .advance, .advance, .wake 0, .advance, .advance, .advance, .advance,
      .advance, .processTasks 10, .advance, .advance, .advance, .pollPending, .advance] rfl
    (by decide)
  refine ⟨ts, e, run, acts, List.isEmpty_iff.mp idle, empty, fun safe => ?_⟩
  rcases safe (Or.inl alive) 0 1 woken unfinished with polled | ⟨queued, -⟩
  · omega
  · exact Bool.noConfusion (clear.symm.trans queued)

/-- A task spawns another one and drives it with `process_tasks`; that one wakes the first
while it is being polled. The wake is there when all have returned. -/
theorem nested_wake_kept : ∃ ts e, solo.Run ts e ∧
    ts.map Machine.Transition.act = [.spawn, .advance, .advance, .advance, .advance, .advance,
      .processTasks 10, .advance, .advance, .spawn, .advance, .advance, .advance, .advance,
      .advance, .processTasks 10, .advance, .advance, .wake 0, .advance, .advance, .advance,
      .advance, .advance, .pollReady, .dropReturn, .advance, .pollPending, .advance] ∧
    (0, 1) ∈ e.calls ∧ e.polls 0 = 1 ∧ 0 ∈ e.inbox := by
  obtain ⟨ts, e, run, acts, careful, idle, woken, unfinished, polls⟩ :=
    Machine.exists_run (m := solo)
    (P := fun ts e => (∀ t ∈ ts, t.before.forgets t.act = false) ∧ e.stack.isEmpty = true ∧
      (0, 1) ∈ e.calls ∧ e.finished 0 = false ∧ e.polls 0 = 1)
    [.spawn, .advance, .advance, .advance, .advance, .advance,
      .processTasks 10, .advance, .advance, .spawn, .advance, .advance, .advance, .advance,
      .advance, .processTasks 10, .advance, .advance, .wake 0, .advance, .advance, .advance,
      .advance, .advance, .pollReady, .dropReturn, .advance, .pollPending, .advance] rfl
    (by decide)
  obtain ⟨pending, settled⟩ := reentrant_wakes_iff run
  refine ⟨ts, e, run, acts, woken, polls, ?_⟩
  refine (settled (pending.mpr careful).1 (List.isEmpty_iff.mp idle) 0 1 woken
    unfinished).resolve_left ?_
  omega

end Eneste.Executor
