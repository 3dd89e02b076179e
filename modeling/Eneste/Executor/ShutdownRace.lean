import Eneste.Executor.Calls
import Eneste.Executor.Places

/-!
# Wakes that race with `ExecutorState::drop`

`schedule` reads `closed` before it sets `QUEUED` and pushes, and `drop` sets `closed`
before it empties the inbox: two checks on one side and two steps on the other. A call
that has read `closed` in time can push after the inbox has been emptied for good.
-/

namespace Eneste

/-- A frame on a closed executor: `schedule` gets no further than its second test, and
`ExecutorState::drop` is past its first step. -/
def Frame.Late : Frame → Prop
  | .schedule call => call.pc = .loadState ∨ call.pc = .loadClosed
  | .shutdown stage => stage ≠ .close
  | _ => True

theorem Frame.late_of_resting {frame : Frame} (resting : frame.resting = true) : frame.Late := by
  cases frame with
  | schedule call => cases resting
  | shutdown stage =>
    rintro rfl
    cases resting
  | _ => trivial

namespace Executor

open Header Machine

/-- A call on another thread is going to push: it has set the flag, or will find it clear. -/
def Races (e : Executor) : Prop :=
  ∃ call ∈ e.threads, call.pc = .push ∨ call.pc = .fetchOr ∧ e.isQueued call.id = false

instance (e : Executor) : Decidable (Races e) :=
  inferInstanceAs (Decidable (∃ call ∈ e.threads, _))

/-- `ExecutorState::drop` has closed the executor. -/
structure Closing (e : Executor) : Prop where
  closed : e.closed = true
  frames : ∀ frame ∈ e.stack, frame.Late

/-- It has emptied the inbox, too. -/
def Swept (e : Executor) : Prop := Closing e ∧ .shutdown .clearInbox ∉ e.stack

/-- What a step can do to the calls and entries of a closed executor. -/
inductive LateMove (e : Executor) : Act → Executor → Prop
  | wakeThread {id} :
      LateMove e (.wakeThread id)
        { e with threads := ⟨id, .loadState, e.polls id⟩ :: e.threads }
  | stepThread {index call} (found : e.threads[index]? = some call) :
      LateMove e (.stepThread index)
        { (e.scheduleStep call).1 with
          threads := (e.scheduleStep call).2.toList ++ e.threads.eraseIdx index }
  | own {act e'} (here : (act matches .wakeThread _ | .stepThread _) = false)
      (threads : e'.threads = e.threads) (pushed : e'.pushed = e.pushed)
      (queued : ∀ id, e'.isQueued id = e.isQueued id)
      (inbox : .shutdown .clearInbox ∉ e.stack → e'.inbox = e.inbox) : LateMove e act e'

variable {e e' : Executor} {act : Act} {ev : Event}

/-- On a closed executor a call that has not passed both tests returns at the second one. -/
theorem Scheduled.late {call : Call} {next : Option Call} (done : Scheduled e call e' next)
    (closed : e.closed = true) (early : call.pc = .loadState ∨ call.pc = .loadClosed) :
    (∀ after, next = some after → after.pc = .loadClosed) ∧ e'.pushed = e.pushed ∧
      e'.inbox = e.inbox ∧ ∀ id, e'.isQueued id = e.isQueued id := by
  cases done with
  | finished | closed => exact ⟨nofun, rfl, rfl, fun _ => rfl⟩
  | loaded => exact ⟨by rintro _ ⟨⟩; rfl, rfl, rfl, fun _ => rfl⟩
  | opened _ opened => exact Bool.noConfusion (closed.symm.trans opened)
  | already here | won here | pushed here | notified here => simp [here] at early

/-- Closing goes on: frames that come in are late, and none of them empties the inbox. -/
private theorem Closing.late (closing : Closing e) (moved : LateMove e act e')
    (closed : e'.closed = e.closed)
    (frames : ∀ frame ∈ e'.stack, frame ∈ e.stack ∨ frame.Late ∧ frame ≠ .shutdown .clearInbox) :
    LateMove e act e' ∧ Closing e' ∧ (Swept e → Swept e') := by
  have after : Closing e' := by
    refine ⟨closed.trans closing.closed, fun frame member => ?_⟩
    rcases frames frame member with old | ⟨late, -⟩
    · exact closing.frames frame old
    · exact late
  refine ⟨moved, after, fun swept => ⟨after, fun clears => ?_⟩⟩
  rcases frames _ clears with old | ⟨-, other⟩
  · exact swept.2 old
  · exact other rfl

/-- A late frame on calls that were there before. -/
private theorem late_top {frame : Frame} {rest : List Frame} (late : frame.Late)
    (other : frame ≠ .shutdown .clearInbox) (known : ∀ g ∈ rest, g ∈ e.stack) :
    ∀ g ∈ frame :: rest, g ∈ e.stack ∨ g.Late ∧ g ≠ .shutdown .clearInbox := by
  intro g member
  rcases List.mem_cons.mp member with rfl | old
  · exact Or.inr ⟨late, other⟩
  · exact Or.inl (known g old)

theorem Closing.moves (closing : Closing e) (nested : Nested e.closed e.executors e.stack)
    (moved : Moves e act e' ev) : LateMove e act e' ∧ Closing e' ∧ (Swept e → Swept e') := by
  -- nobody holds the executor any more
  have free := nested.gone closing.closed
  have dead : e.executors = 0 := by
    unfold strong at free
    omega
  have unpolled : ∀ id, .poll id ∉ e.stack := fun id polled =>
    Bool.noConfusion ((nested.open_of_poll polled).1.symm.trans closing.closed)
  have unborrowed : ∀ frame ∈ e.stack, frame.borrows = false := fun frame member =>
    Bool.eq_false_iff.mpr fun borrows => nested.borrowed frame member borrows dead
  have below : ∀ {f rest}, e.stack = f :: rest → ∀ g ∈ rest, g ∈ e.stack := fun top g member => by
    rw [top]
    exact List.mem_cons_of_mem _ member
  cases moved with
  | spawn _ alive | processTasks _ alive | blockOn _ alive | cloneExecutor _ alive
  | dropExecutor _ alive => exact absurd dead alive
  | dropPolled _ _ _ upgraded | dropPending _ _ _ upgraded => exact absurd free upgraded
  | pollReady top | pollPending top | pollCanceled top | pollPanic top =>
    exact absurd (by rw [top]; exact List.mem_cons_self) (unpolled _)
  | processed top | skip top | check top | run top | stale top | blockedOn top | deadlock top
  | hasTasks top | drain top =>
    exact absurd (unborrowed _ (by rw [top]; exact List.mem_cons_self)) (by simp [Frame.borrows])
  | unwinds top =>
    exact absurd (unborrowed _ (below top _ List.mem_cons_self)) (by simp [Frame.borrows])
  | dropHandleReturn top => simp [top, Nested.strong_cons, Frame.upgrades] at free
  | close top => exact absurd rfl (closing.frames (.shutdown .close) (by simp [top]))
  | wakeThread => exact closing.late .wakeThread rfl fun _ => Or.inl
  | @stepThread index call found =>
    have same := (Executor.scheduled e call).untouched
    exact closing.late (.stepThread found) same.closed fun frame member =>
      Or.inl (by simpa only [same.stack] using member)
  | dropFinished =>
    exact closing.late (.own rfl rfl rfl (fun j => e.isQueued_cancelHandle _ j) fun _ => rfl) rfl
      fun _ => Or.inl
  | detach =>
    exact closing.late (.own rfl rfl rfl (fun _ => rfl) fun _ => rfl) rfl fun _ => Or.inl
  | wake =>
    exact closing.late (.own rfl rfl rfl (fun _ => rfl) fun _ => rfl) rfl
      (late_top (Or.inl rfl) (by simp) fun _ old => old)
  | @schedule call rest top =>
    have early : Frame.Late (.schedule call) := closing.frames _ (by simp [top])
    have done := Executor.scheduled e call
    have same := done.untouched
    obtain ⟨next, pushed, inbox, queued⟩ := done.late closing.closed early
    refine closing.late (.own rfl same.threads pushed queued fun _ => inbox) same.closed
      fun frame member => ?_
    rcases List.mem_append.mp member with new | old
    · obtain ⟨after, made, rfl⟩ : ∃ after, (e.scheduleStep call).2 = some after ∧
          .schedule after = frame := by simpa using new
      exact Or.inr ⟨Or.inr (next after made), by simp⟩
    · exact Or.inl (below top frame old)
  | dropReturn top | shutDown top =>
    exact closing.late (.own rfl rfl rfl (fun _ => rfl) fun _ => rfl) rfl
      fun frame member => Or.inl (below top frame member)
  | canceledAll top =>
    exact closing.late (.own rfl rfl rfl (fun _ => rfl) fun _ => rfl) rfl
      (late_top (by simp [Frame.Late]) (by simp) (below top))
  | dropSlot top =>
    refine closing.late (.own rfl rfl rfl (fun _ => rfl) fun _ => rfl) rfl fun frame member => ?_
    simp only [dropFuture, List.mem_cons] at member
    rcases member with rfl | rfl | old
    · exact Or.inr ⟨trivial, by simp⟩
    · exact Or.inr ⟨by simp [Frame.Late], by simp⟩
    · exact Or.inl (below top frame old)
  | @cancel task others futures rest top =>
    refine closing.late (.own rfl rfl rfl (fun j => ?_) fun _ => rfl) rfl
      (late_top (by simp [Frame.Late]) (by simp) (below top))
    by_cases own : j = task <;> simp [isQueued, own]
  | clearInbox top =>
    refine closing.late (.own rfl rfl rfl (fun _ => rfl) fun before => ?_) rfl
      (late_top (by simp [Frame.Late]) (by simp) (below top))
    exact absurd (by simp [top]) before

/-! ### What is left in the inbox -/

/-- There is an entry, or there is going to be one. -/
def Leaves (e : Executor) : Prop := e.inbox ≠ [] ∨ Races e

/-- One operation of a call on another thread: it goes on racing, has pushed, or was no danger. -/
theorem Scheduled.leaves_iff {call : Call} {next : Option Call} {others : List Call}
    (done : Scheduled e call e' next) (closed : e.closed = true) :
    Leaves { e' with threads := next.toList ++ others } ↔
      Leaves { e with threads := call :: others } := by
  cases done with
  | finished here | loaded here | closed here | notified here =>
    simp [Leaves, Races, isQueued, logCall, here]
  | opened _ opened => exact Bool.noConfusion (closed.symm.trans opened)
  | already here set =>
    -- the flag was set before, for this call and for all others
    have same : ∀ j, (e.enqueue call.id).isQueued j = e.isQueued j := by
      intro j
      rw [isQueued_enqueue]
      split
      next own => rw [own, set]
      next => rfl
    simp only [isQueued] at same set
    simp [Leaves, Races, isQueued, logCall, here, same, set]
    rfl
  | won here clear =>
    have clear : Header.isQueued (e.headers call.id) = false := clear
    exact iff_of_true (Or.inr (by simp [Races])) (Or.inr (by simp [Races, isQueued, here, clear]))
  | pushed here => exact iff_of_true (Or.inl (by simp)) (Or.inr (by simp [Races, here]))

theorem LateMove.leaves_iff (moved : LateMove e act e') (swept : Swept e) :
    Leaves e' ↔ Leaves e := by
  cases moved with
  | wakeThread => simp [Leaves, Races, isQueued]
  | @stepThread index call found =>
    obtain ⟨bound, rfl⟩ := List.getElem?_eq_some_iff.mp found
    have members : ∀ call, call ∈ e.threads[index] :: e.threads.eraseIdx index ↔
        call ∈ e.threads := fun _ => (List.getElem_cons_eraseIdx_perm bound).mem_iff
    rw [(Executor.scheduled e _).leaves_iff swept.1.closed]
    simp only [Leaves, Races, members]
    rfl
  | own here threads pushed queued inbox =>
    simp only [Leaves, Races, threads, queued, inbox swept.2]

variable {before later : List (Transition Executor Act Event)}
  {t : Transition Executor Act Event} {rest : List Frame}

/-- Once the inbox has been emptied, an entry is left or in the making exactly if a call
raced at that time. -/
theorem leaves_since (run : machine.Run (before ++ t :: later) e) (act : t.act = .advance)
    (top : t.before.stack = .shutdown .clearInbox :: rest) :
    Swept e ∧ (Leaves e ↔ Races t.before) := by
  apply run.since (P := fun _ e => Swept e ∧ (Leaves e ↔ Races t.before))
  · intro prior taken
    rw [act] at taken
    simp only [machine, step, advance, top, shutdownStep, Option.some.injEq, Prod.mk.injEq] at taken
    obtain ⟨after, -⟩ := taken
    have nested := nested_of_run prior
    rw [top] at nested
    have below := nested.resting
    rw [← after]
    refine ⟨⟨⟨nested.closed_of_stage (by simp), fun frame member => ?_⟩, fun member => ?_⟩, ?_⟩
    · rcases List.mem_cons.mp member with rfl | old
      · simp [Frame.Late]
      · exact Frame.late_of_resting (below frame old)
    · have resting := below (.shutdown .clearInbox) (by simpa using member)
      cases resting
    · simp [Leaves, Races, isQueued]
  · rintro us u prior ⟨swept, same⟩ taken
    obtain ⟨moved, -, kept⟩ := swept.1.moves (nested_of_run prior) (step_cases taken)
    exact ⟨kept swept, (moved.leaves_iff swept).trans same⟩

/-! ### Which calls push -/

/-- The calls on other threads after one more step, each with the number of the step that
began it. -/
def follow (calls : List (Nat × Call)) (n : Nat) (t : Transition Executor Act Event) :
    List (Nat × Call) :=
  match t.act with
  | .wakeThread id => (n, ⟨id, .loadState, t.before.polls id⟩) :: calls
  | .stepThread index =>
    match calls[index]? with
    | none => calls
    | some (began, call) =>
      ((t.before.scheduleStep call).2.map (Prod.mk began)).toList ++ calls.eraseIdx index
  | _ => calls

/-- The calls on other threads that a run leaves in flight, with those numbers. -/
def inFlight (ts : List (Transition Executor Act Event)) : List (Nat × Call) :=
  ts.zipIdx.foldl (fun calls u => follow calls u.2 u.1) []

theorem inFlight_append (ts : List (Transition Executor Act Event))
    (t : Transition Executor Act Event) :
    inFlight (ts ++ [t]) = follow (inFlight ts) ts.length t := by
  simp [inFlight, List.zipIdx_append]

/-- The numbered calls are the calls of the state. -/
theorem inFlight_of_run {ts : List (Transition Executor Act Event)} (run : machine.Run ts e) :
    (inFlight ts).map Prod.snd = e.threads := by
  apply run.history (P := fun ts e => (inFlight ts).map Prod.snd = e.threads)
  · rintro _ rfl
    rfl
  · intro ts e act e' ev same taken
    rw [inFlight_append]
    cases step_cases taken with
    | wakeThread => exact congrArg (List.cons _) same
    | @stepThread index call found =>
      rw [← same, List.getElem?_map, Option.map_eq_some_iff] at found
      obtain ⟨⟨began, _⟩, found, rfl⟩ := found
      simp only [follow, found, List.map_append, List.eraseIdx_map, ← same]
      cases (e.scheduleStep _).2 <;> rfl
    | schedule => exact same.trans (Executor.scheduled e _).untouched.threads.symm
    | _ => exact same

/-- A call in flight was in flight before, or has just begun, or has taken a step. -/
theorem mem_follow {calls : List (Nat × Call)} {n : Nat} {t : Transition Executor Act Event}
    {c : Nat × Call} (member : c ∈ follow calls n t) :
    c ∈ calls ∨ c.1 = n ∧ c.2.pc = .loadState ∨
      ∃ call, (c.1, call) ∈ calls ∧ (t.before.scheduleStep call).2 = some c.2 := by
  unfold follow at member
  split at member
  · rcases List.mem_cons.mp member with rfl | old
    · exact Or.inr (Or.inl ⟨rfl, rfl⟩)
    · exact Or.inl old
  next index _ =>
    split at member
    · exact Or.inl member
    next began call found =>
      rcases List.mem_append.mp member with new | old
      · obtain ⟨after, made, rfl⟩ : ∃ after, (t.before.scheduleStep call).2 = some after ∧
            (began, after) = c := by simpa using new
        exact Or.inr (Or.inr ⟨call, List.mem_of_getElem? found, made⟩)
      · exact Or.inl (List.mem_of_mem_eraseIdx old)
  next => exact Or.inl member

theorem inFlight_lt (ts : List (Transition Executor Act Event)) :
    ∀ c ∈ inFlight ts, c.1 < ts.length := by
  induction ts using List.reverseRecOn with
  | nil => exact nofun
  | append_singleton ts t ih =>
    intro c member
    rw [inFlight_append] at member
    rw [List.length_append, List.length_singleton]
    rcases mem_follow member with old | ⟨new, -⟩ | ⟨call, old, -⟩
    · have := ih c old
      omega
    · omega
    · have := ih _ old
      omega

/-- Once the executor is closed, calls that begin get no further than their second test. -/
theorem late_calls (run : machine.Run (before ++ t :: later) e) (act : t.act = .advance)
    (top : t.before.stack = .shutdown .close :: rest) :
    Closing e ∧ ∀ c ∈ inFlight (before ++ t :: later), before.length ≤ c.1 →
      c.2.pc = .loadState ∨ c.2.pc = .loadClosed := by
  apply run.since (P := fun us e => Closing e ∧ ∀ c ∈ inFlight (before ++ t :: us),
    before.length ≤ c.1 → c.2.pc = .loadState ∨ c.2.pc = .loadClosed)
  · intro prior taken
    have begun : inFlight (before ++ [t]) = inFlight before := by
      rw [inFlight_append, follow, act]
    rw [act] at taken
    simp only [machine, step, advance, top, shutdownStep, Option.some.injEq, Prod.mk.injEq] at taken
    obtain ⟨after, -⟩ := taken
    have below := (nested_of_run prior).resting
    rw [top] at below
    rw [← after, begun]
    refine ⟨⟨rfl, fun frame member => ?_⟩, fun c member late => ?_⟩
    · rcases List.mem_cons.mp member with rfl | old
      · simp [Frame.Late]
      · exact Frame.late_of_resting (below frame old)
    · have early := inFlight_lt before c member
      omega
  · rintro us u prior ⟨closing, late⟩ taken
    have nested := nested_of_run prior
    refine ⟨(closing.moves nested (step_cases taken)).2.1, fun c member begun => ?_⟩
    rw [← List.cons_append, ← List.append_assoc, inFlight_append] at member
    rcases mem_follow member with old | ⟨-, first⟩ | ⟨call, old, made⟩
    · exact late c old begun
    · exact Or.inl first
    · have done := Executor.scheduled u.before call
      exact Or.inr ((done.late closing.closed (late _ old begun)).1 _ made)

theorem Scheduled.pushes {call : Call} {next : Option Call} (done : Scheduled e call e' next)
    (push : e'.pushed ≠ e.pushed) : call.pc = .push := by
  cases done with
  | pushed here => exact here
  | _ => exact absurd rfl push

/-- Only a call of another thread that stands before its push pushes, once the executor
is closed. -/
theorem LateMove.pushes (moved : LateMove e act e') (push : e'.pushed ≠ e.pushed) :
    ∃ index call, act = .stepThread index ∧ e.threads[index]? = some call ∧ call.pc = .push := by
  cases moved with
  | wakeThread => exact absurd rfl push
  | @stepThread index call found =>
    exact ⟨index, call, rfl, found, (Executor.scheduled e call).pushes push⟩
  | own _ _ same => exact absurd same push

/-- When no call is running any more, the inbox that `ExecutorState::drop` has emptied is
empty exactly if no call raced at that moment; and whatever is pushed on a closed executor
is pushed by a call that began before. -/
theorem shutdown_race_iff (run : machine.Run (before ++ t :: later) e) (act : t.act = .advance) :
    (∀ rest, t.before.stack = .shutdown .clearInbox :: rest → (∀ call, ¬ e.Running call) →
      (e.inbox = [] ↔ ¬ Races t.before)) ∧
    (∀ rest, t.before.stack = .shutdown .close :: rest →
      ∀ mid (u : Transition Executor Act Event) others,
        later = mid ++ u :: others → u.after.pushed ≠ u.before.pushed →
        ∃ index began call, u.act = .stepThread index ∧
          (inFlight (before ++ t :: mid))[index]? = some (began, call) ∧
          began < before.length) := by
  refine ⟨fun rest top finished => ?_, fun rest top mid u others here push => ?_⟩
  · have quiet : ¬ Races e := fun ⟨call, member, _⟩ => finished call (Or.inl member)
    rw [← (leaves_since run act top).2, Leaves, not_or, not_not]
    exact ⟨fun empty => ⟨empty, quiet⟩, fun both => both.1⟩
  · subst here
    rw [← List.cons_append, ← List.append_assoc] at run
    obtain ⟨prior, taken, -⟩ := run.upTo.of_append
    obtain ⟨closing, late⟩ := late_calls prior act top
    have moved := (closing.moves (nested_of_run prior) (step_cases taken)).1
    obtain ⟨index, call, steps, found, standing⟩ := moved.pushes push
    rw [← inFlight_of_run prior, List.getElem?_map, Option.map_eq_some_iff] at found
    obtain ⟨⟨began, pushing⟩, found, rfl⟩ := found
    have standing : pushing.pc = .push := standing
    refine ⟨index, began, pushing, steps, found, ?_⟩
    -- a call that began later would stand before one of its tests
    by_contra later
    have early := late _ (List.mem_of_getElem? found) (Nat.not_lt.mp later)
    simp [standing] at early

/-- A call passes both tests, the executor is dropped, and the call pushes its task. -/
theorem late_push_left : ∃ before, ∃ t : Transition Executor Act Event, ∃ later e,
    machine.Run (before ++ t :: later) e ∧
    before.map Transition.act = [.spawn, .advance, .advance, .advance, .advance, .advance,
      .processTasks 1, .advance, .advance, .pollPending, .advance, .wakeThread 0, .stepThread 0,
      .stepThread 0, .dropExecutor, .advance] ∧
    t.act = .advance ∧ later.map Transition.act = [.advance, .advance, .advance, .dropReturn,
      .advance, .stepThread 0, .stepThread 0, .stepThread 0] ∧
    e.closed = true ∧ e.stack = [] ∧ e.threads = [] ∧ e.inbox = [0] := by
  obtain ⟨before, t, later, e, run, first, clears, rest, closed, idle, quiet, left⟩ :=
    Machine.exists_run_at (m := machine)
      (P := fun _ _ _ e => e.closed = true ∧ e.stack.isEmpty = true ∧ e.threads.isEmpty = true ∧
        e.inbox = [0])
      [.spawn, .advance, .advance, .advance, .advance, .advance, .processTasks 1, .advance,
        .advance, .pollPending, .advance, .wakeThread 0, .stepThread 0, .stepThread 0,
        .dropExecutor, .advance]
      .advance [.advance, .advance, .advance, .dropReturn, .advance, .stepThread 0, .stepThread 0,
        .stepThread 0] rfl (by decide)
  exact ⟨before, t, later, e, run, first, clears, rest, closed, List.isEmpty_iff.mp idle,
    List.isEmpty_iff.mp quiet, left⟩

/-- Two calls meet the shutdown: one finds `closed` set, the other its flag. -/
theorem late_calls_return : ∃ before, ∃ t : Transition Executor Act Event, ∃ later e,
    machine.Run (before ++ t :: later) e ∧
    before.map Transition.act = [.spawn, .advance, .advance, .advance, .advance, .advance,
      .wakeThread 0, .stepThread 0, .stepThread 0, .wakeThread 0, .dropExecutor, .advance] ∧
    t.act = .advance ∧ later.map Transition.act = [.stepThread 0, .advance, .stepThread 0,
      .stepThread 0, .advance, .advance, .dropReturn, .advance] ∧
    e.inbox = [] := by
  obtain ⟨before, t, later, e, run, first, clears, rest, sweeps, calm, idle, quiet⟩ :=
    Machine.exists_run_at (m := machine)
      (P := fun _ t _ e => t.before.clearing = true ∧ ¬ Races t.before ∧
        e.stack.isEmpty = true ∧ e.threads.isEmpty = true)
      [.spawn, .advance, .advance, .advance, .advance, .advance, .wakeThread 0, .stepThread 0,
        .stepThread 0, .wakeThread 0, .dropExecutor, .advance]
      .advance [.stepThread 0, .advance, .stepThread 0, .stepThread 0, .advance, .advance,
        .dropReturn, .advance] rfl (by decide)
  refine ⟨before, t, later, e, run, first, clears, rest, ?_⟩
  unfold clearing at sweeps
  split at sweeps
  next below top =>
    refine ((shutdown_race_iff run clears).1 below top ?_).mpr calm
    simp [Running, List.isEmpty_iff.mp idle, List.isEmpty_iff.mp quiet]
  next => cases sweeps

end Executor

end Eneste
