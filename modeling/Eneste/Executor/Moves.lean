import Eneste.Executor.Executor

/-!
# What a step of the executor can do

`Moves` lists the steps with their conditions and the states they lead to. The
invariants are proved by cases on it, without unfolding `Executor.step`.
-/

namespace Eneste.Executor

open Header

/-- `fetch_or(QUEUED)`. -/
def enqueue (e : Executor) (id : Nat) : Executor :=
  { e with headers := Function.update e.headers id (e.headers id ||| queued) }

/-- What one operation of `schedule` can do: the state, and the call unless it returns. -/
inductive Scheduled (e : Executor) (call : Call) : Executor → Option Call → Prop
  | finished (here : call.pc = .loadState) (isOver : e.finished call.id = true) :
      Scheduled e call (e.logCall call) none
  | loaded (here : call.pc = .loadState) (unfinished : e.finished call.id = false) :
      Scheduled e call e (some { call with pc := .loadClosed })
  | closed (here : call.pc = .loadClosed) (closed : e.closed = true) :
      Scheduled e call (e.logCall call) none
  | opened (here : call.pc = .loadClosed) (opened : e.closed = false) :
      Scheduled e call e (some { call with pc := .fetchOr })
  | already (here : call.pc = .fetchOr) (set : e.isQueued call.id = true) :
      Scheduled e call ((e.enqueue call.id).logCall call) none
  | won (here : call.pc = .fetchOr) (clear : e.isQueued call.id = false) :
      Scheduled e call (e.enqueue call.id) (some { call with pc := .push })
  | pushed (here : call.pc = .push) :
      Scheduled e call { e with inbox := e.inbox ++ [call.id], pushed := e.pushed + 1 }
        (some { call with pc := .notify })
  | notified (here : call.pc = .notify) :
      Scheduled e call ({ e with notified := e.notified + 1 }.logCall call) none

theorem scheduled (e : Executor) (call : Call) :
    Scheduled e call (e.scheduleStep call).1 (e.scheduleStep call).2 := by
  unfold scheduleStep
  cases here : call.pc with
  | loadState =>
    cases isOver : e.finished call.id with
    | true => exact .finished here isOver
    | false => exact .loaded here isOver
  | loadClosed =>
    cases closed : e.closed with
    | true => exact .closed here closed
    | false => exact .opened here closed
  | fetchOr =>
    cases set : e.isQueued call.id with
    | true =>
      have found : Header.isQueued (e.headers call.id) = true := set
      simp only [found, ite_true]
      exact .already here set
    | false =>
      have found : Header.isQueued (e.headers call.id) = false := set
      simp only [found, Bool.false_eq_true, ite_false]
      exact .won here set
  | push => exact .pushed here
  | notify => exact .notified here

/-- The first effects of `ExcutorTask::drop`. -/
def cancelHandle (e : Executor) (id : Nat) : Executor :=
  { e with
    handles := e.handles.erase id
    released := Function.update e.released id true
    headers := Function.update e.headers id (e.headers id ||| canceled) }

/-- The entry of the task is taken off the batch and its flag cleared. -/
def dequeue (e : Executor) (id : Nat) (batch : List Nat) (rest : List Frame) : Executor :=
  { e with
    headers := Function.update e.headers id (e.headers id &&& ~~~queued)
    stack := .process false batch :: rest }

section

variable (e : Executor) (id j : Nat)

@[simp] theorem finished_enqueue : (e.enqueue id).finished j = e.finished j := by
  by_cases same : j = id <;> simp [finished, enqueue, same]

theorem isQueued_enqueue : (e.enqueue id).isQueued j = if j = id then true else e.isQueued j := by
  by_cases same : j = id <;> simp [isQueued, enqueue, same]

@[simp] theorem finished_cancelHandle :
    (e.cancelHandle id).finished j = if j = id then true else e.finished j := by
  by_cases same : j = id <;> simp [finished, cancelHandle, same]

@[simp] theorem isQueued_cancelHandle : (e.cancelHandle id).isQueued j = e.isQueued j := by
  by_cases same : j = id <;> simp [isQueued, cancelHandle, same]

variable (batch : List Nat) (rest : List Frame)

@[simp] theorem finished_dequeue : (e.dequeue id batch rest).finished j = e.finished j := by
  by_cases same : j = id <;> simp [finished, dequeue, same]

theorem isQueued_dequeue :
    (e.dequeue id batch rest).isQueued j = if j = id then false else e.isQueued j := by
  by_cases same : j = id <;> simp [isQueued, dequeue, same]

end

/-- What an operation of `schedule` leaves alone. -/
structure Untouched (e e' : Executor) : Prop where
  closed : e'.closed = e.closed
  nextId : e'.nextId = e.nextId
  slots : e'.slots = e.slots
  executors : e'.executors = e.executors
  handles : e'.handles = e.handles
  threads : e'.threads = e.threads
  stack : e'.stack = e.stack
  polls : e'.polls = e.polls
  returned : e'.returned = e.returned
  released : e'.released = e.released
  drops : e'.drops = e.drops
  lost : e'.lost = e.lost
  finished : ∀ id, e'.finished id = e.finished id

theorem Scheduled.untouched {e e' : Executor} {call : Call} {next : Option Call}
    (done : Scheduled e call e' next) : Untouched e e' := by
  cases done <;> exact ⟨rfl, rfl, rfl, rfl, rfl, rfl, rfl, rfl, rfl, rfl, rfl, rfl,
    fun id => by first | rfl | exact e.finished_enqueue _ id⟩

theorem Scheduled.same_task {e e' : Executor} {call next : Call}
    (done : Scheduled e call e' (some next)) : next.id = call.id ∧ next.start = call.start := by
  cases done <;> exact ⟨rfl, rfl⟩

inductive Moves (e : Executor) : Act → Executor → Event → Prop
  | wakeThread {id} (known : id < e.nextId) :
      Moves e (.wakeThread id)
        { e with threads := ⟨id, .loadState, e.polls id⟩ :: e.threads } .quiet
  | stepThread {index call} (found : e.threads[index]? = some call) :
      Moves e (.stepThread index)
        { (e.scheduleStep call).1 with
          threads := (e.scheduleStep call).2.toList ++ e.threads.eraseIdx index } .quiet
  | spawn (user : e.userMode = true) (alive : e.executors ≠ 0) :
      Moves e .spawn { e.spawn with handles := e.nextId :: e.handles } .quiet
  | wake {id} (user : e.userMode = true) (known : id < e.nextId) :
      Moves e (.wake id)
        { e with stack := .schedule ⟨id, .loadState, e.polls id⟩ :: e.stack } .quiet
  | dropFinished {id} (user : e.userMode = true) (held : id ∈ e.handles)
      (idle : e.finished id = true ∨ strong e.executors e.stack = 0) :
      Moves e (.dropHandle id) (e.cancelHandle id) .quiet
  | dropPolled {id} (user : e.userMode = true) (held : id ∈ e.handles)
      (unfinished : e.finished id = false) (upgraded : strong e.executors e.stack ≠ 0)
      (taken : e.slots.get? id ≠ some true) :
      Moves e (.dropHandle id) { e.cancelHandle id with slots := e.slots.erase id } .quiet
  | dropPending {id} (user : e.userMode = true) (held : id ∈ e.handles)
      (unfinished : e.finished id = false) (upgraded : strong e.executors e.stack ≠ 0)
      (present : e.slots.get? id = some true) :
      Moves e (.dropHandle id)
        ({ e.cancelHandle id with slots := e.slots.erase id }.dropFuture id .handle) (.dropped id)
  | detach {id} (user : e.userMode = true) (held : id ∈ e.handles) :
      Moves e (.detach id) { e with handles := e.handles.erase id } .quiet
  | processTasks {count} (user : e.userMode = true) (alive : e.executors ≠ 0) :
      Moves e (.processTasks count)
        { e with
          inbox := e.inbox.drop (min count e.inbox.length)
          stack := .process false (e.inbox.take (min count e.inbox.length)) :: e.stack } .quiet
  | blockOn (user : e.userMode = true) (alive : e.executors ≠ 0) :
      Moves e .blockOn { e with stack := .blockOn e.nextId false :: e.stack }.spawn .quiet
  | cloneExecutor (user : e.userMode = true) (alive : e.executors ≠ 0) :
      Moves e .cloneExecutor { e with executors := e.executors + 1 } .quiet
  | dropExecutor (user : e.userMode = true) (alive : e.executors ≠ 0)
      (free : e.executors ≠ 1 ∨ ∀ frame ∈ e.stack, frame.borrows = false) :
      Moves e .dropExecutor (e.release (e.executors - 1) e.stack) .quiet
  | pollReady {id rest} (top : e.stack = .poll id :: rest) :
      Moves e .pollReady
        ({ e with
          headers := Function.update e.headers id (e.headers id ||| completed)
          slots := e.slots.erase id
          returned := Function.update e.returned id true
          stack := rest }.dropFuture id .completed) (.dropped id)
  | pollPending {id rest slot} (top : e.stack = .poll id :: rest)
      (present : e.slots.get? id = some slot) (unfinished : e.finished id = false) :
      Moves e .pollPending { e with slots := e.slots.insert id true, stack := rest } .quiet
  | pollCanceled {id rest} (top : e.stack = .poll id :: rest)
      (gone : e.slots.get? id = none ∨ e.finished id = true) :
      Moves e .pollPending ({ e with stack := rest }.dropFuture id .leftover) (.dropped id)
  | pollPanic {id checked batch rest}
      (top : e.stack = .poll id :: .process checked batch :: rest) :
      Moves e .pollPanic
        ({ e with stack := .process checked batch :: rest }.dropFuture id .unwound) (.dropped id)
  | unwinds {id checked batch rest}
      (top : e.stack = .dropFuture id .unwound :: .process checked batch :: rest) :
      Moves e .dropReturn { e with lost := e.lost ++ batch, stack := unwind rest } .quiet
  | dropReturn {id site rest} (top : e.stack = .dropFuture id site :: rest)
      (other : site ≠ .handle)
      (plain : site = .unwound → ∀ checked batch more, rest ≠ .process checked batch :: more) :
      Moves e .dropReturn { e with stack := rest } .quiet
  | dropHandleReturn {id rest} (top : e.stack = .dropFuture id .handle :: rest) :
      Moves e .dropReturn (e.release e.executors rest) .quiet
  | schedule {call rest} (top : e.stack = .schedule call :: rest) :
      Moves e .advance
        { (e.scheduleStep call).1 with
          stack := ((e.scheduleStep call).2.map Frame.schedule).toList ++ rest } .quiet
  | processed {rest} (top : e.stack = .process false [] :: rest) :
      Moves e .advance { e with stack := rest } .quiet
  | skip {id batch rest} (top : e.stack = .process false (id :: batch) :: rest)
      (isOver : e.finished id = true) :
      Moves e .advance { e with stack := .process false batch :: rest } .quiet
  | check {id batch rest} (top : e.stack = .process false (id :: batch) :: rest)
      (unfinished : e.finished id = false) :
      Moves e .advance { e with stack := .process true (id :: batch) :: rest } .quiet
  | run {id batch rest} (top : e.stack = .process true (id :: batch) :: rest)
      (present : e.slots.get? id = some true) :
      Moves e .advance
        { e.dequeue id batch rest with
          slots := e.slots.insert id false
          polls := Function.update e.polls id (e.polls id + 1)
          stack := .poll id :: .process false batch :: rest } (.began id)
  | stale {id batch rest} (top : e.stack = .process true (id :: batch) :: rest)
      (absent : e.slots.get? id ≠ some true) :
      Moves e .advance (e.dequeue id batch rest) .quiet
  | blockedOn {id rest} (top : e.stack = .blockOn id false :: rest) (dry : e.inbox = [])
      (ready : e.returned id = true) : Moves e .advance { e with stack := rest } .quiet
  | deadlock {id rest} (top : e.stack = .blockOn id false :: rest) (dry : e.inbox = [])
      (pending : e.returned id = false) :
      Moves e .advance { e with stack := rest } (.deadlock id)
  | hasTasks {id rest} (top : e.stack = .blockOn id false :: rest) (more : e.inbox ≠ []) :
      Moves e .advance { e with stack := .blockOn id true :: rest } .quiet
  | drain {id rest} (top : e.stack = .blockOn id true :: rest) :
      Moves e .advance
        { e with inbox := [], stack := .process false e.inbox :: .blockOn id false :: rest } .quiet
  | close {rest} (top : e.stack = .shutdown .close :: rest) :
      Moves e .advance
        { e with closed := true, stack := .shutdown .clearInbox :: rest } .quiet
  | clearInbox {rest} (top : e.stack = .shutdown .clearInbox :: rest) :
      Moves e .advance
        { e with
          inbox := []
          slots := OrderedMap.empty
          stack := .shutdown (.cancel e.slots.keys (e.slots.keysWith id)) :: rest } .quiet
  | cancel {task others futures rest}
      (top : e.stack = .shutdown (.cancel (task :: others) futures) :: rest) :
      Moves e .advance
        { e with
          headers := Function.update e.headers task (e.headers task ||| canceled)
          stack := .shutdown (.cancel others futures) :: rest } .quiet
  | canceledAll {futures rest} (top : e.stack = .shutdown (.cancel [] futures) :: rest) :
      Moves e .advance { e with stack := .shutdown (.dropSlots futures) :: rest } .quiet
  | dropSlot {task others rest}
      (top : e.stack = .shutdown (.dropSlots (task :: others)) :: rest) :
      Moves e .advance
        ({ e with stack := .shutdown (.dropSlots others) :: rest }.dropFuture task .shutdown)
        (.dropped task)
  | shutDown {rest} (top : e.stack = .shutdown (.dropSlots []) :: rest) :
      Moves e .advance { e with stack := rest } .quiet

private theorem advance_cases {e e' : Executor} {ev : Event}
    (taken : e.advance = some (e', ev)) : Moves e .advance e' ev := by
  unfold advance at taken
  split at taken
  next call rest top =>
    have moved := Moves.schedule top
    cases next : (e.scheduleStep call).2 with
    | some call' =>
      simp only [next, Option.some.injEq, Prod.mk.injEq] at taken
      obtain ⟨rfl, rfl⟩ := taken
      simpa [next] using moved
    | none =>
      simp only [next, Option.some.injEq, Prod.mk.injEq] at taken
      obtain ⟨rfl, rfl⟩ := taken
      simpa [next] using moved
  next rest top =>
    cases taken
    exact .processed top
  next id batch rest top =>
    split at taken
    next isOver =>
      cases taken
      exact .skip top isOver
    next unfinished =>
      cases taken
      exact .check top (by simpa using unfinished)
  next id batch rest top =>
    unfold run at taken
    dsimp only at taken
    split at taken
    next present =>
      cases taken
      exact .run top present
    next absent =>
      cases taken
      exact .stale top absent
  next id rest top =>
    split at taken
    next dry =>
      cases ready : e.returned id with
      | true =>
        simp only [ready, ite_true, Option.some.injEq, Prod.mk.injEq] at taken
        obtain ⟨rfl, rfl⟩ := taken
        exact .blockedOn top dry ready
      | false =>
        simp only [ready, Bool.false_eq_true, ite_false, Option.some.injEq,
          Prod.mk.injEq] at taken
        obtain ⟨rfl, rfl⟩ := taken
        exact .deadlock top dry ready
    next more =>
      cases taken
      exact .hasTasks top more
  next id rest top =>
    cases taken
    exact .drain top
  next stage rest top =>
    unfold shutdownStep at taken
    split at taken
    · cases taken
      exact .close top
    · cases taken
      exact .clearInbox top
    · cases taken
      exact .cancel top
    · cases taken
      exact .canceledAll top
    · cases taken
      exact .dropSlot top
    · cases taken
      exact .shutDown top
  next => cases taken

private theorem dropHandle_cases {e : Executor} {id : Nat} (user : e.userMode = true)
    (held : id ∈ e.handles) : Moves e (.dropHandle id) (e.dropHandle id).1 (e.dropHandle id).2 := by
  unfold dropHandle
  dsimp only
  split
  next isOver => exact .dropFinished user held (Or.inl isOver)
  next unfinished =>
    have unfinished : e.finished id = false := by simpa [finished] using unfinished
    split
    -- the `Weak` cannot be upgraded
    next gone => exact .dropFinished user held (Or.inr gone)
    next upgraded =>
      split
      next present => exact .dropPending user held unfinished upgraded present
      next taken => exact .dropPolled user held unfinished upgraded taken

/-- Every step is one of the moves. -/
theorem step_cases {e e' : Executor} {act : Act} {ev : Event}
    (taken : e.step act = some (e', ev)) : Moves e act e' ev := by
  cases act with
  | advance => exact advance_cases taken
  | wakeThread id =>
    simp only [step] at taken
    split at taken
    next known =>
      cases taken
      exact .wakeThread known
    next => cases taken
  | stepThread index =>
    simp only [step] at taken
    split at taken
    · cases taken
    next call found =>
      cases taken
      exact .stepThread found
  | spawn =>
    simp only [step, Bool.and_eq_true, bne_iff_ne] at taken
    split at taken
    next legal =>
      cases taken
      exact .spawn legal.1 legal.2
    next => cases taken
  | wake id =>
    simp only [step, Bool.and_eq_true, decide_eq_true_eq] at taken
    split at taken
    next legal =>
      cases taken
      exact .wake legal.1 legal.2
    next => cases taken
  | dropHandle id =>
    simp only [step, Bool.and_eq_true, decide_eq_true_eq] at taken
    split at taken
    next legal =>
      have moved := dropHandle_cases legal.1 legal.2
      rw [Option.some.injEq] at taken
      rwa [taken] at moved
    next => cases taken
  | detach id =>
    simp only [step, Bool.and_eq_true, decide_eq_true_eq] at taken
    split at taken
    next legal =>
      cases taken
      exact .detach legal.1 legal.2
    next => cases taken
  | processTasks count =>
    simp only [step, Bool.and_eq_true, bne_iff_ne] at taken
    split at taken
    next legal =>
      cases taken
      exact .processTasks legal.1 legal.2
    next => cases taken
  | blockOn =>
    simp only [step, Bool.and_eq_true, bne_iff_ne] at taken
    split at taken
    next legal =>
      cases taken
      exact .blockOn legal.1 legal.2
    next => cases taken
  | cloneExecutor =>
    simp only [step, Bool.and_eq_true, bne_iff_ne] at taken
    split at taken
    next legal =>
      cases taken
      exact .cloneExecutor legal.1 legal.2
    next => cases taken
  | dropExecutor =>
    simp only [step, Bool.and_eq_true, Bool.or_eq_true, bne_iff_ne, Bool.not_eq_true',
      List.any_eq_false] at taken
    split at taken
    next legal =>
      cases taken
      exact .dropExecutor legal.1.1 legal.1.2 (legal.2.imp_right fun free frame member => by
        simpa using free frame member)
    next => cases taken
  | pollReady =>
    simp only [step] at taken
    split at taken
    next id rest top =>
      cases taken
      exact .pollReady top
    next => cases taken
  | pollPending =>
    simp only [step, Bool.and_eq_true, Bool.not_eq_true'] at taken
    split at taken
    next id rest top =>
      split at taken
      next kept =>
        obtain ⟨slot, present⟩ := Option.isSome_iff_exists.mp kept.1
        cases taken
        exact .pollPending top present kept.2
      next gone =>
        cases taken
        refine .pollCanceled top ?_
        cases present : e.slots.get? id with
        | none => exact Or.inl rfl
        | some slot => exact Or.inr (by simpa [present] using gone)
    next => cases taken
  | pollPanic =>
    simp only [step] at taken
    split at taken
    next id checked batch rest top =>
      cases taken
      exact .pollPanic top
    next => cases taken
  | dropReturn =>
    simp only [step] at taken
    split at taken
    next id rest top =>
      cases taken
      exact .dropHandleReturn top
    next id checked batch rest top =>
      cases taken
      exact .unwinds top
    next id site rest other plain top =>
      cases taken
      exact .dropReturn top other fun unwound checked batch more below =>
        plain checked batch more below unwound
    next => cases taken

end Eneste.Executor
