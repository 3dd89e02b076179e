import Eneste.Library.Machine
import Eneste.Library.OrderedMap
import Eneste.Executor.Header

/-!
# The executor

`executor.rs`, one atomic operation or inbox critical section at a time. Other
threads run `Header::schedule`. The executor's own thread runs user code at the top
of a stack of calls: futures being polled, destructors, and what they called.
Everything on that thread between two atomic operations is one step.
-/

namespace Eneste

open Header

/-- The next operation of a call of `Header::schedule`. -/
inductive SchedulePc where
  | loadState
  | loadClosed
  | fetchOr
  | push
  | notify
  deriving DecidableEq

/-- A call of `Header::schedule` that has not returned. -/
structure Call where
  id : Nat
  pc : SchedulePc
  /-- How often the task had been polled when the call began. -/
  start : Nat

/-- Why a future is dropped. -/
inductive DropSite where
  | handle
  | completed
  | leftover
  | shutdown
  | unwound
  deriving DecidableEq

/-- The stages of `ExecutorState::drop`; `futures` are those in the slots it has taken. -/
inductive Shutdown where
  | close
  | clearInbox
  | cancel (rest futures : List Nat)
  | dropSlots (futures : List Nat)

/-- What runs on the executor's thread, innermost first. -/
inductive Frame where
  | schedule (call : Call)
  /-- `process_tasks` with the entries not yet run. `checked` is set between `is_finished`
  and `fetch_and` in the `run` of the first of them. -/
  | process (checked : Bool) (batch : List Nat)
  /-- User code: the future of the task is being polled. -/
  | poll (id : Nat)
  /-- User code: the future of the task is being dropped. -/
  | dropFuture (id : Nat) (site : DropSite)
  /-- The loop of `block_on`; `checked` is set between `has_tasks` and `process_tasks`. -/
  | blockOn (id : Nat) (checked : Bool)
  | shutdown (stage : Shutdown)

/-- `process_tasks` and `block_on` borrow an `Executor`. -/
def Frame.borrows : Frame → Bool
  | .process _ _ | .blockOn _ _ => true
  | _ => false

/-- An `ExcutorTask::drop` that has upgraded its `Weak` and is dropping the future. -/
def Frame.upgrades : Frame → Bool
  | .dropFuture _ .handle => true
  | _ => false

structure Executor where
  /-- `Header::state` of every task. -/
  headers : Nat → Flags
  nextId : Nat
  /-- The slots, with whether they hold the future. -/
  slots : OrderedMap Nat Bool
  inbox : List Nat
  closed : Bool
  /-- Live `Executor` values. -/
  executors : Nat
  /-- Live `ExcutorTask` handles that were not detached. -/
  handles : List Nat
  /-- Calls of `schedule` on other threads, in no particular order. -/
  threads : List Call
  stack : List Frame
  -- the rest is history
  /-- How many polls of the task have begun. -/
  polls : Nat → Nat
  /-- Whether a poll of the task has returned `Ready`. -/
  returned : Nat → Bool
  /-- Whether the handle of the task has been dropped without being detached. -/
  released : Nat → Bool
  /-- How often the future of the task has been dropped. -/
  drops : Nat → Nat
  /-- The calls of `schedule` that have returned: the task, and its polls when they began. -/
  calls : List (Nat × Nat)
  /-- Entries that an unwinding `process_tasks` dropped. -/
  lost : List Nat
  /-- Entries pushed to the inbox. -/
  pushed : Nat
  /-- Calls of the notifier. -/
  notified : Nat

namespace Executor

/-- `Executor::new`. -/
def new : Executor where
  headers _ := 0
  nextId := 0
  slots := OrderedMap.empty
  inbox := []
  closed := false
  executors := 1
  handles := []
  threads := []
  stack := []
  polls _ := 0
  returned _ := false
  released _ := false
  drops _ := 0
  calls := []
  lost := []
  pushed := 0
  notified := 0

inductive Act where
  /-- Another thread wakes a task. -/
  | wakeThread (id : Nat)
  | stepThread (index : Nat)
  -- calls made by user code
  | spawn
  | wake (id : Nat)
  | dropHandle (id : Nat)
  | detach (id : Nat)
  | processTasks (count : Nat)
  | blockOn
  | cloneExecutor
  | dropExecutor
  -- ways for user code to return
  | pollReady
  | pollPending
  | pollPanic
  | dropReturn
  /-- The innermost call goes on. -/
  | advance

/-- What happens in a step, as far as the theorems speak of it. -/
inductive Event where
  | quiet
  /-- A poll of the task begins. -/
  | began (id : Nat)
  /-- The future of the task is dropped. -/
  | dropped (id : Nat)
  /-- `block_on` panics. -/
  | deadlock (id : Nat)
  deriving DecidableEq

variable (e : Executor)

def finished (id : Nat) : Bool := isFinished (e.headers id)

def isQueued (id : Nat) : Bool := Header.isQueued (e.headers id)

/-- User code is running on the executor's thread. -/
def userMode : Bool :=
  match e.stack with
  | [] | .poll _ :: _ | .dropFuture _ _ :: _ => true
  | _ => false

/-- Strong references to the state. -/
def strong (executors : Nat) (stack : List Frame) : Nat :=
  executors + stack.countP Frame.upgrades

/-- A call of `schedule` returns. -/
def logCall (call : Call) : Executor := { e with calls := e.calls ++ [(call.id, call.start)] }

/-- One operation of `Header::schedule`: the state, and the call unless it returns. -/
def scheduleStep (call : Call) : Executor × Option Call :=
  match call.pc with
  | .loadState =>
    if e.finished call.id then (e.logCall call, none) else (e, some { call with pc := .loadClosed })
  | .loadClosed =>
    if e.closed then (e.logCall call, none) else (e, some { call with pc := .fetchOr })
  | .fetchOr =>
    let old := e.headers call.id
    let e := { e with headers := Function.update e.headers call.id (old ||| queued) }
    if Header.isQueued old then (e.logCall call, none) else (e, some { call with pc := .push })
  | .push =>
    ({ e with inbox := e.inbox ++ [call.id], pushed := e.pushed + 1 },
      some { call with pc := .notify })
  | .notify => ({ e with notified := e.notified + 1 }.logCall call, none)

/-- `Executor::spawn` as far as its call of `schedule`. -/
def spawn : Executor :=
  { e with
    nextId := e.nextId + 1
    headers := Function.update e.headers e.nextId 0
    slots := e.slots.insert e.nextId true
    stack := .schedule ⟨e.nextId, .loadState, e.polls e.nextId⟩ :: e.stack }

/-- The future of the task is dropped: its destructor is user code. -/
def dropFuture (id : Nat) (site : DropSite) : Executor :=
  { e with
    drops := Function.update e.drops id (e.drops id + 1)
    stack := .dropFuture id site :: e.stack }

/-- `ExcutorTask::drop`. -/
def dropHandle (id : Nat) : Executor × Event :=
  let old := e.headers id
  let e := { e with
    handles := e.handles.erase id
    released := Function.update e.released id true
    headers := Function.update e.headers id (old ||| canceled) }
  if isFinished old then (e, .quiet)
  else if strong e.executors e.stack = 0 then (e, .quiet) -- no upgrade
  else
    let slot := e.slots.get? id
    let e := { e with slots := e.slots.erase id }
    if slot = some true then (e.dropFuture id .handle, .dropped id) else (e, .quiet)

/-- The rest of `Executor::run` once the flags are known not to say finished. -/
def run (id : Nat) (batch : List Nat) (rest : List Frame) : Executor × Event :=
  let e := { e with
    headers := Function.update e.headers id (e.headers id &&& ~~~queued)
    stack := .process false batch :: rest }
  if e.slots.get? id = some true then
    ({ e with
      slots := e.slots.insert id false
      polls := Function.update e.polls id (e.polls id + 1)
      stack := .poll id :: e.stack }, .began id)
  else (e, .quiet)

/-- `ExecutorState::drop`. -/
def shutdownStep (rest : List Frame) : Shutdown → Executor × Event
  | .close => ({ e with closed := true, stack := .shutdown .clearInbox :: rest }, .quiet)
  | .clearInbox =>
    ({ e with
      inbox := []
      slots := OrderedMap.empty
      stack := .shutdown (.cancel e.slots.keys (e.slots.keysWith id)) :: rest }, .quiet)
  | .cancel (task :: others) futures =>
    ({ e with
      headers := Function.update e.headers task (e.headers task ||| canceled)
      stack := .shutdown (.cancel others futures) :: rest }, .quiet)
  | .cancel [] futures => ({ e with stack := .shutdown (.dropSlots futures) :: rest }, .quiet)
  | .dropSlots (task :: others) =>
    ({ e with stack := .shutdown (.dropSlots others) :: rest }.dropFuture task .shutdown,
      .dropped task)
  | .dropSlots [] => ({ e with stack := rest }, .quiet)

/-- The last strong reference is gone: `ExecutorState::drop` begins. -/
def release (executors : Nat) (stack : List Frame) : Executor :=
  { e with
    executors := executors
    stack := if strong executors stack = 0 then .shutdown .close :: stack else stack }

/-- The innermost call goes on. -/
def advance : Option (Executor × Event) :=
  match e.stack with
  | .schedule call :: rest =>
    let (e, next) := e.scheduleStep call
    match next with
    | some call => some ({ e with stack := .schedule call :: rest }, .quiet)
    | none => some ({ e with stack := rest }, .quiet)
  | .process false [] :: rest => some ({ e with stack := rest }, .quiet)
  | .process false (id :: batch) :: rest =>
    if e.finished id then some ({ e with stack := .process false batch :: rest }, .quiet)
    else some ({ e with stack := .process true (id :: batch) :: rest }, .quiet)
  | .process true (id :: batch) :: rest => some (e.run id batch rest)
  | .blockOn id false :: rest =>
    if e.inbox = [] then
      -- the wrapper stores the output in the poll that returns `Ready`
      some ({ e with stack := rest }, if e.returned id then .quiet else .deadlock id)
    else some ({ e with stack := .blockOn id true :: rest }, .quiet)
  | .blockOn id true :: rest =>
    some ({ e with inbox := [], stack := .process false e.inbox :: .blockOn id false :: rest },
      .quiet)
  | .shutdown stage :: rest => some (e.shutdownStep rest stage)
  | _ => none

/-- What an unwinding `process_tasks` leaves: `block_on` unwinds with it. -/
def unwind : List Frame → List Frame
  | .blockOn _ _ :: rest => rest
  | stack => stack

def step : Act → Option (Executor × Event)
  | .wakeThread id =>
    if id < e.nextId then
      some ({ e with threads := ⟨id, .loadState, e.polls id⟩ :: e.threads }, .quiet)
    else none
  | .stepThread index =>
    match e.threads[index]? with
    | none => none
    | some call =>
      let (e', next) := e.scheduleStep call
      some ({ e' with threads := next.toList ++ e.threads.eraseIdx index }, .quiet)
  | .spawn =>
    if e.userMode && e.executors != 0 then
      some ({ e.spawn with handles := e.nextId :: e.handles }, .quiet)
    else none
  | .wake id =>
    if e.userMode && id < e.nextId then
      some ({ e with stack := .schedule ⟨id, .loadState, e.polls id⟩ :: e.stack }, .quiet)
    else none
  | .dropHandle id => if e.userMode && id ∈ e.handles then some (e.dropHandle id) else none
  | .detach id =>
    if e.userMode && id ∈ e.handles then some ({ e with handles := e.handles.erase id }, .quiet)
    else none
  | .processTasks count =>
    if e.userMode && e.executors != 0 then
      let count := min count e.inbox.length
      some ({ e with
        inbox := e.inbox.drop count
        stack := .process false (e.inbox.take count) :: e.stack }, .quiet)
    else none
  | .blockOn =>
    if e.userMode && e.executors != 0 then
      -- the task is detached: there is no handle
      some ({ e with stack := .blockOn e.nextId false :: e.stack }.spawn, .quiet)
    else none
  | .cloneExecutor =>
    if e.userMode && e.executors != 0 then some ({ e with executors := e.executors + 1 }, .quiet)
    else none
  | .dropExecutor =>
    if e.userMode && e.executors != 0 && (e.executors != 1 || !e.stack.any Frame.borrows) then
      some (e.release (e.executors - 1) e.stack, .quiet)
    else none
  | .pollReady =>
    match e.stack with
    | .poll id :: rest =>
      some ({ e with
        headers := Function.update e.headers id (e.headers id ||| completed)
        slots := e.slots.erase id
        returned := Function.update e.returned id true
        stack := rest }.dropFuture id .completed, .dropped id)
    | _ => none
  | .pollPending =>
    match e.stack with
    | .poll id :: rest =>
      if (e.slots.get? id).isSome && !e.finished id then
        some ({ e with slots := e.slots.insert id true, stack := rest }, .quiet)
      else some ({ e with stack := rest }.dropFuture id .leftover, .dropped id)
    | _ => none
  | .pollPanic =>
    match e.stack with
    | .poll id :: .process checked batch :: rest =>
      -- `run` unwinds first, and its future with it; the batch is that of its caller
      some ({ e with stack := .process checked batch :: rest }.dropFuture id .unwound,
        .dropped id)
    | _ => none
  | .dropReturn =>
    match e.stack with
    | .dropFuture _ .handle :: rest => some (e.release e.executors rest, .quiet)
    | .dropFuture _ .unwound :: .process _ batch :: rest =>
      -- unwinding has left `run` and goes on with `process_tasks`
      some ({ e with lost := e.lost ++ batch, stack := unwind rest }, .quiet)
    | .dropFuture _ _ :: rest => some ({ e with stack := rest }, .quiet)
    | _ => none
  | .advance => e.advance

def machine : Machine Executor Act Event where
  init e := e = new
  step := step

end Executor

end Eneste
