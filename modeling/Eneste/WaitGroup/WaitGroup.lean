import Eneste.Library.Machine
import Eneste.Event.Streams

/-!
# The wait group

`waitgroup.rs`: a counter of tickets, and an async function that reads a stream of the
event until the counter is zero. Its future is where it is suspended. As long as there is
one the group is mutably borrowed: nobody else calls `add` or `wait`, and it is not dropped.
-/

namespace Eneste

variable {W : Type}

/-- The future of `WaitGroup::wait`. -/
inductive Wait where
  /-- It has not been polled. -/
  | unstarted
  /-- Suspended in `next(&mut events).await`. -/
  | next (events : StreamState)
  | completed
  deriving DecidableEq

structure WaitGroup (W : Type) where
  event : Inner W Unit
  /-- The counter. -/
  tickets : Nat
  /-- The `WaitGroup` is alive. -/
  alive : Bool
  /-- The tickets that are alive, by name. -/
  live : Finset Nat
  /-- Tickets made so far: their names. -/
  created : Nat
  /-- The future that borrows the group. -/
  waiting : Option Wait

namespace WaitGroup

def new : WaitGroup W := ⟨Event.new, 0, true, ∅, 0, none⟩

inductive Op (W : Type) where
  | add
  | wait
  | poll (waker : W)
  | dropWait
  | dropTicket (ticket : Nat)
  | dropGroup
  deriving DecidableEq

inductive Res where
  | done
  | ticket (ticket : Nat)
  | polled (result : Poll Unit)
  deriving DecidableEq

def isEmpty (g : WaitGroup W) : Bool := g.tickets == 0

/-- `WaitGroup::add`. -/
def add (g : WaitGroup W) : WaitGroup W :=
  { g with
    tickets := g.tickets + 1
    live := insert g.created g.live
    created := g.created + 1 }

/-- The event is dropped with the last of the group and its tickets. -/
def release (g : WaitGroup W) : WaitGroup W :=
  if g.alive || g.live.Nonempty then g else { g with event := Event.drop g.event }

/-- `Ticket::drop`; `none` is the overflow of its subtraction. -/
def dropTicket [Usize] (ticket : Nat) (g : WaitGroup W) : Option (WaitGroup W) :=
  if g.tickets = 0 then none
  else
    some (release { g with
      tickets := g.tickets - 1
      event := Event.notify (.usize 1) g.event
      live := g.live.erase ticket })

/-- A turn of the loop in `WaitGroup::wait`, on the event and the stream. -/
def waitTurn (tickets : Nat) (waker : W) : Inner W Unit × StreamState →
    Option (LoopTurn (Inner W Unit × StreamState) (Poll Unit))
  | (event, events) =>
    -- the group is borrowed, hence alive, and so is its event
    match streamPoll true waker event events with
    | none => none
    | some (.pending, later) => some (.done .pending later)
    | some (.ready none, later) => some (.done (.ready ()) later)
    | some (.ready (some _), later) =>
      if tickets = 0 then some (.done (.ready ()) later) else some (.again later)

/-- The loop, and the drop of the stream after it. Two turns are enough: see `pollEvents_again`. -/
def pollEvents (waker : W) (g : WaitGroup W) (event : Inner W Unit) (events : StreamState) :
    Option (WaitGroup W × Poll Unit) :=
  match LoopTurn.loop (waitTurn g.tickets waker) 2 (event, events) with
  | none => none
  | some (.pending, (event, events)) =>
    some ({ g with event := event, waiting := some (.next events) }, .pending)
  | some (.ready _, (event, events)) =>
    some ({ g with event := events.drop event, waiting := some .completed }, .ready ())

/-- A poll of the future of `wait`. -/
def poll (waker : W) (g : WaitGroup W) : Option (WaitGroup W × Poll Unit) :=
  match g.waiting with
  | some .unstarted =>
    if g.isEmpty then some ({ g with waiting := some .completed }, .ready ())
    else
      let (listener, event) := g.event.listen
      g.pollEvents waker event (.listening listener)
  | some (.next events) => g.pollEvents waker g.event events
  | some .completed | none => none

/-- The future is dropped, and with it the stream it is suspended on. -/
def dropWait (g : WaitGroup W) : WaitGroup W :=
  match g.waiting with
  | some (.next events) => { g with event := events.drop g.event, waiting := none }
  | _ => { g with waiting := none }

variable [Usize]

def step (g : WaitGroup W) : Op W → Option (WaitGroup W × Res)
  | .add =>
    if g.alive ∧ g.waiting = none then some (g.add, .ticket g.created) else none
  | .wait =>
    if g.alive ∧ g.waiting = none then some ({ g with waiting := some .unstarted }, .done)
    else none
  | .poll waker =>
    match g.poll waker with
    | none => none
    | some (g, result) => some (g, .polled result)
  | .dropWait => if g.waiting.isSome then some (g.dropWait, .done) else none
  | .dropTicket ticket =>
    if ticket ∈ g.live then
      match g.dropTicket ticket with
      | none => none
      | some g => some (g, .done)
    else none
  | .dropGroup =>
    if g.alive ∧ g.waiting = none then some (release { g with alive := false }, .done) else none

def machine : Machine (WaitGroup W) (Op W) Res where
  init g := g = new
  step := step

end WaitGroup

end Eneste
