import Eneste.Library.Machine
import Eneste.Event.Streams

/-!
# The observable cell

`ObservableCell` of `cell.rs` with its handles, and the streams subscribed to it. A set
notifies the streams that listen at that moment. A stream that has yielded listens
again only when it is polled next, so that it does not see what is set in between.
-/

namespace Eneste

variable {W T : Type}

/-- An `EventStream` and its subscriber. -/
structure Observer (T : Type) where
  state : StreamState
  /-- What the subscriber got when it subscribed or right after the stream last yielded;
  no code reads it. -/
  read : T

structure ObservableCell (W T : Type) where
  value : T
  event : Inner W Unit
  /-- The first handle and those that `upgrade` makes, while they live. -/
  handles : Nat
  streams : OrderedMap Nat (Observer T)
  /-- Streams made so far: their names. -/
  created : Nat

namespace ObservableCell

/-- `ObservableCell::new`. -/
def new (value : T) : ObservableCell W T := ⟨value, Event.new, 1, OrderedMap.empty, 0⟩

def get (c : ObservableCell W T) : T := c.value

inductive Op (W T : Type) where
  | set (value : T)
  | subscribe
  | pollNext (stream : Nat) (waker : W)
  | dropStream (stream : Nat)
  /-- `WeakObservableCell::upgrade`. -/
  | upgrade
  | dropHandle
  deriving DecidableEq

inductive Res where
  | done
  | subscribed (stream : Nat)
  | polled (result : Poll (Option Unit))
  deriving DecidableEq

/-- `ObservableCell::set`. -/
def set [BEq T] [Usize] (value : T) (c : ObservableCell W T) : ObservableCell W T :=
  if c.get != value then
    { c with value := value, event := Event.notify (.usize Usize.max) c.event }
  else c

/-- `ObservableCell::subscribe`, and the subscriber's first `get`. -/
def subscribe (c : ObservableCell W T) : ObservableCell W T :=
  let (listener, event) := c.event.listen
  { c with
    event := event
    streams := c.streams.insert c.created ⟨.listening listener, c.get⟩
    created := c.created + 1 }

/-- The streams hold weak references to the event's `Inner`. Strong ones are held by the
event itself and by every listener. -/
def alive (c : ObservableCell W T) : Bool := 0 < c.handles || 0 < c.event.listeners.size

/-- The subscriber calls `get` whenever its stream yields. -/
def readAfter (c : ObservableCell W T) (s : Observer T) : Poll (Option Unit) → T
  | .ready (some ()) => c.get
  | _ => s.read

/-- `EventStream::poll_next`. -/
def pollNext (stream : Nat) (waker : W) (c : ObservableCell W T) :
    Option (ObservableCell W T × Res) :=
  match c.streams.get? stream with
  | none => none
  | some s =>
    match streamPoll c.alive waker c.event s.state with
    | none => none
    | some (result, (event, state)) =>
      some ({ c with
        event := event
        streams := c.streams.insert stream ⟨state, c.readAfter s result⟩ }, .polled result)

def dropStream (stream : Nat) (c : ObservableCell W T) : Option (ObservableCell W T × Res) :=
  match c.streams.get? stream with
  | none => none
  | some s =>
    some ({ c with event := s.state.drop c.event, streams := c.streams.erase stream }, .done)

/-- Drop a handle. The last one takes the event along. -/
def dropHandle (c : ObservableCell W T) : ObservableCell W T :=
  if c.handles = 1 then { c with handles := 0, event := Event.drop c.event }
  else { c with handles := c.handles - 1 }

/-- One call on a handle or on a stream. -/
def step [BEq T] [Usize] (c : ObservableCell W T) : Op W T → Option (ObservableCell W T × Res)
  | .set value => if c.handles = 0 then none else some (c.set value, .done)
  | .subscribe => if c.handles = 0 then none else some (c.subscribe, .subscribed c.created)
  | .pollNext stream waker => c.pollNext stream waker
  | .dropStream stream => c.dropStream stream
  | .upgrade => if c.handles = 0 then none else some ({ c with handles := c.handles + 1 }, .done)
  | .dropHandle => if c.handles = 0 then none else some (c.dropHandle, .done)

def machine [BEq T] [Usize] (value : T) : Machine (ObservableCell W T) (Op W T) Res where
  init c := c = new value
  step := step

end ObservableCell

end Eneste
