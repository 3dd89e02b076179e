import Eneste.Library.Machine
import Eneste.Event.Stream

/-!
# The emitter

`emitter.rs`: an `Emitter` and the `EmitterStream`s subscribed to it. Emissions are
numbered, and each stream carries when it subscribed and what it has yielded; these
are histories that no code reads.
-/

namespace Eneste

variable {W T : Type}

/-- An emitted value. The event broadcasts it with its place among all emissions. -/
structure Emission (T : Type) where
  number : Nat
  value : T
  deriving DecidableEq

/-- An `EmitterStream`. -/
structure Subscriber (T : Type) where
  state : StreamState
  /-- How many emissions had been made when it subscribed. -/
  since : Nat
  /-- What it has yielded. -/
  received : List (Emission T)

structure Emitter (W T : Type) where
  event : Inner W (Emission T)
  /-- The streams hold a weak reference to the event, the `Emitter` the only strong one. -/
  alive : Bool
  streams : OrderedMap Nat (Subscriber T)
  /-- Streams made so far: their names. -/
  created : Nat
  emitted : List (Emission T)

namespace Emitter

def new : Emitter W T := ⟨Event.new, true, OrderedMap.empty, 0, []⟩

inductive Op (W T : Type) where
  | subscribe
  | emit (value : T)
  | pollNext (stream : Nat) (waker : W)
  | dropStream (stream : Nat)
  | dropEmitter
  deriving DecidableEq

inductive Res (T : Type) where
  | done
  | subscribed (stream : Nat)
  | polled (result : Poll (Option (Emission T)))
  deriving DecidableEq

/-- `Emitter::subscribe`. -/
def subscribe (m : Emitter W T) : Emitter W T :=
  let (listener, event) := m.event.listen
  { m with
    event := event
    streams := m.streams.insert m.created ⟨.listening listener, m.emitted.length, []⟩
    created := m.created + 1 }

/-- `Emitter::emit`. -/
def emit [Usize] (value : T) (m : Emitter W T) : Emitter W T :=
  let emission : Emission T := ⟨m.emitted.length, value⟩
  { m with
    event := Event.notify ((Notification.usize Usize.max).with emission) m.event
    emitted := m.emitted ++ [emission] }

/-- What a poll adds to the history of its stream. -/
def yielded : Poll (Option (Emission T)) → List (Emission T)
  | .ready (some emission) => [emission]
  | _ => []

/-- `EmitterStream::poll_next`. -/
def pollNext (stream : Nat) (waker : W) (m : Emitter W T) : Option (Emitter W T × Res T) :=
  match m.streams.get? stream with
  | none => none
  | some s =>
    match streamPoll m.alive waker m.event s.state with
    | none => none
    | some (result, (event, state)) =>
      some ({ m with
        event := event
        streams := m.streams.insert stream
          { s with state := state, received := s.received ++ yielded result } }, .polled result)

/-- Drop a stream: its listener goes with it. -/
def dropStream (stream : Nat) (m : Emitter W T) : Option (Emitter W T × Res T) :=
  match m.streams.get? stream with
  | none => none
  | some s =>
    let event :=
      match s.state.listener with
      | none => m.event
      | some listener => EventListener.drop listener m.event
    some ({ m with event := event, streams := m.streams.erase stream }, .done)

variable [Usize]

/-- One call on the emitter or on one of its streams. -/
def step (m : Emitter W T) : Op W T → Option (Emitter W T × Res T)
  | .subscribe => if m.alive then some (m.subscribe, .subscribed m.created) else none
  | .emit value => if m.alive then some (m.emit value, .done) else none
  | .pollNext stream waker => m.pollNext stream waker
  | .dropStream stream => m.dropStream stream
  | .dropEmitter =>
    if m.alive then some ({ m with event := Event.drop m.event, alive := false }, .done) else none

def machine : Machine (Emitter W T) (Op W T) (Res T) where
  init m := m = new
  step := step

end Emitter

end Eneste
