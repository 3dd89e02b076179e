import Eneste.Library.BorrowFlag
import Eneste.Library.Machine
import Eneste.Event.Streams

/-!
# The observable `RefCell`

`ref_cell.rs`: the value is reached through guards, and the streams subscribed to the cell
are notified when a guard goes that was written through. The guard notifies in `drop`, that
is before it gives the value free, and the wakers run in between.
-/

namespace Eneste

variable {W T : Type}

namespace ObservableRefCell

/-- A guard, from its creation until the value is free of it. -/
inductive Guard where
  | cellRef
  | cellRefMut (mutated : Bool)
  /-- A `CellRefMut` in `drop`, with its `RefMut` still to be dropped. -/
  | dropping
  deriving DecidableEq

def Guard.shares : Guard → Bool
  | .cellRef => true
  | _ => false

def Guard.excludes : Guard → Bool
  | .cellRef => false
  | _ => true

/-- An `EventStream` and its subscriber. -/
structure Observer (T : Type) where
  state : StreamState
  /-- What the subscriber saw when it subscribed or right after the stream last yielded,
  if it could look; no code reads it. -/
  read : Option T

end ObservableRefCell

structure ObservableRefCell (W T : Type) where
  value : T
  flag : Int
  event : Inner W Unit
  /-- Live handles. -/
  handles : List Nat
  /-- Live guards, with the handles that they borrow. -/
  guards : OrderedMap Nat (Nat × ObservableRefCell.Guard)
  streams : OrderedMap Nat (ObservableRefCell.Observer T)
  /-- Handles, guards and streams made so far: their names. -/
  created : Nat

namespace ObservableRefCell

/-- `ObservableRefCell::new`. -/
def new (value : T) : ObservableRefCell W T :=
  ⟨value, BorrowFlag.unused, Event.new, [0], OrderedMap.empty, OrderedMap.empty, 1⟩

inductive Op (W T : Type) where
  | borrow (handle : Nat)
  | tryBorrow (handle : Nat)
  | borrowMut (handle : Nat)
  | tryBorrowMut (handle : Nat)
  /-- `deref`, `get`, `as_ref` or `Borrow::borrow` of a guard. -/
  | deref (guard : Nat)
  /-- `deref_mut` or `BorrowMut::borrow_mut`, and what is written there. -/
  | derefMut (guard : Nat) (value : T)
  | dropGuard (guard : Nat)
  /-- The `RefMut` of a `CellRefMut` is dropped. -/
  | release (guard : Nat)
  | clone (handle : Nat)
  | subscribe (handle : Nat)
  | pollNext (stream : Nat) (waker : W)
  | dropStream (stream : Nat)
  /-- `WeakObservableRefCell::upgrade`. -/
  | upgrade
  | dropHandle (handle : Nat)
  deriving DecidableEq

inductive Res (T : Type) where
  | done
  | panicked
  | guard (name : Option Nat)
  | value (value : T)
  | subscribed (stream : Nat)
  | polled (result : Poll (Option Unit))
  | upgraded (handle : Option Nat)
  deriving DecidableEq

variable (c : ObservableRefCell W T)

/-- The streams hold weak references to the event's `Inner`. Strong ones are held by the
event itself and by every listener. -/
def alive : Bool := !c.handles.isEmpty || 0 < c.event.listeners.size

/-- A guard is notifying: the event is borrowed. -/
def notifying : Bool := c.guards.entries.any fun e => e.2.2 == .dropping

/-- A new guard on the value. -/
def guarded (flag : Int) (handle : Nat) (guard : Guard) : ObservableRefCell W T :=
  { c with
    flag := flag
    guards := c.guards.insert c.created (handle, guard)
    created := c.created + 1 }

variable [Usize]

/-- `isize::MAX`. -/
def maxShared : Nat := Usize.max / 2

def tryBorrow (handle : Nat) : ObservableRefCell W T × Option Nat :=
  match BorrowFlag.share maxShared c.flag with
  | none => (c, none)
  | some flag => (c.guarded flag handle .cellRef, some c.created)

def tryBorrowMut (handle : Nat) : ObservableRefCell W T × Option Nat :=
  match BorrowFlag.exclude c.flag with
  | none => (c, none)
  | some flag => (c.guarded flag handle (.cellRefMut false), some c.created)

/-- `borrow` and `borrow_mut` panic where the other two return `None`. -/
def orPanic : ObservableRefCell W T × Option Nat → ObservableRefCell W T × Res T
  | (c, none) => (c, .panicked)
  | (c, some name) => (c, .guard (some name))

/-- What someone sees who looks without waiting. -/
def peek : Option T :=
  if (BorrowFlag.share maxShared c.flag).isSome then some c.value else none

/-- `Drop` of a guard, as far as the guard itself. -/
def dropGuard (guard : Nat) : Option (ObservableRefCell W T × Res T) :=
  match c.guards.get? guard with
  | some (_, .cellRef) =>
    some ({ c with flag := BorrowFlag.unshare c.flag, guards := c.guards.erase guard }, .done)
  | some (handle, .cellRefMut mutated) =>
    some ({ c with
      event := if mutated then Event.notify (.usize Usize.max) c.event else c.event
      guards := c.guards.insert guard (handle, .dropping) }, .done)
  | _ => none

/-- `ObservableRefCell::subscribe`, and the subscriber's first look at the value. -/
def subscribe : ObservableRefCell W T :=
  let (listener, event) := c.event.listen
  { c with
    event := event
    streams := c.streams.insert c.created ⟨.listening listener, c.peek⟩
    created := c.created + 1 }

/-- The subscriber looks at the value whenever its stream yields. -/
def readAfter (s : Observer T) : Poll (Option Unit) → Option T
  | .ready (some ()) => if c.peek.isSome then c.peek else s.read
  | _ => s.read

/-- `EventStream::poll_next`. -/
def pollNext (stream : Nat) (waker : W) : Option (ObservableRefCell W T × Res T) :=
  match c.streams.get? stream with
  | none => none
  | some s =>
    match streamPoll c.alive waker c.event s.state with
    | none => none
    | some (result, (event, state)) =>
      some ({ c with
        event := event
        streams := c.streams.insert stream ⟨state, c.readAfter s result⟩ }, .polled result)

def dropStream (stream : Nat) : Option (ObservableRefCell W T × Res T) :=
  match c.streams.get? stream with
  | none => none
  | some s =>
    some ({ c with event := s.state.drop c.event, streams := c.streams.erase stream }, .done)

/-- A handle is dropped. The last one takes the value and the event along. -/
def dropHandle (handle : Nat) : ObservableRefCell W T :=
  let handles := c.handles.erase handle
  { c with
    handles := handles
    event := if handles = [] then Event.drop c.event else c.event }

/-- One call. A handle that a guard borrows is not dropped, and while a guard notifies
nobody gets at the event. -/
def step : Op W T → Option (ObservableRefCell W T × Res T)
  | .borrow handle => if handle ∈ c.handles then some (orPanic (c.tryBorrow handle)) else none
  | .tryBorrow handle =>
    if handle ∈ c.handles then
      let (c, name) := c.tryBorrow handle
      some (c, .guard name)
    else none
  | .borrowMut handle =>
    if handle ∈ c.handles then some (orPanic (c.tryBorrowMut handle)) else none
  | .tryBorrowMut handle =>
    if handle ∈ c.handles then
      let (c, name) := c.tryBorrowMut handle
      some (c, .guard name)
    else none
  | .deref guard =>
    match c.guards.get? guard with
    | some (_, .cellRef) | some (_, .cellRefMut _) => some (c, .value c.value)
    | _ => none
  | .derefMut guard value =>
    match c.guards.get? guard with
    | some (handle, .cellRefMut _) =>
      some ({ c with
        value := value
        guards := c.guards.insert guard (handle, .cellRefMut true) }, .done)
    | _ => none
  | .dropGuard guard => c.dropGuard guard
  | .release guard =>
    match c.guards.get? guard with
    | some (_, .dropping) =>
      some ({ c with flag := BorrowFlag.unexclude c.flag, guards := c.guards.erase guard }, .done)
    | _ => none
  | .clone handle =>
    if handle ∈ c.handles then
      match c.peek with
      | none => some (c, .panicked)
      | some value => some (c, .value value)
    else none
  | .subscribe handle =>
    if handle ∈ c.handles ∧ c.notifying = false then some (c.subscribe, .subscribed c.created)
    else none
  | .pollNext stream waker => if c.notifying then none else c.pollNext stream waker
  | .dropStream stream => if c.notifying then none else c.dropStream stream
  | .upgrade =>
    if c.handles = [] then some (c, .upgraded none)
    else
      some ({ c with handles := c.handles ++ [c.created], created := c.created + 1 },
        .upgraded (some c.created))
  | .dropHandle handle =>
    if handle ∈ c.handles ∧ ∀ e ∈ c.guards.entries, e.2.1 ≠ handle then
      some (c.dropHandle handle, .done)
    else none

def machine (value : T) : Machine (ObservableRefCell W T) (Op W T) (Res T) where
  init c := c = new value
  step c := c.step

end ObservableRefCell

end Eneste
