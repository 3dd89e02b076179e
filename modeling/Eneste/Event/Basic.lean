import Eneste.Library.OrderedMap

/-!
# The event

`event.rs`: listeners registered in one `Inner` shared by an `Event` and its
`EventListener`s. Wakers are opaque values; calling `wake` on one is recorded in
`Inner.woken`, which no code reads. Identifiers and counters are natural
numbers: `usize` arithmetic only matters where `usize::MAX` is compared.
-/

namespace Eneste

/-- `core::task::Poll`. -/
inductive Poll (α : Type) where
  | ready (value : α)
  | pending
  deriving DecidableEq

/-- The width of `usize` on the target. -/
class Usize where
  max : Nat
  one_lt_max : 1 < max

/-- A 64-bit target, for concrete runs. -/
instance : Usize := ⟨2 ^ 64 - 1, by decide⟩

variable {W T : Type}

structure ListenerEntry (W T : Type) where
  waker : Option W
  value : Option T

def ListenerEntry.isNotified (entry : ListenerEntry W T) : Bool := entry.value.isSome

structure Inner (W T : Type) where
  /-- Listeners waiting for notification. -/
  listeners : OrderedMap Nat (ListenerEntry W T)
  /-- Counter for unique listener ids. -/
  nextId : Nat
  /-- Notified listeners that have not been woken yet. -/
  notified : Nat
  /-- Set once the owning `Event` has been dropped. -/
  closed : Bool
  /-- Every waker this event has woken, in order. -/
  woken : List W

/-- `Inner::listen`, which `Event::listen` and `Event::stream` call. -/
def Inner.listen (inner : Inner W T) : Nat × Inner W T :=
  (inner.nextId,
    { inner with
      nextId := inner.nextId + 1
      listeners := inner.listeners.insert inner.nextId { waker := none, value := none } })

/-- The three implementations of the `Notification` trait, by what its methods return. -/
structure Notification (T : Type) where
  count : Nat
  isAdditional : Bool
  tag : T

/-- A bare `usize`. -/
def Notification.usize (n : Nat) : Notification Unit := ⟨n, false, ()⟩

def Notification.additional (n : Notification T) : Notification T := { n with isAdditional := true }

def Notification.with {V : Type} (n : Notification T) (value : V) : Notification V :=
  ⟨n.count, n.isAdditional, value⟩

namespace Event

def new : Inner W T := ⟨OrderedMap.empty, 0, 0, false, []⟩

/-- A turn of the loop over `listeners.values_mut()`, which counts the listeners it
notifies and wakes their wakers; `none` is its `break`. -/
def notifyEntry (count : Nat) (tag : T) (acc : Nat × List W) (entry : ListenerEntry W T) :
    Option (ListenerEntry W T × (Nat × List W)) :=
  if acc.1 ≥ count then none
  else if entry.isNotified then some (entry, acc)
  else some ({ waker := none, value := some tag }, (acc.1 + 1, acc.2 ++ entry.waker.toList))

/-- The loop of `notify_inner` and of `notify_additional`. -/
def notifyLoop (count : Nat) (tag : T) (inner : Inner W T) : Inner W T :=
  let (listeners, notified, woken) := inner.listeners.visit (notifyEntry count tag) (0, [])
  { inner with
    listeners := listeners
    notified := inner.notified + notified
    woken := inner.woken ++ woken }

def notifyInner [Usize] (notification : Notification T) (inner : Inner W T) : Inner W T :=
  let count :=
    if notification.count = Usize.max then inner.listeners.size
    else notification.count - inner.notified
  notifyLoop count notification.tag inner

def notifyAdditional [Usize] (notification : Notification T) (inner : Inner W T) : Inner W T :=
  let count :=
    if notification.count = Usize.max then inner.listeners.size
    else min notification.count inner.listeners.size
  notifyLoop count notification.tag inner

def notify [Usize] (value : Notification T) (inner : Inner W T) : Inner W T :=
  if value.isAdditional then notifyAdditional value inner else notifyInner value inner

/-- `Event::drop`. -/
def drop (inner : Inner W T) : Inner W T :=
  let (listeners, woken) := inner.listeners.visit
    (fun woken entry => some ({ entry with waker := none }, woken ++ entry.waker.toList)) []
  { inner with closed := true, listeners := listeners, woken := inner.woken ++ woken }

end Event

/-! An `EventListener` is its id; its `Rc` to the shared `Inner` is the argument. -/
namespace EventListener

def isClosed (inner : Inner W T) : Bool := inner.closed

def isNotified (id : Nat) (inner : Inner W T) : Bool :=
  ((inner.listeners.get? id).map ListenerEntry.isNotified).getD false

/-- `EventListener::is_terminated`. -/
def isTerminated (id : Nat) (inner : Inner W T) : Bool :=
  ((inner.listeners.get? id).map ListenerEntry.isNotified).getD true

/-- `EventListener::drop`: a notification that was not consumed passes on. -/
def drop (id : Nat) (inner : Inner W T) : Inner W T :=
  match inner.listeners.get? id with
  | none => inner
  | some entry =>
    let inner := { inner with listeners := inner.listeners.erase id }
    if !entry.isNotified || inner.notified == 0 then inner
    else
      let inner := { inner with notified := inner.notified - 1 }
      match inner.listeners.find? fun e => !e.isNotified with
      | none => inner
      | some (next, heir) =>
        { inner with
          listeners := inner.listeners.insert next { waker := none, value := entry.value }
          woken := inner.woken ++ heir.waker.toList
          notified := inner.notified + 1 }

/-- `EventListener::poll`; `none` is its `unreachable!`. -/
def poll (id : Nat) (waker : W) (inner : Inner W T) : Option (Poll T × Inner W T) :=
  match inner.listeners.get? id with
  | none => none
  | some entry =>
    match entry.value with
    | some value =>
      -- the subtraction saturates in the source as it does here
      some (.ready value,
        { inner with
          listeners := inner.listeners.insert id { entry with value := none }
          notified := inner.notified - 1 })
    | none =>
      some (.pending,
        { inner with listeners := inner.listeners.insert id { entry with waker := some waker } })

end EventListener

end Eneste
