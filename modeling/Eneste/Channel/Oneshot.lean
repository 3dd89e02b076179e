import Eneste.Channel.Mpsc

/-!
# The oneshot channel

`channel/oneshot.rs`: a `Sender` that sends at most once, and a `Receiver` that is a
future. What the channel is in and what the receiver's listener holds are two records of
the same history; `Receiver::poll` asks the first and falls back on the second.
-/

namespace Eneste

open Mpsc (ChannelError)

variable {W T : Type}

inductive ChannelState where
  | empty
  | senderClosed
  | receiverClosed
  | full
  deriving DecidableEq

/-- `State`, with the event, the receiver's listener and the two ends. -/
structure Oneshot (W T : Type) where
  value : Option T
  state : ChannelState
  event : Inner W Unit
  listener : Nat
  /-- The `Sender`, which owns the event, is alive. -/
  sender : Bool
  /-- The `Receiver` is alive. -/
  receiver : Bool

namespace Oneshot

/-- `channel`. -/
def channel : Oneshot W T :=
  let (listener, event) := Inner.listen Event.new
  ⟨none, .empty, event, listener, true, true⟩

inductive Op (W T : Type) where
  | send (value : T)
  | dropSender
  | close
  | tryRecv
  | poll (waker : W)
  | dropReceiver
  deriving DecidableEq

inductive Res (T : Type) where
  | done
  | sent (result : Except ChannelError Unit)
  | received (result : Except ChannelError (Option T))
  | polled (result : Poll (Except ChannelError T))
  deriving DecidableEq

/-- `Sender::send`; `none` is its `unreachable!`. -/
def send [Usize] (value : T) (c : Oneshot W T) : Option (Except ChannelError Unit × Oneshot W T) :=
  match c.state with
  | .empty =>
    some (.ok (), { c with
      value := some value
      state := .full
      event := Event.notify (.usize 1) c.event })
  | .receiverClosed => some (.error .channelError, c)
  | .senderClosed | .full => none

/-- `Sender::drop`, and after it the drop of the event. -/
def dropSender [Usize] (c : Oneshot W T) : Oneshot W T :=
  let c :=
    match c.state with
    | .empty =>
      { c with state := .senderClosed, event := Event.notify (.usize 1) c.event }
    | _ => c
  { c with event := Event.drop c.event, sender := false }

/-- `Receiver::close`. -/
def close (c : Oneshot W T) : Oneshot W T :=
  match c.state with
  | .empty => { c with state := .receiverClosed, value := none }
  | _ => c

/-- `Receiver::try_recv`. -/
def tryRecv (c : Oneshot W T) : Except ChannelError (Option T) × Oneshot W T :=
  match c.state with
  | .full => (.ok c.value, { c with value := none, state := .empty })
  | .senderClosed | .receiverClosed => (.error .channelError, c)
  | .empty => (.ok none, c)

/-- `Receiver::poll`; `none` is the `unreachable!` of the listener. -/
def poll (waker : W) (c : Oneshot W T) : Option (Poll (Except ChannelError T) × Oneshot W T) :=
  match c.state with
  | .full =>
    let value :=
      match c.value with
      | some value => .ok value
      | none => .error .channelError
    some (.ready value, { c with value := none, state := .empty })
  | .senderClosed => some (.ready (.error .channelError), c)
  | .empty | .receiverClosed =>
    match EventListener.poll c.listener waker c.event with
    | none => none
    -- whether `ready!` returns early or the listener was notified
    | some (_, event) => some (.pending, { c with event := event })

/-- Drop the receiver: it closes, and its listener goes. -/
def dropReceiver (c : Oneshot W T) : Oneshot W T :=
  let c := c.close
  { c with event := EventListener.drop c.listener c.event, receiver := false }

/-- One call on either end. `send` takes the sender, which is dropped when it returns. -/
def step [Usize] (c : Oneshot W T) : Op W T → Option (Oneshot W T × Res T)
  | .send value =>
    if c.sender then
      match c.send value with
      | none => none
      | some (result, c) => some (c.dropSender, .sent result)
    else none
  | .dropSender => if c.sender then some (c.dropSender, .done) else none
  | .close => if c.receiver then some (c.close, .done) else none
  | .tryRecv =>
    if c.receiver then
      let (result, c) := c.tryRecv
      some (c, .received result)
    else none
  | .poll waker =>
    if c.receiver then
      match c.poll waker with
      | none => none
      | some (result, c) => some (c, .polled result)
    else none
  | .dropReceiver => if c.receiver then some (c.dropReceiver, .done) else none

def machine [Usize] : Machine (Oneshot W T) (Op W T) (Res T) where
  init c := c = channel
  step := step

end Oneshot

end Eneste
