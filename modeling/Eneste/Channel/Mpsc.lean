import Eneste.Library.Machine
import Eneste.Event.Future

/-!
# The mpsc channel

`channel/mpsc.rs`, with everything a program holds of one channel: the `Sender`
handles, the `Send` futures and the `Receiver`. `Channel.step` is one call on one
of them. Wakers do not re-enter the channel, so calls do not nest.
-/

namespace Eneste.Mpsc

variable {W T : Type}

inductive ChannelError where
  | channelError
  deriving DecidableEq

structure State (T : Type) where
  queue : List T
  maxQueueSize : Nat
  senders : Nat

/-- The allocations behind the handles. The `Receiver` is the only strong owner of
`shared`; the events' listeners outlive it. -/
structure Core (W T : Type) where
  shared : Option (State T)
  receiverEvent : Inner W Unit
  senderEvent : Inner W Unit

def Core.receiverField : EventField (Core W T) W where
  get := Core.receiverEvent
  set core inner := { core with receiverEvent := inner }
  get_set _ _ := rfl
  set_get _ := rfl
  set_set _ _ _ := rfl

def Core.senderField : EventField (Core W T) W where
  get := Core.senderEvent
  set core inner := { core with senderEvent := inner }
  get_set _ _ := rfl
  set_get _ := rfl
  set_set _ _ _ := rfl

/-- Queue a value where there is room, in `try_send` and in `Send::poll`. -/
def Core.pushBack [Usize] (core : Core W T) (state : State T) (value : T) : Core W T :=
  let wasEmpty := state.queue.isEmpty
  let core := { core with shared := some { state with queue := state.queue ++ [value] } }
  if wasEmpty then { core with receiverEvent := Event.notify (.usize 1) core.receiverEvent }
  else core

/-- `Sender::try_send`. -/
def trySend [Usize] (value : T) (core : Core W T) : Except T Unit × Core W T :=
  match core.shared with
  | none => (.error value, core)
  | some state =>
    if state.queue.length < state.maxQueueSize then (.ok (), core.pushBack state value)
    else (.error value, core)

/-- The `Idle` arm of `Send::poll`. -/
def sendAttempt [Usize] (value : Option T) (core : Core W T) :
    Attempt (Except ChannelError Unit) (Core W T) :=
  match core.shared with
  | none => .ready (.error .channelError) core
  | some state =>
    if state.queue.length < state.maxQueueSize then
      match value with
      | none => .panic -- "value should be present"
      | some value => .ready (.ok ()) (core.pushBack state value)
    else .wait

/-- The `Idle` arm of `Receiver::poll_next`. -/
def recvAttempt [Usize] (core : Core W T) : Attempt (Option T) (Core W T) :=
  match core.shared with
  | none => .panic -- not while there is a `Receiver`
  | some state =>
    let wasFull := state.queue.length == state.maxQueueSize
    match state.queue with
    | value :: rest =>
      let core := { core with shared := some { state with queue := rest } }
      .ready (some value)
        (if wasFull then { core with senderEvent := Event.notify (.usize 1) core.senderEvent }
        else core)
    | [] => if state.senders == 0 then .ready none core else .wait

/-- `Sender::drop`. -/
def dropSender [Usize] (core : Core W T) : Core W T :=
  match core.shared with
  | none => core
  | some state =>
    let state := { state with senders := state.senders - 1 }
    let core := { core with shared := some state }
    if state.senders == 0 then
      { core with receiverEvent := Event.notify (.usize Usize.max) core.receiverEvent }
    else core

/-- `Sender::clone`. -/
def cloneSender (core : Core W T) : Core W T :=
  match core.shared with
  | none => core
  | some state => { core with shared := some { state with senders := state.senders + 1 } }

/-- The `Receiver`'s `drop`, then its fields in order: the state with both events
and the queue, and last the listener the receiver may wait on. -/
def dropReceiver [Usize] (receiver : Waiter W) (core : Core W T) : Core W T :=
  let receiverEvent := Event.drop core.receiverEvent
  { shared := none
    senderEvent := Event.drop (Event.notify (.usize Usize.max) core.senderEvent)
    receiverEvent :=
      match receiver.sleeper with
      | none => receiverEvent
      | some p => EventListener.drop p.listener receiverEvent }

/-- A `Send` future that has not completed, with its `value`. -/
abbrev Send (W T : Type) := Future W (Option T)

structure Channel (W T : Type) where
  core : Core W T
  receiver : Waiter W
  sends : OrderedMap Nat (Send W T)
  /-- Futures made so far: their names. -/
  created : Nat
  /-- Live `Sender` handles. -/
  handles : Nat

/-- `channel(max_queue_size)`. -/
def channel (maxQueueSize : Nat) : Channel W T where
  core :=
    { shared := some { queue := [], maxQueueSize := maxQueueSize, senders := 1 }
      receiverEvent := Event.new
      senderEvent := Event.new }
  receiver := .idle
  sends := OrderedMap.empty
  created := 0
  handles := 1

/-- `Receiver::is_empty`. -/
def isEmpty (state : State T) : Bool := state.queue.isEmpty

/-- `Receiver::is_full`. -/
def isFull (state : State T) : Bool := state.queue.length ≥ state.maxQueueSize

/-- `Sender::is_closed`, and `Receiver::is_closed` while there is a `Receiver`. -/
def isClosed (core : Core W T) : Bool :=
  match core.shared with
  | some state => state.senders == 0
  | none => true

inductive Op (W T : Type) where
  | trySend (value : T)
  | send (value : T)
  | pollSend (future : Nat) (waker : W)
  | dropSend (future : Nat)
  | cloneSender
  | dropSender
  | pollNext (waker : W)
  | dropReceiver

inductive Res (T : Type) where
  | done
  | tried (result : Except T Unit)
  | created (future : Nat)
  | sent (result : Poll (Except ChannelError Unit))
  | next (result : Poll (Option T))

variable [Usize]

/-- `Send::poll` on a future of the channel. A completed future is not polled again. -/
def Channel.pollSend (c : Channel W T) (future : Nat) (waker : W) :
    Option (Channel W T × Res T) :=
  match c.sends.get? future with
  | none => none
  | some send =>
    match send.waiter.poll Core.senderField (sendAttempt send.own) waker c.core with
    | none => none
    | some (.pending, core, waiter) =>
      some ({ c with core := core, sends := c.sends.insert future { send with waiter := waiter } },
        .sent .pending)
    | some (.ready result, core, _) =>
      some ({ c with core := core, sends := c.sends.erase future }, .sent (.ready result))

/-- `Receiver::poll_next`. -/
def Channel.pollNext (c : Channel W T) (waker : W) : Option (Channel W T × Res T) :=
  match c.receiver.poll Core.receiverField recvAttempt waker c.core with
  | none => none
  | some (result, core, waiter) => some ({ c with core := core, receiver := waiter }, .next result)

/-- Drop a `Send` future: its listener goes with it. -/
def Channel.dropSend (c : Channel W T) (future : Nat) : Option (Channel W T × Res T) :=
  match c.sends.get? future with
  | none => none
  | some send =>
    let senderEvent :=
      match send.waiter.sleeper with
      | none => c.core.senderEvent
      | some p => EventListener.drop p.listener c.core.senderEvent
    some ({ c with
      core := { c.core with senderEvent := senderEvent }
      sends := c.sends.erase future }, .done)

/-- One call. It is possible while the handle it is made on is alive. -/
def Channel.step (c : Channel W T) : Op W T → Option (Channel W T × Res T)
  | .trySend value =>
    if c.handles = 0 then none
    else
      let (result, core) := trySend value c.core
      some ({ c with core := core }, .tried result)
  | .send value =>
    if c.handles = 0 then none
    else
      some ({ c with
        sends := c.sends.insert c.created { waiter := .idle, own := some value }
        created := c.created + 1 }, .created c.created)
  | .pollSend future waker => c.pollSend future waker
  | .dropSend future => c.dropSend future
  | .cloneSender =>
    if c.handles = 0 then none
    else some ({ c with core := cloneSender c.core, handles := c.handles + 1 }, .done)
  | .dropSender =>
    if c.handles = 0 then none
    else some ({ c with core := dropSender c.core, handles := c.handles - 1 }, .done)
  | .pollNext waker => if c.core.shared.isNone then none else c.pollNext waker
  | .dropReceiver =>
    if c.core.shared.isNone then none
    else some ({ c with core := dropReceiver c.receiver c.core, receiver := .idle }, .done)

def machine (maxQueueSize : Nat) : Machine (Channel W T) (Op W T) (Res T) where
  init c := c = channel maxQueueSize
  step := Channel.step

end Eneste.Mpsc
