import Eneste.Library.Machine
import Eneste.Library.Loop
import Eneste.Event.Basic
import Eneste.Event.Laws
import Eneste.Event.WaitLoop
import Eneste.Event.Waiters
import Eneste.Event.Listeners
import Eneste.Event.Ledger
import Eneste.Event.Streams
import Eneste.Channel.Mpsc
import Eneste.Channel.Invariant
import Eneste.Channel.Progress
import Eneste.Channel.Fifo
import Eneste.Channel.EndOfStream
import Eneste.Channel.ReceiverGone
import Eneste.Channel.Oneshot
import Eneste.Channel.OneshotWait
import Eneste.Lock.Awake
import Eneste.Lock.RwLock
import Eneste.Lock.Mutex
import Eneste.PollLock.PollMutex
import Eneste.PollLock.LockedSink
import Eneste.PollLock.Forwarding
import Eneste.PollLock.Abandoned
import Eneste.Cell.ObservableCell
import Eneste.Cell.UpToDate
import Eneste.Emitter.Emitter
import Eneste.Emitter.Delivery
import Eneste.Executor.Executor
import Eneste.Executor.Moves
import Eneste.Executor.Tokens
import Eneste.Executor.Nesting
import Eneste.Executor.Places
import Eneste.Executor.Lifecycle
import Eneste.Executor.Calls
import Eneste.Executor.Wakes
import Eneste.Executor.Reentry
import Eneste.Executor.Deadlock
import Eneste.Executor.Panics
import Eneste.Executor.ShutdownRace
import Eneste.Executor.Batches
import Eneste.Event.Handles
import Eneste.Event.Bookkeeping
import Eneste.Event.StreamsEnd
import Eneste.Emitter.Mailbox
import Eneste.Channel.OneshotDelivery
import Eneste.WaitGroup.Exact
import Eneste.WaitGroup.WaitGroup
import Eneste.Executor.Borrows
import Eneste.Event.Terminated
import Eneste.Emitter.Listener
import Eneste.Loops.Bounded
import Eneste.Upgrade.Upgrade
import Eneste.Cell.Changes
import Eneste.Executor.Inbox
import Eneste.Executor.Threaded
import Eneste.Runtime.NoLostWake
import Eneste.Emitter.Audience
import Eneste.Emitter.Callbacks
import Eneste.Emitter.Heard
import Eneste.Event.SharedEvent
import Eneste.Event.Unwound
