import Eneste.Channel.Mpsc

/-!
# The channel's invariant

`Channel.PollSend` and `Channel.PollNext` list everything a poll can do.
`Channel.Inv` is what every call keeps: both events are tied to the futures that
wait on them, the counters are right, and a receiver that has something to
report is notified.
-/

namespace Eneste.Mpsc

variable [Usize] {W T : Type}

/-! ### What a poll can do -/

/-- The outcomes of polling the `Send` future `k`. -/
inductive Channel.PollSend (c : Channel W T) (k : Nat) (waker : W) (send : Send W T) :
    Channel W T → Res T → Prop
  | asleep {p} (parked : send.waiter = .parked p)
      (silent : EventListener.isNotified p.listener c.core.senderEvent = false) :
      PollSend c k waker send
        { c with
          core := { c.core with senderEvent := c.core.senderEvent.await p.listener waker }
          sends := c.sends.insert k { send with
            waiter := .parked ⟨p.listener, waker, c.core.senderEvent.woken.length⟩ } }
        (.sent .pending)
  | accepted {state value} (runnable : send.waiter.Runnable c.core.senderEvent)
      (live : c.core.shared = some state) (room : state.queue.length < state.maxQueueSize)
      (holds : send.own = some value) :
      PollSend c k waker send
        { c with
          core := { c.core with
            senderEvent := send.waiter.settled c.core.senderEvent }.pushBack state value
          sends := c.sends.erase k }
        (.sent (.ready (.ok ())))
  | refused (runnable : send.waiter.Runnable c.core.senderEvent) (gone : c.core.shared = none) :
      PollSend c k waker send
        { c with
          core := { c.core with senderEvent := send.waiter.settled c.core.senderEvent }
          sends := c.sends.erase k }
        (.sent (.ready (.error .channelError)))
  | parks {state} (runnable : send.waiter.Runnable c.core.senderEvent)
      (live : c.core.shared = some state) (full : ¬state.queue.length < state.maxQueueSize) :
      PollSend c k waker send
        { c with
          core := { c.core with
            senderEvent := (send.waiter.settled c.core.senderEvent).register waker }
          sends := c.sends.insert k { send with
            waiter := .parked ⟨(send.waiter.settled c.core.senderEvent).nextId, waker,
              (send.waiter.settled c.core.senderEvent).woken.length⟩ } }
        (.sent .pending)

/-- The outcomes of polling the `Receiver`. -/
inductive Channel.PollNext (c : Channel W T) (waker : W) (state : State T) :
    Channel W T → Res T → Prop
  | asleep {p} (parked : c.receiver = .parked p)
      (silent : EventListener.isNotified p.listener c.core.receiverEvent = false) :
      PollNext c waker state
        { c with
          core := { c.core with receiverEvent := c.core.receiverEvent.await p.listener waker }
          receiver := .parked ⟨p.listener, waker, c.core.receiverEvent.woken.length⟩ }
        (.next .pending)
  | took {value rest} (runnable : c.receiver.Runnable c.core.receiverEvent)
      (first : state.queue = value :: rest) :
      PollNext c waker state
        { c with
          core :=
            { shared := some { state with queue := rest }
              receiverEvent := c.receiver.settled c.core.receiverEvent
              senderEvent :=
                if state.queue.length = state.maxQueueSize then
                  Event.notify (.usize 1) c.core.senderEvent
                else c.core.senderEvent }
          receiver := .idle }
        (.next (.ready (some value)))
  | ended (runnable : c.receiver.Runnable c.core.receiverEvent) (drained : state.queue = [])
      (alone : state.senders = 0) :
      PollNext c waker state
        { c with
          core := { c.core with receiverEvent := c.receiver.settled c.core.receiverEvent }
          receiver := .idle }
        (.next (.ready none))
  | parks (runnable : c.receiver.Runnable c.core.receiverEvent) (drained : state.queue = [])
      (expected : state.senders ≠ 0) :
      PollNext c waker state
        { c with
          core := { c.core with
            receiverEvent := (c.receiver.settled c.core.receiverEvent).register waker }
          receiver := .parked ⟨(c.receiver.settled c.core.receiverEvent).nextId, waker,
            (c.receiver.settled c.core.receiverEvent).woken.length⟩ }
        (.next .pending)

variable {c c' : Channel W T} {r : Res T}

theorem Channel.pollSend_spec {k : Nat} {waker : W} {valid : Option T → Prop}
    (side : Attached c.core.senderEvent c.sends c.created valid)
    (taken : c.pollSend k waker = some (c', r)) :
    ∃ send, c.sends.get? k = some send ∧ c.PollSend k waker send c' r := by
  unfold Channel.pollSend at taken
  split at taken
  · cases taken
  next send live =>
    refine ⟨send, live, ?_⟩
    cases polled : send.waiter.poll Core.senderField (sendAttempt send.own) waker c.core with
    | none => simp [polled] at taken
    | some out =>
      obtain ⟨result, core, waiter⟩ := out
      -- either the listener is silent, or the `Idle` arm runs and takes one of its three ways
      rcases Waiter.poll_cases _ _ _ (fun p parked => side.tracked live parked) polled with
        ⟨p, parked, silent, rfl, rfl, rfl⟩ | ⟨runnable, finished⟩
      · simp only [polled, Option.some.injEq, Prod.mk.injEq] at taken
        obtain ⟨rfl, rfl⟩ := taken
        exact .asleep parked silent
      · simp only [Waiter.finishOrPark, sendAttempt, Core.senderField] at finished
        split at finished
        next x core' arm =>
          split at arm
          next gone =>
            cases arm
            cases finished
            simp only [polled, Option.some.injEq, Prod.mk.injEq] at taken
            obtain ⟨rfl, rfl⟩ := taken
            exact .refused runnable gone
          next state opened =>
            split at arm
            next room =>
              split at arm
              · cases arm
              next value holds =>
                cases arm
                cases finished
                simp only [polled, Option.some.injEq, Prod.mk.injEq] at taken
                obtain ⟨rfl, rfl⟩ := taken
                exact .accepted runnable opened room holds
            · cases arm
        next arm =>
          split at arm
          · cases arm
          next state opened =>
            split at arm
            · split at arm <;> cases arm
            next full =>
              cases finished
              simp only [polled, Option.some.injEq, Prod.mk.injEq] at taken
              obtain ⟨rfl, rfl⟩ := taken
              exact .parks runnable opened full
        next => cases finished

theorem Channel.pollNext_spec {waker : W} {state : State T} (live : c.core.shared = some state)
    (tracks : ∀ p, c.receiver = .parked p → c.core.receiverEvent.Tracks p)
    (taken : c.pollNext waker = some (c', r)) : c.PollNext waker state c' r := by
  unfold Channel.pollNext at taken
  cases polled : c.receiver.poll Core.receiverField recvAttempt waker c.core with
  | none => simp [polled] at taken
  | some out =>
    obtain ⟨result, core, waiter⟩ := out
    simp only [polled, Option.some.injEq, Prod.mk.injEq] at taken
    obtain ⟨rfl, rfl⟩ := taken
    rcases Waiter.poll_cases _ _ _ tracks polled with
      ⟨p, parked, silent, rfl, rfl, rfl⟩ | ⟨runnable, finished⟩
    · exact .asleep parked silent
    · simp only [Waiter.finishOrPark, recvAttempt, Core.receiverField, live] at finished
      cases stored : state.queue with
      | cons value rest =>
        simp only [stored, Option.some.injEq, Prod.mk.injEq, beq_iff_eq] at finished
        obtain ⟨rfl, rfl, rfl⟩ := finished
        have took : c.PollNext waker state _ _ := .took runnable stored
        simp only [stored] at took
        split at took <;> simp_all
      | nil =>
        by_cases alone : state.senders = 0
        · simp only [stored, alone, beq_self_eq_true, ite_true, Option.some.injEq,
            Prod.mk.injEq] at finished
          obtain ⟨rfl, rfl, rfl⟩ := finished
          have ended : c.PollNext waker state _ _ := .ended runnable stored alone
          simpa only [live] using ended
        · simp only [stored, beq_iff_eq, alone, ite_false, Option.some.injEq,
            Prod.mk.injEq] at finished
          obtain ⟨rfl, rfl, rfl⟩ := finished
          have parks : c.PollNext waker state _ _ := .parks runnable stored alone
          simpa only [live] using parks

/-! ### The invariant -/

/-- The capacity and the counter of `Sender` handles are right. -/
structure State.Fits (cap handles : Nat) (state : State T) : Prop where
  capacity : state.maxQueueSize = cap
  bounded : state.queue.length ≤ cap
  counted : state.senders = handles

/-- The receiver has a value to take, or the end to report. -/
def State.Due (state : State T) : Prop := state.queue ≠ [] ∨ state.senders = 0

/-- The receiver, as long as there is one. -/
def reader (shared : Option (State T)) (receiver : Waiter W) : OrderedMap Nat (Future W Unit) :=
  if shared.isSome then sole receiver else OrderedMap.empty

/-- The receiving side: a receiver that is due and parked is notified. -/
structure Reading (cap handles : Nat) (core : Core W T) (receiver : Waiter W) : Prop where
  attached : Attached core.receiverEvent (reader core.shared receiver) 1 fun _ => True
  fits : ∀ state, core.shared = some state → state.Fits cap handles
  due : ∀ state, core.shared = some state → state.Due → core.receiverEvent.Alert

structure Channel.Inv (cap : Nat) (c : Channel W T) : Prop where
  sending : Attached c.core.senderEvent c.sends c.created fun value => value.isSome = true
  reading : Reading cap c.handles c.core c.receiver

@[simp] theorem Core.pushBack_shared (core : Core W T) (state : State T) (value : T) :
    (core.pushBack state value).shared = some { state with queue := state.queue ++ [value] } := by
  unfold Core.pushBack
  dsimp only
  split <;> rfl

@[simp] theorem Core.pushBack_senderEvent (core : Core W T) (state : State T) (value : T) :
    (core.pushBack state value).senderEvent = core.senderEvent := by
  unfold Core.pushBack
  dsimp only
  split <;> rfl

omit [Usize] in
@[simp] theorem cloneSender_senderEvent (core : Core W T) :
    (cloneSender core).senderEvent = core.senderEvent := by
  unfold cloneSender
  split <;> rfl

@[simp] theorem dropSender_senderEvent (core : Core W T) :
    (dropSender core).senderEvent = core.senderEvent := by
  unfold dropSender
  split
  · rfl
  · dsimp only
    split <;> rfl

omit [Usize] in
/-- A handle that comes or goes only changes the counter. -/
theorem cloneSender_shared {core : Core W T} {later : State T}
    (opened : (cloneSender core).shared = some later) :
    ∃ senders, core.shared = some { later with senders := senders } := by
  unfold cloneSender at opened
  split at opened
  next gone => exact absurd (gone.symm.trans opened) (by simp)
  next state live =>
    cases opened
    exact ⟨state.senders, live⟩

theorem dropSender_shared {core : Core W T} {later : State T}
    (opened : (dropSender core).shared = some later) :
    ∃ senders, core.shared = some { later with senders := senders } := by
  unfold dropSender at opened
  split at opened
  next gone => exact absurd (gone.symm.trans opened) (by simp)
  next state live =>
    refine ⟨state.senders, ?_⟩
    dsimp only at opened
    split at opened <;> (cases opened; exact live)

theorem Core.pushBack_receiverEvent (core : Core W T) (state : State T) (value : T) :
    (core.pushBack state value).receiverEvent =
      if state.queue = [] then Event.notify (.usize 1) core.receiverEvent
      else core.receiverEvent := by
  simp only [Core.pushBack, List.isEmpty_iff]
  split <;> rfl

namespace Reading

variable {cap handles : Nat} {core : Core W T} {receiver : Waiter W} {state : State T}

omit [Usize] in
/-- The sender event is no part of the receiving side. -/
theorem frame (reading : Reading cap handles core receiver) (senderEvent : Inner W Unit) :
    Reading cap handles { core with senderEvent := senderEvent } receiver :=
  ⟨reading.attached, reading.fits, reading.due⟩

/-- The first value that is queued notifies the receiver. -/
theorem pushBack (reading : Reading cap handles core receiver) (live : core.shared = some state)
    (room : state.queue.length < state.maxQueueSize) (value : T) :
    Reading cap handles (core.pushBack state value) receiver where
  attached := by
    have attached := reading.attached
    simp only [live, reader] at attached
    rw [Core.pushBack_receiverEvent, Core.pushBack_shared]
    split
    · exact attached.notify _
    · exact attached
  fits later opened := by
    cases Option.some.inj ((core.pushBack_shared state value).symm.trans opened)
    -- the bound is kept because there was room
    obtain ⟨capacity, _, counted⟩ := reading.fits state live
    refine ⟨capacity, ?_, counted⟩
    simp only [List.length_append, List.length_singleton]
    omega
  due later opened _ := by
    rw [Core.pushBack_receiverEvent]
    split
    · -- the queue was empty: whoever is parked is notified now
      exact reading.attached.wf.alert_notify Nat.one_pos
    -- a queue that was not empty had its receiver notified before
    next filled => exact reading.due state live (Or.inl filled)

omit [Usize] in
/-- What a receiver that is not parked leaves to show. -/
theorem of_idle {core : Core W T}
    (attached : Attached core.receiverEvent (reader core.shared .idle) 1 fun _ => True)
    (fits : ∀ state, core.shared = some state → state.Fits cap handles) :
    Reading cap handles core .idle where
  attached := attached
  fits := fits
  due _ _ _ := by
    apply attached.alert_of_idle
    intro k
    unfold reader
    split
    · simp only [parkedIn_sole, Waiter.sleeper, ite_self]
    · simp [parkedIn]

omit [Usize] in
/-- A runnable receiver consumes its notification. -/
theorem settle (reading : Reading cap handles core receiver) (live : core.shared = some state)
    (runnable : receiver.Runnable core.receiverEvent) :
    Attached (receiver.settled core.receiverEvent) (sole .idle) 1 fun _ => True := by
  have attached := reading.attached
  simp only [live, reader, Option.isSome_some, ite_true] at attached
  simpa using attached.settle (sole_get? receiver) runnable

/-- `Sender::drop` notifies the receiver of the end. -/
theorem dropSender (reading : Reading cap handles core receiver) :
    Reading cap (handles - 1) (dropSender core) receiver := by
  cases live : core.shared with
  | none =>
    have same : Mpsc.dropSender core = core := by simp [Mpsc.dropSender, live]
    rw [same]
    exact ⟨reading.attached, by simp [live], reading.due⟩
  | some state =>
    have attached := reading.attached
    obtain ⟨capacity, bounded, counted⟩ := reading.fits state live
    -- only the last handle notifies: before it goes there is no end to report
    by_cases last : state.senders - 1 = 0
    · simp only [Mpsc.dropSender, live, last, beq_self_eq_true, ite_true]
      simp only [live] at attached
      refine ⟨by simpa only [reader, Option.isSome_some] using attached.notify _, ?_, ?_⟩
      · rintro _ ⟨⟩
        exact ⟨capacity, bounded, by simp only; omega⟩
      · rintro _ _ _
        exact attached.wf.alert_notify (Nat.zero_lt_of_lt Usize.one_lt_max)
    · simp only [Mpsc.dropSender, live, beq_iff_eq, last, ite_false]
      simp only [live] at attached
      refine ⟨attached, ?_, ?_⟩
      · rintro _ ⟨⟩
        exact ⟨capacity, bounded, by simp only; omega⟩
      · rintro _ ⟨⟩ due
        exact reading.due state live (due.imp_right fun none_left => absurd none_left last)

omit [Usize] in
theorem cloneSender (reading : Reading cap handles core receiver) :
    Reading cap (handles + 1) (cloneSender core) receiver := by
  cases live : core.shared with
  | none =>
    have same : Mpsc.cloneSender core = core := by simp [Mpsc.cloneSender, live]
    rw [same]
    exact ⟨reading.attached, by simp [live], reading.due⟩
  | some state =>
    have attached := reading.attached
    obtain ⟨capacity, bounded, counted⟩ := reading.fits state live
    simp only [Mpsc.cloneSender, live]
    simp only [live] at attached
    refine ⟨attached, ?_, ?_⟩
    · rintro _ ⟨⟩
      exact ⟨capacity, bounded, by simp only; omega⟩
    · rintro _ ⟨⟩ due
      refine reading.due state live (due.imp_right fun none_left => ?_)
      simp only at none_left
      omega

/-- With the receiver, its listener goes. -/
theorem dropReceiver (reading : Reading cap handles core receiver)
    (live : core.shared = some state) :
    Reading cap handles (dropReceiver receiver core) .idle := by
  have attached := reading.attached
  simp only [live, reader, Option.isSome_some, ite_true] at attached
  apply of_idle
  · simp only [Mpsc.dropReceiver, reader, Option.isSome_none]
    -- the event closes first, then the listener of a parked receiver goes
    cases parked : receiver with
    | idle =>
      subst parked
      simpa [Waiter.sleeper] using attached.close.leave (k := 0) (by simp [Waiter.sleeper])
    | parked p =>
      subst parked
      simpa [Waiter.sleeper] using attached.close.dropParked (sole_get? _) rfl
  · simp [Mpsc.dropReceiver]

omit [Usize] in
/-- The event tracks a parked receiver. -/
theorem tracks (reading : Reading cap handles core receiver) (live : core.shared = some state)
    (p : Sleeper W) (parked : receiver = .parked p) : core.receiverEvent.Tracks p := by
  have attached := reading.attached
  simp only [live, reader, Option.isSome_some, ite_true] at attached
  exact attached.tracked (sole_get? receiver) parked

/-- One poll of the receiver, whatever its outcome. -/
theorem pollNext {c c' : Channel W T} {r : Res T} {waker : W}
    (reading : Reading cap handles c.core c.receiver) (live : c.core.shared = some state)
    (polled : c.PollNext waker state c' r) : Reading cap handles c'.core c'.receiver := by
  have fits := reading.fits state live
  cases polled with
  | @asleep p parked silent =>
    have attached := reading.attached
    simp only [live, reader, Option.isSome_some, ite_true, parked] at attached
    refine ⟨?_, reading.fits, fun later opened due => ?_⟩
    · simpa [live, reader] using attached.await (sole_get? _) rfl silent waker
    · exact (reading.due later opened due).await (attached.tracked (sole_get? _) rfl) waker
  | took runnable first =>
    apply of_idle
    · simpa [reader] using reading.settle live runnable
    · rintro _ ⟨⟩
      have bounded := fits.bounded
      simp only [first, List.length_cons] at bounded
      exact ⟨fits.capacity, by simp only; omega, fits.counted⟩
  | ended runnable drained alone =>
    apply of_idle
    · simpa [reader, live] using reading.settle live runnable
    · exact reading.fits
  | parks runnable drained expected =>
    -- it parks because nothing is due
    have settled := reading.settle live runnable
    refine ⟨?_, reading.fits, fun later opened due => ?_⟩
    · simpa [reader, live] using settled.park (sole_get? .idle) rfl waker
    · cases live.symm.trans opened
      exact absurd due (by simp [State.Due, drained, expected])

end Reading

/-! ### What a call can do -/

inductive Channel.Stepped (c : Channel W T) : Op W T → Channel W T → Res T → Prop
  | pushes {value state} (handle : c.handles ≠ 0) (live : c.core.shared = some state)
      (room : state.queue.length < state.maxQueueSize) :
      Stepped c (.trySend value) { c with core := c.core.pushBack state value } (.tried (.ok ()))
  | declines {value} (handle : c.handles ≠ 0)
      (full : ∀ state, c.core.shared = some state →
        ¬state.queue.length < state.maxQueueSize) :
      Stepped c (.trySend value) c (.tried (.error value))
  | creates {value} (handle : c.handles ≠ 0) :
      Stepped c (.send value)
        { c with
          sends := c.sends.insert c.created { waiter := .idle, own := some value }
          created := c.created + 1 }
        (.created c.created)
  | sends {k waker send c' r} (live : c.sends.get? k = some send)
      (polled : c.PollSend k waker send c' r) : Stepped c (.pollSend k waker) c' r
  | leaves {k send} (live : c.sends.get? k = some send) (idle : send.waiter = .idle) :
      Stepped c (.dropSend k) { c with sends := c.sends.erase k } .done
  | leavesParked {k send p} (live : c.sends.get? k = some send)
      (parked : send.waiter = .parked p) :
      Stepped c (.dropSend k)
        { c with
          core := { c.core with
            senderEvent := EventListener.drop p.listener c.core.senderEvent }
          sends := c.sends.erase k }
        .done
  | clones (handle : c.handles ≠ 0) :
      Stepped c .cloneSender
        { c with core := cloneSender c.core, handles := c.handles + 1 } .done
  | parts (handle : c.handles ≠ 0) :
      Stepped c .dropSender { c with core := dropSender c.core, handles := c.handles - 1 } .done
  | receives {waker state c' r} (live : c.core.shared = some state)
      (polled : c.PollNext waker state c' r) : Stepped c (.pollNext waker) c' r
  | closes {state} (live : c.core.shared = some state) :
      Stepped c .dropReceiver
        { c with core := dropReceiver c.receiver c.core, receiver := .idle } .done

theorem Channel.step_spec {cap : Nat} {op : Op W T} (inv : c.Inv cap)
    (taken : c.step op = some (c', r)) : c.Stepped op c' r := by
  cases op with
  | trySend value =>
    simp only [Channel.step] at taken
    split at taken
    · cases taken
    next handle =>
      cases live : c.core.shared with
      | none =>
        simp only [Mpsc.trySend, live] at taken
        cases taken
        exact .declines handle (by simp [live])
      | some state =>
        simp only [Mpsc.trySend, live] at taken
        split at taken
        next room =>
          cases taken
          exact .pushes handle live room
        next full =>
          cases taken
          exact .declines handle fun later same => by
            cases live.symm.trans same
            exact full
  | send value =>
    simp only [Channel.step] at taken
    split at taken
    · cases taken
    next handle =>
      cases taken
      exact .creates handle
  | pollSend k waker =>
    obtain ⟨send, live, polled⟩ := Channel.pollSend_spec inv.sending taken
    exact .sends live polled
  | dropSend k =>
    simp only [Channel.step, Channel.dropSend] at taken
    split at taken
    · cases taken
    next send live =>
      cases taken
      -- an idle future has no listener to take along
      cases parked : send.waiter with
      | idle => exact .leaves live parked
      | parked p => exact .leavesParked live parked
  | cloneSender =>
    simp only [Channel.step] at taken
    split at taken
    · cases taken
    next handle =>
      cases taken
      exact .clones handle
  | dropSender =>
    simp only [Channel.step] at taken
    split at taken
    · cases taken
    next handle =>
      cases taken
      exact .parts handle
  | pollNext waker =>
    simp only [Channel.step] at taken
    split at taken
    · cases taken
    next present =>
      obtain ⟨state, live⟩ := Option.ne_none_iff_exists'.mp (by simpa using present)
      exact .receives live (Channel.pollNext_spec live (inv.reading.tracks live) taken)
  | dropReceiver =>
    simp only [Channel.step] at taken
    split at taken
    · cases taken
    next present =>
      obtain ⟨state, live⟩ := Option.ne_none_iff_exists'.mp (by simpa using present)
      cases taken
      exact .closes live

/-! ### Every call keeps the invariant -/

namespace Channel.Inv

variable {cap : Nat} {c c' : Channel W T} {r : Res T}

omit [Usize] in
theorem new : (channel cap : Channel W T).Inv cap where
  sending := Attached.new 0 _
  reading := by
    apply Reading.of_idle
    · have attached : Attached (Event.new : Inner W Unit) OrderedMap.empty 0 fun _ : Unit => True :=
        Attached.new 0 _
      exact attached.create () trivial
    · rintro _ ⟨⟩
      exact ⟨rfl, Nat.zero_le _, rfl⟩

theorem pollSend {k : Nat} {waker : W} {send : Send W T} (inv : c.Inv cap)
    (live : c.sends.get? k = some send) (polled : c.PollSend k waker send c' r) :
    c'.Inv cap := by
  cases polled with
  | asleep parked silent =>
    exact ⟨inv.sending.await live parked silent waker, inv.reading.frame _⟩
  | accepted runnable opened room holds =>
    have finished := inv.sending.finish live runnable
    exact ⟨by simpa using finished,
      (inv.reading.frame (send.waiter.settled c.core.senderEvent)).pushBack opened room _⟩
  | refused runnable gone =>
    exact ⟨inv.sending.finish live runnable, inv.reading.frame _⟩
  | parks runnable opened full =>
    exact ⟨inv.sending.repark live runnable waker, inv.reading.frame _⟩

theorem pollNext {waker : W} {state : State T} (inv : c.Inv cap)
    (live : c.core.shared = some state) (polled : c.PollNext waker state c' r) : c'.Inv cap := by
  have reading := inv.reading.pollNext live polled
  cases polled with
  | asleep => exact ⟨inv.sending, reading⟩
  | took =>
    refine ⟨?_, reading⟩
    simp only
    split
    · exact inv.sending.notify _
    · exact inv.sending
  | ended => exact ⟨inv.sending, reading⟩
  | parks => exact ⟨inv.sending, reading⟩

theorem step {op : Op W T} (inv : c.Inv cap) (taken : c.step op = some (c', r)) :
    c'.Inv cap := by
  cases Channel.step_spec inv taken with
  | @pushes value _ _ live room =>
    exact ⟨by simpa using inv.sending, inv.reading.pushBack live room value⟩
  | declines => exact inv
  | @creates value => exact ⟨inv.sending.create (some value) rfl, inv.reading⟩
  | sends live polled => exact inv.pollSend live polled
  | leaves live idle => exact ⟨inv.sending.leave (parkedIn_of_idle live idle), inv.reading⟩
  | leavesParked live parked => exact ⟨inv.sending.dropParked live parked, inv.reading.frame _⟩
  | clones => exact ⟨by simpa using inv.sending, inv.reading.cloneSender⟩
  | parts => exact ⟨by simpa using inv.sending, inv.reading.dropSender⟩
  | receives live polled => exact inv.pollNext live polled
  | closes live => exact ⟨(inv.sending.notify _).close, inv.reading.dropReceiver live⟩

end Channel.Inv

/-- The invariant holds after every run. -/
theorem Channel.inv_of_run {cap : Nat} {c : Channel W T} {ts} (run : (machine cap).Run ts c) :
    c.Inv cap :=
  run.invariant (by rintro _ rfl; exact Channel.Inv.new)
    fun _ _ _ _ inv taken => inv.step taken

end Eneste.Mpsc
