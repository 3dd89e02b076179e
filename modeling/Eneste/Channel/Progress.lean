import Eneste.Channel.Invariant

/-!
# Who is woken

The receiver never misses a value or the end of the stream. Blocked senders can:
`Receiver::poll_next` notifies one of them when the queue stops being full, and a
sender that gets its slot notifies no other, however many slots are free by then.
-/

namespace Eneste.Mpsc

/-! ### The receiver -/

section Receiver

variable [Usize] {W T : Type} {cap : Nat} {c : Channel W T}

/-- A runnable receiver that is due gets its answer. -/
theorem Channel.pollNext_ready {state : State T} (live : c.core.shared = some state)
    (runnable : c.receiver.Runnable c.core.receiverEvent) (due : state.Due) (waker : W) :
    ∃ c' x, c.pollNext waker = some (c', .next (.ready x)) := by
  have polled := Waiter.poll_runnable Core.receiverField recvAttempt waker (s := c.core) runnable
  simp only [Waiter.finishOrPark, recvAttempt, Core.receiverField, live] at polled
  unfold Channel.pollNext
  simp only [Core.receiverField] at *
  rw [polled]
  cases stored : state.queue with
  | cons value rest => exact ⟨_, some value, rfl⟩
  | nil =>
    have alone : state.senders = 0 := due.resolve_left (fun filled => filled stored)
    simp only [alone, beq_self_eq_true, ite_true]
    exact ⟨_, none, rfl⟩

/-- While there is a `Receiver`, the counter is the number of `Sender`s, and a parked
receiver with something to report has been woken and is answered at its next poll. -/
theorem receiver_progress {ts} (run : (machine cap).Run ts c) (state : State T)
    (live : c.core.shared = some state) :
    state.senders = c.handles ∧
    ∀ p, c.receiver = .parked p → state.queue ≠ [] ∨ state.senders = 0 →
      c.core.receiverEvent.Woke p ∧
      ∀ waker, ∃ c' x, c.step (.pollNext waker) = some (c', .next (.ready x)) := by
  have reading := (Channel.inv_of_run run).reading
  refine ⟨(reading.fits state live).counted, fun p parked due => ?_⟩
  have attached := reading.attached
  simp only [live, reader, Option.isSome_some, ite_true, parked] at attached
  have asleep : parkedIn (sole (.parked p)) 0 = some p := by simp [Waiter.sleeper]
  -- the receiver is the only one parked on its event, so it is the one that was roused
  obtain ⟨k, q, present, roused⟩ :=
    (attached.waiters.alert_iff attached.wf).mp (reading.due state live due) ⟨0, p, asleep⟩
  have same : q = p := by
    simp only [parkedIn_sole, Waiter.sleeper] at present
    split at present <;> simp_all
  subst same
  refine ⟨roused.2, fun waker => ?_⟩
  -- its notification is not consumed, so the next poll runs the `Idle` arm
  have runnable : c.receiver.Runnable c.core.receiverEvent := by
    rw [parked]
    exact roused.1
  simpa [Channel.step, live] using Channel.pollNext_ready live runnable due waker

end Receiver

/-- A receiver that parked first is woken by the first value. -/
theorem receiver_progress_first : ∃ ts, ∃ c : Channel Nat Nat, (machine 1).Run ts c ∧
    ts.map Machine.Transition.act = [.pollNext 9, .trySend 1] ∧
    ∃ p, c.receiver = .parked p ∧ c.core.receiverEvent.Woke p := by
  obtain ⟨ts, c, run, acts, ⟨state, live, filled⟩, parked⟩ := Machine.exists_run
    (m := machine (W := Nat) (T := Nat) 1)
    (P := fun _ c => (∃ state ∈ c.core.shared, state.queue ≠ []) ∧ c.receiver.sleeper.isSome)
    [.pollNext 9, .trySend 1] rfl (by decide)
  refine ⟨ts, c, run, acts, ?_⟩
  cases stored : c.receiver with
  | idle => simp [stored, Waiter.sleeper] at parked
  | parked p =>
    exact ⟨p, rfl, ((receiver_progress run state live).2 p stored (Or.inl filled)).1⟩

/-! ### Blocked senders -/

section Senders

variable [Usize] {W T : Type} {cap : Nat} {c c' : Channel W T}

/-- If there is room and a `Send` future is parked, then one of the parked futures is
notified and has been woken. -/
def Channel.SendersAwake (c : Channel W T) : Prop :=
  ∀ state, c.core.shared = some state → state.queue.length < state.maxQueueSize →
    (∃ k p, parkedIn c.sends k = some p) →
    ∃ k p, parkedIn c.sends k = some p ∧ c.core.senderEvent.Roused p

/-- A woken `Send` future is polled while there are two free slots, and none of the
other parked ones is notified. -/
def Channel.Strands (c : Channel W T) (op : Op W T) : Prop :=
  ∃ k waker p state, op = .pollSend k waker ∧ parkedIn c.sends k = some p ∧
    EventListener.isNotified p.listener c.core.senderEvent = true ∧
    c.core.shared = some state ∧ state.queue.length + 1 < state.maxQueueSize ∧
    (∃ j q, j ≠ k ∧ parkedIn c.sends j = some q) ∧
    ∀ j q, j ≠ k → parkedIn c.sends j = some q →
      EventListener.isNotified q.listener c.core.senderEvent = false

/-- `SendersAwake` in terms of the event's counters. -/
def Channel.Alert (c : Channel W T) : Prop :=
  ∀ state, c.core.shared = some state → state.queue.length < state.maxQueueSize →
    c.core.senderEvent.Alert

omit [Usize] in
theorem Channel.Inv.awake_iff (inv : c.Inv cap) : c.SendersAwake ↔ c.Alert := by
  unfold Channel.SendersAwake Channel.Alert
  simp only [← inv.sending.waiters.alert_iff inv.sending.wf]

omit [Usize] in
/-- A longer queue leaves blocked senders with no more to wait for. -/
theorem Channel.Alert.frame (alert : c.Alert)
    (event : c'.core.senderEvent = c.core.senderEvent)
    (grown : ∀ later, c'.core.shared = some later → ∃ state, c.core.shared = some state ∧
      state.queue.length ≤ later.queue.length ∧ later.maxQueueSize = state.maxQueueSize) :
    c'.Alert := by
  intro later opened room
  obtain ⟨state, live, longer, capacity⟩ := grown later opened
  rw [event]
  exact alert state live (by omega)

omit [Usize] in
/-- Nothing about the state changes but its count of senders. -/
theorem Channel.Alert.same (alert : c.Alert) (event : c'.core.senderEvent = c.core.senderEvent)
    (kept : ∀ later, c'.core.shared = some later → ∃ senders, c.core.shared =
      some { later with senders := senders }) : c'.Alert := by
  apply alert.frame event
  intro later opened
  obtain ⟨senders, live⟩ := kept later opened
  exact ⟨_, live, le_refl _, rfl⟩

/-- Polling a `Send` future keeps blocked senders awake unless it strands them. -/
theorem Channel.Alert.pollSend_iff {k : Nat} {waker : W} {send : Send W T} {r : Res T}
    (inv : c.Inv cap) (alert : c.Alert) (live : c.sends.get? k = some send)
    (polled : c.PollSend k waker send c' r) : c'.Alert ↔ ¬c.Strands (.pollSend k waker) := by
  cases polled with
  | @asleep p parked silent =>
    have present := parkedIn_of_parked live parked
    refine iff_of_true (fun state opened room =>
      (alert state opened room).await (inv.sending.tracked live parked) waker) ?_
    rintro ⟨_, _, q, _, ⟨⟩, found, notified, _⟩
    cases present.symm.trans found
    rw [silent] at notified
    cases notified
  | refused runnable gone =>
    apply iff_of_true (fun state opened _ => by simp [gone] at opened)
    rintro ⟨_, _, _, state, ⟨⟩, _, _, opened, _⟩
    simp [gone] at opened
  | @parks state runnable opened full =>
    refine iff_of_true (fun later kept room => ?_) ?_
    · cases opened.symm.trans kept
      exact absurd room full
    · rintro ⟨_, _, _, later, ⟨⟩, _, _, kept, room, _⟩
      cases opened.symm.trans kept
      omega
  | @accepted state value runnable opened room holds =>
    cases parked : send.waiter with
    | idle =>
      -- it held no notification, so none is lost by its success
      refine iff_of_true (alert.frame (by simp [Waiter.settled]) ?_) ?_
      · intro later grown
        rw [Core.pushBack_shared] at grown
        cases grown
        exact ⟨state, opened, by simp, rfl⟩
      · rintro ⟨_, _, _, _, ⟨⟩, found, _⟩
        simp [parkedIn_of_idle live parked] at found
    | parked p =>
      have present := parkedIn_of_parked live parked
      have notified : EventListener.isNotified p.listener c.core.senderEvent = true := by
        simpa [parked, Waiter.Runnable] using runnable
      -- its notification is consumed, and `pushBack` notifies no sender in its place
      have rest := inv.sending.waiters.alert_consume_iff inv.sending.wf present notified
      have after : Channel.Alert (c := { c with
          core := { c.core with
            senderEvent := (Waiter.parked p).settled c.core.senderEvent }.pushBack state value
          sends := c.sends.erase k }) ↔
          (state.queue.length + 1 < state.maxQueueSize →
            (c.core.senderEvent.consume p.listener).Alert) := by
        simp [Channel.Alert, Waiter.settled]
      rw [after, rest]
      constructor
      · -- somebody else was notified, so the poll does not strand them
        rintro kept ⟨_, _, q, later, ⟨⟩, found, _, same, free, others, silent⟩
        cases opened.symm.trans same
        obtain ⟨j, awake, other, there, notified⟩ := kept free others
        simp [silent j awake other there] at notified
      · -- with two free slots and nobody else notified, the poll would strand them
        intro safe free others
        by_contra none_notified
        push Not at none_notified
        exact safe ⟨k, waker, p, state, rfl, present, notified, opened, free, others,
          fun j q other there => by simpa using none_notified j q other there⟩

/-- A pop notifies a blocked sender if the queue was full. -/
theorem Channel.Alert.pollNext {waker : W} {state : State T} {r : Res T} (inv : c.Inv cap)
    (alert : c.Alert) (live : c.core.shared = some state)
    (polled : c.PollNext waker state c' r) : c'.Alert := by
  have fits := inv.reading.fits state live
  cases polled with
  | asleep => exact alert
  | ended => exact alert
  | parks => exact alert
  | took runnable first =>
    rintro _ ⟨⟩ room
    simp only
    split
    · -- the pop ends a full queue and notifies one sender
      exact inv.sending.wf.alert_notify Nat.one_pos
    next partly =>
      -- the queue was not full before, so there was room already
      have bounded := fits.bounded
      have capacity := fits.capacity
      exact alert state live (by omega)

/-- Every other call keeps blocked senders awake. -/
theorem Channel.Alert.step {op : Op W T} {r : Res T} (inv : c.Inv cap) (alert : c.Alert)
    (other : ∀ k waker, op ≠ .pollSend k waker) (taken : c.step op = some (c', r)) :
    c'.Alert := by
  cases Channel.step_spec inv taken with
  | @sends k waker => exact absurd rfl (other k waker)
  | @pushes value state _ live =>
    apply alert.frame (by simp)
    intro later grown
    rw [Core.pushBack_shared] at grown
    cases grown
    exact ⟨state, live, by simp, rfl⟩
  | declines | creates | leaves => exact alert
  | leavesParked live parked =>
    -- the notification of a dropped future passes on
    intro state opened room
    exact (alert state opened room).drop inv.sending.wf _
  | clones => exact alert.same (by simp) fun _ => cloneSender_shared
  | parts => exact alert.same (by simp) fun _ => dropSender_shared
  | receives live polled => exact Channel.Alert.pollNext inv alert live polled
  | closes => rintro _ ⟨⟩

/-- A call keeps blocked senders awake unless it strands them. -/
theorem Channel.Alert.step_iff {op : Op W T} {r : Res T} (inv : c.Inv cap) (alert : c.Alert)
    (taken : c.step op = some (c', r)) : c'.Alert ↔ ¬c.Strands op := by
  by_cases poll : ∃ k waker, op = .pollSend k waker
  · obtain ⟨k, waker, rfl⟩ := poll
    obtain ⟨send, live, polled⟩ := Channel.pollSend_spec inv.sending taken
    exact Channel.Alert.pollSend_iff inv alert live polled
  · apply iff_of_true (alert.step inv (fun k waker same => poll ⟨k, waker, same⟩) taken)
    rintro ⟨k, waker, _, _, same, _⟩
    exact poll ⟨k, waker, same⟩

/-- Blocked senders stay awake along a run exactly if no poll strands them. -/
theorem blocked_senders_proceed_iff {ts} (run : (machine cap).Run ts c) :
    (c.SendersAwake ∧ ∀ t ∈ ts, t.before.SendersAwake) ↔
      ∀ t ∈ ts, ¬t.before.Strands t.act := by
  refine run.safe_iff_guard (Channel.Inv cap) Channel.SendersAwake (fun c op => ¬c.Strands op)
    (fun _ _ => Channel.inv_of_run) ?_ ?_
  · rintro _ rfl
    rw [Channel.Inv.new.awake_iff]
    -- nobody is parked yet
    intro state _ _ someone
    exact absurd someone (Nat.lt_irrefl 0)
  · intro s a s' r inv awake taken
    rw [(inv.step taken).awake_iff]
    exact (inv.awake_iff.mp awake).step_iff inv taken

end Senders

/-- Capacity two: two sends fill the queue, two more park, two values are taken, and the
first parked send is polled. It was the only one to be notified. -/
theorem blocked_senders_stranded : ∃ ts, ∃ c : Channel Nat Nat, (machine 2).Run ts c ∧
    ts.map Machine.Transition.act =
      [.trySend 1, .trySend 2, .send 3, .send 4, .pollSend 0 0, .pollSend 1 1,
        .pollNext 9, .pollNext 9, .pollSend 0 0] ∧
    ¬c.SendersAwake := by
  obtain ⟨ts, c, run, acts, ⟨state, live, room⟩, someone, silent⟩ := Machine.exists_run
    (m := machine (W := Nat) (T := Nat) 2)
    (P := fun _ c => (∃ state ∈ c.core.shared, state.queue.length < state.maxQueueSize) ∧
      0 < c.core.senderEvent.listeners.size ∧ c.core.senderEvent.notified = 0)
    [.trySend 1, .trySend 2, .send 3, .send 4, .pollSend 0 0, .pollSend 1 1,
      .pollNext 9, .pollNext 9, .pollSend 0 0] rfl (by decide)
  refine ⟨ts, c, run, acts, fun awake => ?_⟩
  -- no notification is outstanding, so the parked send cannot have been woken
  have alert := (Channel.inv_of_run run).awake_iff.mp awake state live room someone
  omega

/-- With capacity one no poll can strand anybody: there are never two free slots. -/
theorem blocked_sender_proceeds : ∃ ts, ∃ c : Channel Nat Nat, (machine 1).Run ts c ∧
    ts.map Machine.Transition.act =
      [.send 1, .send 2, .pollSend 0 0, .pollSend 1 1, .pollNext 9] ∧
    ∃ k p, parkedIn c.sends k = some p ∧ c.core.senderEvent.Roused p := by
  obtain ⟨ts, c, run, acts, ⟨state, live, room⟩, parked, small⟩ := Machine.exists_run
    (m := machine (W := Nat) (T := Nat) 1)
    (P := fun ts c => (∃ state ∈ c.core.shared, state.queue.length < state.maxQueueSize) ∧
      (parkedIn c.sends 1).isSome ∧
      ∀ t ∈ ts, ∀ state ∈ t.before.core.shared, state.maxQueueSize ≤ 1)
    [.send 1, .send 2, .pollSend 0 0, .pollSend 1 1, .pollNext 9] rfl (by decide)
  refine ⟨ts, c, run, acts, ?_⟩
  obtain ⟨p, asleep⟩ := Option.isSome_iff_exists.mp parked
  refine ((blocked_senders_proceed_iff run).mpr ?_).1 state live room ⟨1, p, asleep⟩
  rintro t member ⟨_, _, _, before, _, _, _, opened, free, _⟩
  have capacity := small t member before opened
  omega

end Eneste.Mpsc
