import Eneste.Channel.Invariant

/-!
# After the receiver is dropped

`Receiver`'s `drop` notifies every listener of the sender event, and then the state
goes. `Channel.Gone` is what it leaves behind for good: every parked `Send` future
holds a notification, and there is nothing left to send into.
-/

namespace Eneste.Mpsc

open Machine

section

variable [Usize] {W T : Type} {cap : Nat} {c c' : Channel W T} {r : Res T}

/-- There is no receiver, and every parked `Send` future is notified. -/
structure Channel.Gone (c : Channel W T) : Prop where
  closed : c.core.shared = none
  notified : ∀ k p, parkedIn c.sends k = some p →
    EventListener.isNotified p.listener c.core.senderEvent = true

theorem Channel.gone_of_dropReceiver (inv : c.Inv cap)
    (taken : c.step .dropReceiver = some (c', r)) : c'.Gone := by
  cases Channel.step_spec inv taken with
  | closes =>
    refine ⟨rfl, fun k p asleep => ?_⟩
    -- `notify(usize::MAX)` reaches every listener, and closing the event takes none back
    obtain ⟨_, entry, found, _⟩ := inv.sending.waiters.tracked k p asleep
    simp only [dropReceiver, EventListener.isNotified_close]
    exact EventListener.isNotified_notify_all inv.sending.wf rfl found

namespace Channel.Gone

omit [Usize] in
/-- Every live future can go on. -/
theorem runnable (gone : c.Gone) {k : Nat} {send : Send W T}
    (live : c.sends.get? k = some send) : send.waiter.Runnable c.core.senderEvent := by
  cases parked : send.waiter with
  | idle => trivial
  | parked p => exact gone.notified k p (parkedIn_of_parked live parked)

omit [Usize] in
/-- One future leaves; the others keep what they hold. -/
theorem settle (gone : c.Gone) (inv : c.Inv cap) {k : Nat} {send : Send W T}
    (live : c.sends.get? k = some send) {j : Nat} {q : Sleeper W} (other : j ≠ k)
    (asleep : parkedIn c.sends j = some q) :
    EventListener.isNotified q.listener (send.waiter.settled c.core.senderEvent) = true := by
  have notified := gone.notified j q asleep
  cases parked : send.waiter with
  | idle => exact notified
  | parked p =>
    have differs : q.listener ≠ p.listener := fun clash => other
      (inv.sending.waiters.distinct j k q p asleep (parkedIn_of_parked live parked) clash)
    simpa [Waiter.settled, EventListener.isNotified, Inner.consume,
      OrderedMap.get?_erase_of_ne _ differs] using notified

/-- A poll of a `Send` future completes it with the error. -/
theorem pollSend (gone : c.Gone) {k : Nat} {send : Send W T}
    (live : c.sends.get? k = some send) (waker : W) :
    c.step (.pollSend k waker) = some ({ c with
      core := { c.core with senderEvent := send.waiter.settled c.core.senderEvent }
      sends := c.sends.erase k }, .sent (.ready (.error .channelError))) := by
  have polled := Waiter.poll_runnable Core.senderField (sendAttempt send.own) waker
    (s := c.core) (gone.runnable live)
  simp only [Waiter.finishOrPark, sendAttempt, Core.senderField, gone.closed] at polled
  simp only [Channel.step, Channel.pollSend, live, Core.senderField, polled, gone.closed]

theorem trySend (gone : c.Gone) (value : T) :
    Mpsc.trySend value c.core = (.error value, c.core) := by
  simp [Mpsc.trySend, gone.closed]

omit [Usize] in
theorem isClosed (gone : c.Gone) : Mpsc.isClosed c.core = true := by
  simp [Mpsc.isClosed, gone.closed]

omit [Usize] in
theorem cloneSender (gone : c.Gone) : Mpsc.cloneSender c.core = c.core := by
  simp [Mpsc.cloneSender, gone.closed]

theorem dropSender (gone : c.Gone) : Mpsc.dropSender c.core = c.core := by
  simp [Mpsc.dropSender, gone.closed]

/-- No call brings the receiver back or takes a notification from a parked future. -/
theorem step (gone : c.Gone) (inv : c.Inv cap) {op : Op W T}
    (taken : c.step op = some (c', r)) : c'.Gone := by
  cases Channel.step_spec inv taken with
  | declines => exact gone
  | creates =>
    refine ⟨gone.closed, fun k p asleep => gone.notified k p ?_⟩
    rwa [inv.sending.parkedIn_create] at asleep
  | @sends k waker send _ _ live =>
    cases (gone.pollSend live waker).symm.trans taken
    refine ⟨gone.closed, fun j q asleep => ?_⟩
    rw [parkedIn_erase] at asleep
    split at asleep
    · cases asleep
    next other => exact gone.settle inv live other asleep
  | leaves =>
    refine ⟨gone.closed, fun j q asleep => ?_⟩
    rw [parkedIn_erase] at asleep
    split at asleep
    · cases asleep
    · exact gone.notified j q asleep
  | @leavesParked k send p live parked =>
    refine ⟨gone.closed, fun j q asleep => ?_⟩
    rw [parkedIn_erase] at asleep
    split at asleep
    · cases asleep
    next other =>
      have differs : q.listener ≠ p.listener := fun clash => other
        (inv.sending.waiters.distinct j k q p asleep (parkedIn_of_parked live parked) clash)
      exact (EventListener.isNotified_drop inv.sending.wf differs).mpr
        (.inl (gone.notified j q asleep))
  | clones => exact ⟨by simp [gone.cloneSender, gone.closed], by simpa using gone.notified⟩
  | parts => exact ⟨by simp [gone.dropSender, gone.closed], by simpa using gone.notified⟩
  | pushes _ live | receives live | closes live =>
    -- there is nothing left to send into or to receive from
    rw [gone.closed] at live
    cases live

end Channel.Gone

variable {before later : List (Transition (Channel W T) (Op W T) (Res T))}
  {t : Transition (Channel W T) (Op W T) (Res T)}

/-- The channel stays gone. -/
theorem gone_since (run : (machine cap).Run (before ++ t :: later) c)
    (drops : t.act = .dropReceiver) : c.Gone := by
  apply run.since (P := fun _ c => c.Gone)
  · intro prior taken
    rw [drops] at taken
    exact Channel.gone_of_dropReceiver (Channel.inv_of_run prior) taken
  · intro us u prior gone taken
    exact gone.step (Channel.inv_of_run prior) taken

/-- Once the receiver is dropped every parked sender is woken, every `Send` future
fails at its next poll, nothing is sent, and senders come and go freely. -/
theorem receiver_gone (run : (machine cap).Run (before ++ t :: later) c)
    (drops : t.act = .dropReceiver) :
    (∀ k p, parkedIn c.sends k = some p → c.core.senderEvent.Woke p) ∧
    (∀ k send waker, c.sends.get? k = some send →
      ∃ c', c.step (.pollSend k waker) = some (c', .sent (.ready (.error .channelError))) ∧
        c'.sends.get? k = none) ∧
    isClosed c.core = true ∧
    (c.handles ≠ 0 →
      (∀ value, c.step (.trySend value) = some (c, .tried (.error value))) ∧
      c.step .cloneSender = some ({ c with handles := c.handles + 1 }, .done) ∧
      c.step .dropSender = some ({ c with handles := c.handles - 1 }, .done)) := by
  have gone := gone_since run drops
  have sending := (Channel.inv_of_run run).sending
  refine ⟨fun k p asleep => ?_, fun k send waker live => ?_, gone.isClosed, fun alive => ?_⟩
  · exact ((sending.waiters.tracked k p asleep).roused (gone.notified k p asleep)).2
  · exact ⟨_, gone.pollSend live waker, OrderedMap.get?_erase_self _ _⟩
  · simp [Channel.step, alive, gone.trySend, gone.cloneSender, gone.dropSender]

end

/-- One parked sender is notified by a pop, another is not, and a third future was never
polled when the receiver goes; a `Sender` is cloned afterwards. -/
theorem receiver_gone_mixed :
    ∃ before : List (Transition (Channel Nat Nat) (Op Nat Nat) (Res Nat)), ∃ t later c,
    (machine 1).Run (before ++ t :: later) c ∧
    before.map Transition.act = [.trySend 5, .send 1, .send 2, .send 3, .pollSend 0 7,
      .pollSend 1 8, .pollNext 9] ∧
    t.act = .dropReceiver ∧ later.map Transition.act = [.cloneSender, .pollSend 0 7] ∧
    (∃ p, parkedIn c.sends 1 = some p ∧ c.core.senderEvent.Woke p) ∧
    (∃ c', c.step (.pollSend 2 7) = some (c', .sent (.ready (.error .channelError)))) ∧
    c.step (.trySend 6) = some (c, .tried (.error 6)) := by
  obtain ⟨before, t, later, c, run, first, drops, rest, asleep, live, alive⟩ :=
    Machine.exists_run_at (m := machine (W := Nat) (T := Nat) 1)
      (P := fun _ _ _ c => (parkedIn c.sends 1).isSome ∧ (c.sends.get? 2).isSome ∧ c.handles ≠ 0)
      [.trySend 5, .send 1, .send 2, .send 3, .pollSend 0 7, .pollSend 1 8, .pollNext 9]
      .dropReceiver [.cloneSender, .pollSend 0 7] rfl (by decide)
  obtain ⟨p, parked⟩ := Option.isSome_iff_exists.mp asleep
  obtain ⟨send, found⟩ := Option.isSome_iff_exists.mp live
  obtain ⟨woken, fails, _, free⟩ := receiver_gone run drops
  refine ⟨before, t, later, c, run, first, drops, rest, ⟨p, parked, woken 1 p parked⟩, ?_,
    (free alive).1 6⟩
  obtain ⟨c', failed, _⟩ := fails 2 send 7 found
  exact ⟨c', failed⟩

end Eneste.Mpsc
