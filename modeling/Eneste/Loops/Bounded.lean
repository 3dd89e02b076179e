import Eneste.Channel.Invariant
import Eneste.Event.Bookkeeping
import Eneste.Lock.RwLock
import Eneste.PollLock.PollMutex

/-!
# Loops of bounded length

The hand-written polls go round a loop as long as a listener is notified. A listener that
was registered by the same poll is not, so a few turns are enough in whatever state the
event is, and a poll that returns `Pending` has left its waker with the listener.
-/

namespace Eneste

variable {W T : Type}

/-- The loop returns in at most so many turns, and `Pending` only where `registered` holds. -/
def ReturnsWithin {σ ρ : Type} (turns : Nat) (body : σ → Option (LoopTurn σ (Poll ρ))) (s : σ)
    (registered : σ → Prop) : Prop :=
  ∃ result s', LoopTurn.loop body turns s = some (result, s') ∧
    (result = .pending → registered s')

/-! ### The wait loop -/

section

variable {σ ρ : Type} {event : EventField σ W} {attempt : σ → Attempt ρ σ} {waker : W}

/-- Where a poll of the wait loop leaves its waker. -/
def WaitState.Registered (event : EventField σ W) (waker : W) (s : σ × WaitState) : Prop :=
  ∃ id, s.2 = .waiting id ∧ (event.get s.1).Registered waker id

private theorem idle_returns {s : σ} (safe : attempt s ≠ .panic) :
    ∃ result s', pollIdle event attempt waker s = some (result, s') ∧
      (result = .pending → WaitState.Registered event waker s') := by
  unfold pollIdle
  cases arm : attempt s with
  | ready result s' => exact ⟨_, _, rfl, by simp⟩
  | wait =>
    refine ⟨_, _, rfl, fun _ => ⟨_, rfl, ?_⟩⟩
    rw [event.get_set]
    exact (event.get s).registered_register waker
  | panic => exact absurd arm safe

/-- The wait loop returns if its listener is one of the event and its `Idle` arm does not
panic. -/
theorem wait_returns {s : σ} {state : WaitState}
    (present : ∀ id, state = .waiting id → ∃ entry, (event.get s).listeners.get? id = some entry)
    (safe : ∀ inner, attempt (event.set s inner) ≠ .panic) :
    ReturnsWithin 4 (waitTurn event attempt waker) (s, state)
      (WaitState.Registered event waker) := by
  change ∃ result s', waitPoll event attempt waker s state = some (result, s') ∧ _
  cases state with
  | idle =>
    rw [waitPoll_idle]
    exact idle_returns (event.set_get s ▸ safe (event.get s))
  | waiting id =>
    obtain ⟨⟨old, value⟩, found⟩ := present id rfl
    cases value with
    | some notification =>
      rw [waitPoll_notified event attempt waker found]
      exact idle_returns (safe _)
    | none =>
      rw [waitPoll_asleep event attempt waker found]
      refine ⟨_, _, rfl, fun _ => ⟨id, rfl, ?_⟩⟩
      rw [event.get_set]
      exact (event.get s).registered_await waker id

end

/-- A future of a component waits on a listener of the component's event. -/
theorem Attached.present {δ : Type} {event : Inner W Unit} {futures : OrderedMap Nat (Future W δ)}
    {created : Nat} {valid : δ → Prop} (side : Attached event futures created valid) {k : Nat}
    {future : Future W δ} (live : futures.get? k = some future) (id : Nat)
    (waits : future.waiter.state = .waiting id) :
    ∃ entry, event.listeners.get? id = some entry := by
  cases parked : future.waiter with
  | idle => simp [parked, Waiter.state] at waits
  | parked p =>
    obtain ⟨_, entry, found, _⟩ := side.tracked live parked
    simp only [parked, Waiter.state, WaitState.waiting.injEq] at waits
    exact ⟨entry, waits ▸ found⟩

/-! ### Locks -/

section

variable {S K : Type}

/-- One poll of any future of the lock. -/
def Users.Bounded (lock : Lock W S K) (u : Users W S K) : Prop :=
  ∀ k f waker, u.futures.get? k = some f →
    ReturnsWithin 4 (waitTurn lock.event (lock.attempt f.own) waker) (u.lock, f.waiter.state)
      (WaitState.Registered lock.event waker)

theorem Lock.attempt_ne_panic (lock : Lock W S K) (kind : K) (s : S) :
    lock.attempt kind s ≠ .panic := by
  unfold Lock.attempt
  split <;> simp

theorem Users.Tied.bounded {lock : Lock W S K} {u : Users W S K} (tied : Tied lock u) :
    u.Bounded lock := fun _ f _ live =>
  wait_returns (tied.present live) fun _ => lock.attempt_ne_panic f.own _

end

/-! ### The channel -/

namespace Mpsc

variable [Usize]

/-- One poll of any `Send` future, and of the `Receiver`. -/
def Channel.Bounded (c : Channel W T) : Prop :=
  (∀ k send waker, c.sends.get? k = some send →
    ReturnsWithin 4 (waitTurn Core.senderField (sendAttempt send.own) waker)
      (c.core, send.waiter.state) (WaitState.Registered Core.senderField waker)) ∧
  ∀ waker, c.core.shared.isSome = true →
    ReturnsWithin 4 (waitTurn Core.receiverField recvAttempt waker)
      (c.core, c.receiver.state) (WaitState.Registered Core.receiverField waker)

/-- The value is present as long as the future has not completed. -/
private theorem sendAttempt_ne_panic {value : Option T} (present : value.isSome = true)
    (core : Core W T) : sendAttempt value core ≠ .panic := by
  obtain ⟨value, rfl⟩ := Option.isSome_iff_exists.mp present
  unfold sendAttempt
  split
  · simp
  · split <;> simp

private theorem recvAttempt_ne_panic {core : Core W T} (alive : core.shared.isSome = true) :
    recvAttempt core ≠ .panic := by
  obtain ⟨state, live⟩ := Option.isSome_iff_exists.mp alive
  simp only [recvAttempt, live]
  split
  · simp
  · split <;> simp

theorem Channel.Inv.bounded {cap : Nat} {c : Channel W T} (inv : c.Inv cap) : c.Bounded := by
  constructor
  · intro k send waker live
    exact wait_returns (inv.sending.present live) fun _ =>
      sendAttempt_ne_panic (inv.sending.holds k send live) _
  · intro waker alive
    have attached := inv.reading.attached
    simp only [reader, alive, ite_true] at attached
    exact wait_returns (attached.present (sole_get? c.receiver)) fun _ =>
      recvAttempt_ne_panic alive

end Mpsc

/-! ### Streams -/

/-- Where a stream that returns `Pending` leaves its waker. -/
def StreamState.Registered (waker : W) (s : Inner W T × StreamState) : Prop :=
  ∃ id, s.2 = .listening id ∧ s.1.Registered waker id

namespace Handles

/-- One poll of any `EventStream` or `EmitterStream`. -/
def Bounded (h : Handles W T) : Prop :=
  ∀ name handle waker, h.live.get? name = some handle → handle.isStream = true →
    ReturnsWithin 4 (streamTurn (h.upgrades handle) waker) (h.inner, handle.state)
      (StreamState.Registered waker)

theorem Inv.bounded {h : Handles W T} (inv : h.Inv) : h.Bounded := by
  intro name handle waker held _
  have present : ∀ id, handle.state = .listening id →
      ∃ entry, h.inner.listeners.get? id = some entry := fun id listening =>
    inv.streams.present name id (by rw [states_of_get? held, listening])
  change ∃ result s', streamPoll (h.upgrades handle) waker h.inner handle.state =
    some (result, s') ∧ _
  cases polled : streamPoll (h.upgrades handle) waker h.inner handle.state with
  | none => exact absurd polled (streamPoll_ne_none _ waker present)
  | some out =>
    obtain ⟨result, inner, state⟩ := out
    refine ⟨result, _, rfl, ?_⟩
    rintro rfl
    have spec := streamPoll_spec _ waker present polled
    -- only a stream that listens returns `Pending`
    generalize handle.state = before at spec
    cases state with
    | listening id => exact ⟨id, rfl, spec.listens.2⟩
    | next | done => cases spec

end Handles

/-! ### The mutex with a poll method -/

section

variable {σ ρ : Type} {event : EventField σ W} {attempt : σ → Attempt ρ σ} {waker : W}

/-- What the wait loop returns is what the future returns. -/
theorem Waiter.poll_ne_none {s : σ} {future : Waiter W}
    (tracks : ∀ p, future = .parked p → (event.get s).Tracks p)
    (safe : ∀ inner, attempt (event.set s inner) ≠ .panic) :
    future.poll event attempt waker s ≠ none := by
  have finishes : ∀ inner, Waiter.finishOrPark event attempt waker (event.set s inner) ≠ none := by
    intro inner
    unfold Waiter.finishOrPark
    cases arm : attempt (event.set s inner) with
    | ready | wait => simp
    | panic => exact absurd arm (safe inner)
  cases future with
  | idle =>
    rw [Waiter.poll_idle, ← event.set_get s]
    exact finishes _
  | parked p =>
    cases notified : EventListener.isNotified p.listener (event.get s) with
    | true =>
      rw [Waiter.poll_notified _ _ _ notified]
      exact finishes _
    | false => simp [Waiter.poll_asleep _ _ _ (tracks p rfl) notified]

end

namespace Users

variable {S K : Type} [DecidableEq K] {lock : Lock W S K} {u u' : Users W S K}

/-- A live future can be polled. -/
theorem Tied.poll_returns (tied : Tied lock u) {k : Nat} {f : Future W K}
    (live : u.futures.get? k = some f) (waker : W) :
    ∃ u' result, u.step lock (.poll k waker) = some (u', .polled result) := by
  have total : f.waiter.poll lock.event (lock.attempt f.own) waker u.lock ≠ none :=
    Waiter.poll_ne_none (fun _ parked => tied.tracked live parked)
      fun _ => lock.attempt_ne_panic f.own _
  simp only [Users.step, Users.poll, live]
  rcases polled : f.waiter.poll lock.event (lock.attempt f.own) waker u.lock with
    _ | ⟨_ | _, s, waiter⟩
  · exact absurd polled total
  · exact ⟨_, _, rfl⟩
  · exact ⟨_, _, rfl⟩

/-- A future stays alive while others are polled and dropped. -/
theorem Tied.live_step (tied : Tied lock u) {op : Op W K} {r : Res K} {k : Nat}
    (polls : ∀ waker, op ≠ .poll k waker) (drops : op ≠ .dropFuture k)
    (live : ∃ f, u.futures.get? k = some f) (taken : u.step lock op = some (u', r)) :
    ∃ f, u'.futures.get? k = some f := by
  obtain ⟨f, live⟩ := live
  cases op with
  | lock kind =>
    cases taken
    simp only [OrderedMap.get?_insert]
    split
    · exact ⟨_, rfl⟩
    · exact ⟨f, live⟩
  | poll j waker =>
    have apart : k ≠ j := fun same => polls waker (same ▸ rfl)
    obtain ⟨g, _, polled⟩ := poll_spec tied taken
    cases polled with
    | asleep | parks => exact ⟨f, (OrderedMap.get?_insert_of_ne _ _ apart).trans live⟩
    | acquired => exact ⟨f, (OrderedMap.get?_erase_of_ne _ apart).trans live⟩
  | dropFuture j =>
    have apart : k ≠ j := fun same => drops (same ▸ rfl)
    rcases dropFuture_cases taken with ⟨_, rfl⟩ | ⟨_, _, _, _, rfl⟩
    · exact ⟨f, (OrderedMap.get?_erase_of_ne _ apart).trans live⟩
    · exact ⟨f, (OrderedMap.get?_erase_of_ne _ apart).trans live⟩
  | dropGuard kind =>
    obtain ⟨_, s, _, rfl⟩ := dropGuard_cases taken
    exact ⟨f, live⟩

end Users

namespace PollMutex

open AsyncMutex (asyncMutex)

/-- The stored future has a listener with the waker. -/
def Registered (waker : W) (m : PollMutex W) : Prop :=
  ∃ k p, m.stored = some k ∧ parkedIn m.value.futures k = some p ∧
    m.value.lock.event.Registered waker p.listener

variable [Usize] {m m' : PollMutex W}

/-- One call of `poll_lock`. -/
def Bounded (m : PollMutex W) : Prop :=
  ∀ waker, m.alive = true → ReturnsWithin 4 (pollLockTurn waker) m (Registered waker)

private theorem tied_of_users {ts} (run : machine.Run ts m) : Users.Tied asyncMutex m.value := by
  obtain ⟨us, users⟩ := refines_users run
  exact Users.tied_of_run AsyncMutex.lawful AsyncMutex.tied_new users

private theorem live_of_pending {k : Nat} {waker : W}
    {u u' : Users W (AsyncMutex W) AsyncMutex.Kind} (tied : Users.Tied asyncMutex u)
    (taken : u.step asyncMutex (.poll k waker) = some (u', .polled .pending)) :
    ∃ f, u'.futures.get? k = some f := by
  obtain ⟨p, sleeps, _⟩ := Users.registered_of_pending tied taken
  obtain ⟨f, live, _⟩ := Option.bind_eq_some_iff.mp sleeps
  exact ⟨f, live⟩

/-- The stored future has not been completed or dropped behind the mutex's back. -/
theorem stored_live {ts} (run : machine.Run ts m) :
    ∀ k, m.stored = some k → ∃ f, m.value.futures.get? k = some f := by
  apply run.relative (P := fun m => ∀ k, m.stored = some k → ∃ f, m.value.futures.get? k = some f)
  · rintro _ rfl k stored
    cases stored
  · intro ts m op m' r prior lives taken k stored
    have tied := tied_of_users prior
    rcases step_cases taken with ⟨call, res, rfl, stepped⟩ | ⟨waker, result, rfl, polled⟩ |
      ⟨rfl, dropped⟩
    · obtain ⟨permitted, value, moved, rfl⟩ := user_spec stepped
      have stored : m.stored = some k := stored
      -- the users do not have the stored future
      refine tied.live_step ?_ ?_ (lives k stored) moved
      · rintro waker rfl
        simp [permits, stored] at permitted
      · rintro rfl
        simp [permits, stored] at permitted
    · obtain ⟨j, value, tied', moved, state⟩ := pollLock_tied tied polled
      cases result with
      | pending =>
        obtain rfl : j = k := by simpa [PollMutex.stored, state, stateAfter] using stored
        exact live_of_pending tied' moved
      | ready guard => simp [PollMutex.stored, state, stateAfter] at stored
    · rw [stored_of_drop dropped] at stored
      cases stored

private theorem unlocking_returns {k : Nat} (waker : W) (turns : Nat)
    (tied : Users.Tied asyncMutex m.value) (state : m.state = .unlocking k)
    (live : ∃ f, m.value.futures.get? k = some f) :
    ReturnsWithin (turns + 1) (pollLockTurn waker) m (Registered waker) := by
  obtain ⟨f, live⟩ := live
  obtain ⟨value, result, taken⟩ := tied.poll_returns live waker
  cases result with
  | ready guard =>
    have turn : pollLockTurn waker m =
        some (.done (.ready guard) { m with value := value, state := .locked }) := by
      simp only [pollLockTurn, state, taken]
    exact ⟨_, _, LoopTurn.loop_done turn turns, by simp⟩
  | pending =>
    have turn : pollLockTurn waker m = some (.done .pending { m with value := value }) := by
      simp only [pollLockTurn, state, taken]
    obtain ⟨p, sleeps, registered⟩ := Users.registered_of_pending tied taken
    exact ⟨_, _, LoopTurn.loop_done turn turns,
      fun _ => ⟨k, p, by simp [stored, state], sleeps, registered⟩⟩

theorem bounded_of_run {ts} (run : machine.Run ts m) : m.Bounded := by
  intro waker _
  have tied := tied_of_users run
  cases state : m.state with
  | unlocking k =>
    exact unlocking_returns waker 3 tied state (stored_live run k (by simp [stored, state]))
  | locked =>
    -- one turn makes the future, the next one polls it
    obtain ⟨value, live, made⟩ : ∃ value : Users W (AsyncMutex W) AsyncMutex.Kind,
        (∃ f, value.futures.get? m.value.created = some f) ∧
        m.value.step asyncMutex (.lock .lockRc) = some (value, .created m.value.created) :=
      ⟨_, ⟨_, OrderedMap.get?_insert_self _ _ _⟩, rfl⟩
    have turn : pollLockTurn waker m = some (.again { m with
        value := value
        state := .unlocking m.value.created }) := by
      simp only [pollLockTurn, state, made]
    have tied' : Users.Tied asyncMutex value := tied.step AsyncMutex.lawful made
    obtain ⟨result, m', returned, registered⟩ := unlocking_returns waker 2
      (m := { m with value := value, state := .unlocking m.value.created }) tied' rfl live
    exact ⟨result, m', (LoopTurn.loop_again turn 3).trans returned, registered⟩

end PollMutex

/-- Every poll loop returns in at most four turns, whatever state the event is in, and a
poll that returns `Pending` has left its own waker with the listener it waits on. -/
theorem loops_bounded [Usize] :
    (∀ ts (u : Users W (AsyncMutex W) AsyncMutex.Kind),
      (Users.machine AsyncMutex.asyncMutex AsyncMutex.new).Run ts u →
        u.Bounded AsyncMutex.asyncMutex) ∧
    (∀ ts (u : Users W (RwLock W) RwLock.Kind),
      (Users.machine RwLock.rwLock RwLock.new).Run ts u → u.Bounded RwLock.rwLock) ∧
    (∀ cap ts (c : Mpsc.Channel W T), (Mpsc.machine cap).Run ts c → c.Bounded) ∧
    (∀ ts (h : Handles W T), Handles.machine.Run ts h → h.Bounded) ∧
    ∀ ts (m : PollMutex W), PollMutex.machine.Run ts m → m.Bounded := by
  refine ⟨?_, ?_, ?_, ?_, ?_⟩
  · intro ts u run
    exact (Users.tied_of_run AsyncMutex.lawful AsyncMutex.tied_new run).bounded
  · intro ts u run
    exact (Users.tied_of_run RwLock.lawful RwLock.tied_new run).bounded
  · intro cap ts c run
    exact (Mpsc.Channel.inv_of_run run).bounded
  · intro ts h run
    exact (Handles.Inv.of_run run).bounded
  · intro ts m run
    exact PollMutex.bounded_of_run run

/-- A future that was handed the lock, one that waits for a writer, a `Send` whose receiver
is gone, streams of an event that was dropped, and a stored future that is notified. -/
theorem contended_loops_bounded :
    (∃ ts, ∃ u : Users Nat (AsyncMutex Nat) AsyncMutex.Kind,
      (Users.machine AsyncMutex.asyncMutex AsyncMutex.new).Run ts u ∧
      ts.map Machine.Transition.act =
        [.lock .lock, .poll 0 0, .lock .lockRc, .poll 1 7, .dropGuard .lock] ∧
      (u.futures.get? 1).isSome = true ∧ u.Bounded AsyncMutex.asyncMutex) ∧
    (∃ ts, ∃ u : Users Nat (RwLock Nat) RwLock.Kind,
      (Users.machine RwLock.rwLock RwLock.new).Run ts u ∧
      ts.map Machine.Transition.act =
        [.lock .writeRc, .poll 0 0, .lock .read, .poll 1 7] ∧
      (u.futures.get? 1).isSome = true ∧ u.Bounded RwLock.rwLock) ∧
    (∃ ts, ∃ c : Mpsc.Channel Nat Nat, (Mpsc.machine 1).Run ts c ∧
      ts.map Machine.Transition.act =
        [.trySend 3, .send 4, .pollSend 0 7, .dropReceiver] ∧
      (c.sends.get? 0).isSome = true ∧ c.Bounded) ∧
    (∃ ts, ∃ h : Handles Nat Nat, Handles.machine.Run ts h ∧
      ts.map Machine.Transition.act =
        [.listen, .stream, .subscribe, .notify ⟨1, false, 5⟩, .dropHandle 0, .dropEvent] ∧
      h.live.get? 2 = some (.emitterStream (.listening 2)) ∧ h.Bounded) ∧
    ∃ ts, ∃ m : PollMutex Nat, PollMutex.machine.Run ts m ∧
      ts.map Machine.Transition.act =
        [.user (.lock .lockRc), .user (.poll 0 0), .pollLock 7, .user (.dropGuard .lockRc)] ∧
      m.stored = some 1 ∧ m.Bounded := by
  obtain ⟨mutex, rwLock, channel, handles, pollMutex⟩ := loops_bounded (W := Nat) (T := Nat)
  refine ⟨?_, ?_, ?_, ?_, ?_⟩
  · obtain ⟨ts, u, run, acts, live⟩ := Machine.exists_run
      (m := Users.machine AsyncMutex.asyncMutex (AsyncMutex.new : AsyncMutex Nat))
      (P := fun _ u => (u.futures.get? 1).isSome = true)
      [.lock .lock, .poll 0 0, .lock .lockRc, .poll 1 7, .dropGuard .lock] rfl (by decide)
    exact ⟨ts, u, run, acts, live, mutex ts u run⟩
  · obtain ⟨ts, u, run, acts, live⟩ := Machine.exists_run
      (m := Users.machine RwLock.rwLock (RwLock.new : RwLock Nat))
      (P := fun _ u => (u.futures.get? 1).isSome = true)
      [.lock .writeRc, .poll 0 0, .lock .read, .poll 1 7] rfl (by decide)
    exact ⟨ts, u, run, acts, live, rwLock ts u run⟩
  · obtain ⟨ts, c, run, acts, live⟩ := Machine.exists_run
      (m := Mpsc.machine (W := Nat) (T := Nat) 1)
      (P := fun _ c => (c.sends.get? 0).isSome = true)
      [.trySend 3, .send 4, .pollSend 0 7, .dropReceiver] rfl (by decide)
    exact ⟨ts, c, run, acts, live, channel 1 ts c run⟩
  · obtain ⟨ts, h, run, acts, live⟩ := Machine.exists_run
      (m := Handles.machine (W := Nat) (T := Nat))
      (P := fun _ h => h.live.get? 2 = some (.emitterStream (.listening 2)))
      [.listen, .stream, .subscribe, .notify ⟨1, false, 5⟩, .dropHandle 0, .dropEvent] rfl
      (by decide)
    exact ⟨ts, h, run, acts, live, handles ts h run⟩
  · obtain ⟨ts, m, run, acts, stored⟩ := Machine.exists_run
      (m := PollMutex.machine (W := Nat)) (P := fun _ m => m.stored = some 1)
      [.user (.lock .lockRc), .user (.poll 0 0), .pollLock 7, .user (.dropGuard .lockRc)] rfl
      (by decide)
    exact ⟨ts, m, run, acts, stored, pollMutex ts m run⟩

end Eneste
