import Eneste.Event.Waiters

/-!
# Futures of a component

A future that runs the wait loop is idle or parked between two polls. `Attached`
says that the parked futures of a component are the listeners of its event; every
operation on a future keeps it, whatever the `Idle` arm of its loop does.
-/

namespace Eneste

variable {W δ : Type}

/-- A future between two polls: the state the source keeps, and for a parked one
what its last poll left behind. -/
inductive Waiter (W : Type) where
  | idle
  | parked (p : Sleeper W)

def Waiter.state : Waiter W → WaitState
  | .idle => .idle
  | .parked p => .waiting p.listener

def Waiter.sleeper : Waiter W → Option (Sleeper W)
  | .idle => none
  | .parked p => some p

/-! ### One poll of a future -/

section Poll

variable {σ ρ : Type} (event : EventField σ W) (attempt : σ → Attempt ρ σ) (waker : W)

/-- `poll` of a future that runs the wait loop. -/
def Waiter.poll (s : σ) (future : Waiter W) : Option (Poll ρ × σ × Waiter W) :=
  match waitPoll event attempt waker s future.state with
  | some (.ready result, (s', .idle)) => some (.ready result, s', .idle)
  | some (.pending, (s', .waiting listener)) =>
    some (.pending, s', .parked ⟨listener, waker, (event.get s').woken.length⟩)
  -- the loop leaves no other combination, see `Waiter.poll_asleep`
  | _ => none

/-- The `Idle` arm: finish or park on a fresh listener. -/
def Waiter.finishOrPark (s : σ) : Option (Poll ρ × σ × Waiter W) :=
  match attempt s with
  | .ready result s' => some (.ready result, s', .idle)
  | .wait => some (.pending, event.set s ((event.get s).register waker),
      .parked ⟨(event.get s).nextId, waker, (event.get s).woken.length⟩)
  | .panic => none

theorem Waiter.poll_idle (s : σ) :
    Waiter.poll event attempt waker s .idle = Waiter.finishOrPark event attempt waker s := by
  simp only [Waiter.poll, Waiter.state, waitPoll_idle, pollIdle, Waiter.finishOrPark]
  cases attempt s <;> simp [event.get_set, Inner.register]

/-- A parked future that is not notified stays parked, with the new waker. -/
theorem Waiter.poll_asleep {s : σ} {p : Sleeper W} (tracks : (event.get s).Tracks p)
    (asleep : EventListener.isNotified p.listener (event.get s) = false) :
    Waiter.poll event attempt waker s (.parked p) =
      some (.pending, event.set s ((event.get s).await p.listener waker),
        .parked ⟨p.listener, waker, (event.get s).woken.length⟩) := by
  obtain ⟨_, ⟨old, value⟩, found, _⟩ := tracks
  have empty : value = none := by
    simpa [EventListener.isNotified, found, ListenerEntry.isNotified] using asleep
  subst empty
  simp [Waiter.poll, Waiter.state, waitPoll_asleep event attempt waker found, event.get_set,
    Inner.await]

/-- A notified future consumes its notification and tries again. -/
theorem Waiter.poll_notified {s : σ} {p : Sleeper W}
    (notified : EventListener.isNotified p.listener (event.get s) = true) :
    Waiter.poll event attempt waker s (.parked p) =
      Waiter.finishOrPark event attempt waker
        (event.set s ((event.get s).consume p.listener)) := by
  unfold EventListener.isNotified at notified
  cases found : (event.get s).listeners.get? p.listener with
  | none => simp [found] at notified
  | some entry =>
    obtain ⟨old, _ | ⟨⟩⟩ := entry
    · simp [found, ListenerEntry.isNotified] at notified
    · -- once the notification is consumed, the loop stands where an idle future starts
      rw [← Waiter.poll_idle]
      simp only [Waiter.poll, Waiter.state, waitPoll_notified event attempt waker found,
        waitPoll_idle]

/-- The future can go on: it never parked or holds a notification. -/
def Waiter.Runnable (inner : Inner W Unit) : Waiter W → Prop
  | .idle => True
  | .parked p => EventListener.isNotified p.listener inner = true

/-- The event once a runnable future has consumed its notification. -/
def Waiter.settled (inner : Inner W Unit) : Waiter W → Inner W Unit
  | .idle => inner
  | .parked p => inner.consume p.listener

/-- What one poll can do: store the new waker, or run the `Idle` arm. -/
theorem Waiter.poll_cases {s s' : σ} {future future' : Waiter W} {result : Poll ρ}
    (tracks : ∀ p, future = .parked p → (event.get s).Tracks p)
    (polled : future.poll event attempt waker s = some (result, s', future')) :
    (∃ p, future = .parked p ∧ EventListener.isNotified p.listener (event.get s) = false ∧
      result = .pending ∧ s' = event.set s ((event.get s).await p.listener waker) ∧
      future' = .parked ⟨p.listener, waker, (event.get s).woken.length⟩) ∨
    (future.Runnable (event.get s) ∧
      Waiter.finishOrPark event attempt waker (event.set s (future.settled (event.get s))) =
        some (result, s', future')) := by
  cases future with
  | idle => exact Or.inr ⟨trivial, by rwa [Waiter.poll_idle, ← event.set_get s] at polled⟩
  | parked p =>
    cases notified : EventListener.isNotified p.listener (event.get s) with
    | true => exact Or.inr ⟨notified, by rwa [Waiter.poll_notified _ _ _ notified] at polled⟩
    | false =>
      rw [Waiter.poll_asleep _ _ _ (tracks p rfl) notified] at polled
      simp only [Option.some.injEq, Prod.mk.injEq] at polled
      obtain ⟨rfl, rfl, rfl⟩ := polled
      exact Or.inl ⟨p, rfl, notified, rfl, rfl, rfl⟩

/-- A runnable future runs the `Idle` arm. -/
theorem Waiter.poll_runnable {s : σ} {future : Waiter W}
    (runnable : future.Runnable (event.get s)) :
    future.poll event attempt waker s =
      Waiter.finishOrPark event attempt waker (event.set s (future.settled (event.get s))) := by
  cases future with
  | idle => rw [Waiter.poll_idle, Waiter.settled, event.set_get]
  | parked p => exact Waiter.poll_notified event attempt waker runnable

end Poll

/-- A live future: where it waits, and what else it holds. -/
structure Future (W δ : Type) where
  waiter : Waiter W
  own : δ

/-- Where the future `k` waits, if it does. -/
def parkedIn (futures : OrderedMap Nat (Future W δ)) (k : Nat) : Option (Sleeper W) :=
  (futures.get? k).bind fun future => future.waiter.sleeper

/-- The parked futures are the listeners of the event; `valid` holds of what the
futures keep, and names below `created` are used. -/
structure Attached (event : Inner W Unit) (futures : OrderedMap Nat (Future W δ))
    (created : Nat) (valid : δ → Prop) : Prop where
  wf : event.WF
  waiters : Waiters event (parkedIn futures)
  named : ∀ k future, futures.get? k = some future → k < created
  holds : ∀ k future, futures.get? k = some future → valid future.own

theorem parkedIn_of_parked {futures : OrderedMap Nat (Future W δ)} {k : Nat} {future : Future W δ}
    (live : futures.get? k = some future) {p : Sleeper W} (parked : future.waiter = .parked p) :
    parkedIn futures k = some p := by
  simp [parkedIn, live, parked, Waiter.sleeper]

theorem parkedIn_of_idle {futures : OrderedMap Nat (Future W δ)} {k : Nat} {future : Future W δ}
    (live : futures.get? k = some future) (idle : future.waiter = .idle) :
    parkedIn futures k = none := by
  simp [parkedIn, live, idle, Waiter.sleeper]

@[simp] theorem parkedIn_insert (futures : OrderedMap Nat (Future W δ)) (k : Nat)
    (future : Future W δ) (j : Nat) : parkedIn (futures.insert k future) j =
      if j = k then future.waiter.sleeper else parkedIn futures j := by
  simp only [parkedIn, OrderedMap.get?_insert]
  split <;> simp

@[simp] theorem parkedIn_erase (futures : OrderedMap Nat (Future W δ)) (k j : Nat) :
    parkedIn (futures.erase k) j = if j = k then none else parkedIn futures j := by
  simp only [parkedIn, OrderedMap.get?_erase]
  split <;> simp

/-! ### What each update keeps -/

namespace Attached

variable {event : Inner W Unit} {futures : OrderedMap Nat (Future W δ)} {created : Nat}
  {valid : δ → Prop}

theorem notify [Usize] (side : Attached event futures created valid) (n : Notification Unit) :
    Attached (Event.notify n event) futures created valid :=
  ⟨side.wf.notify n, side.waiters.notify n, side.named, side.holds⟩

theorem close (side : Attached event futures created valid) :
    Attached (Event.drop event) futures created valid :=
  ⟨side.wf.close, side.waiters.close, side.named, side.holds⟩

/-- The event tracks every parked future. -/
theorem tracked (side : Attached event futures created valid) {k : Nat} {future : Future W δ}
    (live : futures.get? k = some future) {p : Sleeper W} (parked : future.waiter = .parked p) :
    event.Tracks p :=
  side.waiters.tracked k p (parkedIn_of_parked live parked)

private theorem replaced (side : Attached event futures created valid) {later : Inner W Unit}
    (wf : later.WF) {k : Nat} {future : Future W δ} (live : futures.get? k = some future)
    (waiter : Waiter W)
    (waiters : Waiters later (parkedIn (futures.insert k { future with waiter := waiter }))) :
    Attached later (futures.insert k { future with waiter := waiter }) created valid where
  wf := wf
  waiters := waiters
  named j other found := by
    rw [OrderedMap.get?_insert] at found
    split at found
    next same => subst same; exact side.named j future live
    next differs => exact side.named j other found
  holds j other found := by
    rw [OrderedMap.get?_insert] at found
    split at found
    next same => subst same; cases found; exact side.holds j future live
    next differs => exact side.holds j other found

private theorem removed (side : Attached event futures created valid) {later : Inner W Unit}
    (wf : later.WF) (k : Nat) (waiters : Waiters later (parkedIn (futures.erase k))) :
    Attached later (futures.erase k) created valid where
  wf := wf
  waiters := waiters
  named j other found := by
    rw [OrderedMap.get?_erase] at found
    split at found
    · cases found
    · exact side.named j other found
  holds j other found := by
    rw [OrderedMap.get?_erase] at found
    split at found
    · cases found
    · exact side.holds j other found

/-- A new future is idle, and nobody is parked under its name. -/
theorem parkedIn_create (side : Attached event futures created valid) (own : δ) :
    parkedIn (futures.insert created ⟨.idle, own⟩) = parkedIn futures := by
  have unused : parkedIn futures created = none := by
    cases found : futures.get? created with
    | none => simp [parkedIn, found]
    | some future => exact absurd (side.named created future found) (lt_irrefl _)
  funext j
  rw [parkedIn_insert]
  split
  next this => simp [this, unused, Waiter.sleeper]
  next => rfl

theorem create (side : Attached event futures created valid) (own : δ) (fits : valid own) :
    Attached event (futures.insert created ⟨.idle, own⟩) (created + 1) valid where
  wf := side.wf
  waiters := (side.parkedIn_create own).symm ▸ side.waiters
  named j future found := by
    rw [OrderedMap.get?_insert] at found
    split at found
    · omega
    · have := side.named j future found
      omega
  holds j future found := by
    rw [OrderedMap.get?_insert] at found
    split at found
    · cases found
      exact fits
    · exact side.holds j future found

/-- A parked future is polled before it is notified. -/
theorem await (side : Attached event futures created valid) {k : Nat} {future : Future W δ}
    (live : futures.get? k = some future) {p : Sleeper W} (parked : future.waiter = .parked p)
    (asleep : EventListener.isNotified p.listener event = false) (waker : W) :
    Attached (event.await p.listener waker)
      (futures.insert k { future with
        waiter := .parked ⟨p.listener, waker, event.woken.length⟩ }) created valid := by
  have sleeps := parkedIn_of_parked live parked
  obtain ⟨_, ⟨old, value⟩, found, _⟩ := side.tracked live parked
  have empty : value = none := by
    simpa [EventListener.isNotified, found, ListenerEntry.isNotified] using asleep
  exact side.replaced (side.wf.await p.listener waker found empty) live _
    (side.waiters.await sleeps (by simp [Waiter.sleeper]) (by simp +contextual))

/-- A runnable future consumes its notification. -/
theorem settle (side : Attached event futures created valid) {k : Nat} {future : Future W δ}
    (live : futures.get? k = some future) (runnable : future.waiter.Runnable event) :
    Attached (future.waiter.settled event) (futures.insert k { future with waiter := .idle })
      created valid := by
  cases parked : future.waiter with
  | idle =>
    apply side.replaced side.wf live .idle
    have same : parkedIn (futures.insert k { future with waiter := .idle }) = parkedIn futures := by
      funext j
      rw [parkedIn_insert]
      split
      next this => simp [this, parkedIn, live, parked, Waiter.sleeper]
      · rfl
    rw [same]
    exact side.waiters
  | parked p =>
    have sleeps := parkedIn_of_parked live parked
    obtain ⟨_, entry, found, _⟩ := side.tracked live parked
    -- it is parked and runnable, so it holds a notification
    have notified : entry.isNotified = true := by
      simpa [parked, Waiter.Runnable, EventListener.isNotified, found] using runnable
    exact side.replaced (side.wf.consume p.listener found notified) live .idle
      (side.waiters.consume sleeps (by simp [Waiter.sleeper]) (by simp +contextual))

/-- An idle future completes or is dropped. -/
theorem leave (side : Attached event futures created valid) {k : Nat}
    (idle : parkedIn futures k = none) : Attached event (futures.erase k) created valid := by
  apply side.removed side.wf k
  have same : parkedIn (futures.erase k) = parkedIn futures := by
    funext j
    rw [parkedIn_erase]
    split
    next this => rw [this, idle]
    · rfl
  rw [same]
  exact side.waiters

/-- An idle future parks. -/
theorem park (side : Attached event futures created valid) {k : Nat} {future : Future W δ}
    (live : futures.get? k = some future) (idle : future.waiter = .idle) (waker : W) :
    Attached (event.register waker)
      (futures.insert k { future with
        waiter := .parked ⟨event.nextId, waker, event.woken.length⟩ }) created valid := by
  have free := parkedIn_of_idle live idle
  exact side.replaced (side.wf.register waker) live _
    (side.waiters.register side.wf free (by simp [Waiter.sleeper]) (by simp +contextual))

/-- A parked future is dropped. -/
theorem dropParked (side : Attached event futures created valid) {k : Nat} {future : Future W δ}
    (live : futures.get? k = some future) {p : Sleeper W} (parked : future.waiter = .parked p) :
    Attached (EventListener.drop p.listener event) (futures.erase k) created valid := by
  have sleeps := parkedIn_of_parked live parked
  exact side.removed (side.wf.drop p.listener) k
    (side.waiters.drop side.wf sleeps (by simp) (by simp +contextual))

/-- A runnable future completes without touching its event. -/
theorem finish (side : Attached event futures created valid) {k : Nat} {future : Future W δ}
    (live : futures.get? k = some future) (runnable : future.waiter.Runnable event) :
    Attached (future.waiter.settled event) (futures.erase k) created valid := by
  have settled := side.settle live runnable
  simpa using settled.leave (k := k) (by simp [Waiter.sleeper])

/-- A runnable future parks, perhaps once more. -/
theorem repark (side : Attached event futures created valid) {k : Nat} {future : Future W δ}
    (live : futures.get? k = some future) (runnable : future.waiter.Runnable event) (waker : W) :
    Attached ((future.waiter.settled event).register waker)
      (futures.insert k { future with
        waiter := .parked ⟨(future.waiter.settled event).nextId, waker,
          (future.waiter.settled event).woken.length⟩ }) created valid := by
  have settled := side.settle live runnable
  simpa using settled.park (OrderedMap.get?_insert_self _ _ _) rfl waker

end Attached

/-- Nobody waits on an event whose futures are all idle. -/
theorem Attached.alert_of_idle {event : Inner W Unit} {futures : OrderedMap Nat (Future W δ)}
    {created : Nat} {valid : δ → Prop} (side : Attached event futures created valid)
    (idle : ∀ k, parkedIn futures k = none) : event.Alert := by
  intro someone
  obtain ⟨k, p, asleep⟩ := side.waiters.size_pos_iff.mp someone
  rw [idle k] at asleep
  cases asleep

/-- The futures of a side that has only one, such as a receiver. -/
def sole (waiter : Waiter W) : OrderedMap Nat (Future W Unit) :=
  OrderedMap.empty.insert 0 ⟨waiter, ()⟩

@[simp] theorem sole_get? (waiter : Waiter W) : (sole waiter).get? 0 = some ⟨waiter, ()⟩ := by
  simp [sole]

@[simp] theorem sole_insert (waiter waiter' : Waiter W) :
    (sole waiter).insert 0 ⟨waiter', ()⟩ = sole waiter' := by
  simp [sole]

@[simp] theorem sole_erase (waiter : Waiter W) : (sole waiter).erase 0 = OrderedMap.empty := by
  simp only [sole, OrderedMap.erase_insert_self]
  rfl

@[simp] theorem parkedIn_sole (waiter : Waiter W) (k : Nat) :
    parkedIn (sole waiter) k = if k = 0 then waiter.sleeper else none := by
  rw [sole, parkedIn_insert]
  simp [parkedIn]

theorem Attached.new (created : Nat) (valid : δ → Prop) :
    Attached Event.new (OrderedMap.empty : OrderedMap Nat (Future W δ)) created valid where
  wf := Inner.WF.new
  waiters := ⟨by simp [parkedIn], by simp [parkedIn],
    by simp [Event.new, OrderedMap.empty, OrderedMap.keys]⟩
  named := by simp
  holds := by simp

end Eneste
