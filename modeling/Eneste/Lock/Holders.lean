import Eneste.Lock.Users

/-!
# Who holds a lock

What a lock's state records of its guards, and what happens once nobody holds it:
taking and releasing a lock each notify one listener, so that a lock which refuses
nobody never leaves all of its parked futures asleep.
-/

namespace Eneste

variable {W S K : Type} [DecidableEq K]

/-- `Books` relates the lock's state to its live guards, and every operation keeps it. -/
structure Lock.Keeps (lock : Lock W S K) (Books : S → (K → Nat) → Prop) : Prop where
  set : ∀ s guards inner, Books s guards → Books (lock.event.set s inner) guards
  acquire : ∀ kind s guards, Books s guards → lock.admits kind s = true →
    Books (lock.acquire kind s) (Users.addGuard guards kind)
  release : ∀ kind s s' guards, Books s guards → 0 < guards kind → lock.release kind s = some s' →
    Books s' (Users.dropGuard guards kind)

omit [DecidableEq K] in
/-- The lock refuses nobody. -/
def Lock.Free (lock : Lock W S K) (s : S) : Prop := ∀ kind, lock.admits kind s = true

namespace Users

variable {lock : Lock W S K} {Books : S → (K → Nat) → Prop} {u u' : Users W S K} {r : Res K}

theorem books_step (keeps : lock.Keeps Books) {op : Op W K} (tied : Tied lock u)
    (taken : u.step lock op = some (u', r)) (books : Books u.lock u.guards) :
    Books u'.lock u'.guards := by
  cases op with
  | lock kind =>
    cases taken
    exact books
  | poll k waker =>
    obtain ⟨f, _, polled⟩ := poll_spec tied taken
    cases polled with
    | asleep => exact keeps.set _ _ _ books
    | acquired _ admitted => exact keeps.acquire _ _ _ (keeps.set _ _ _ books) admitted
    | parks => exact keeps.set _ _ _ books
  | dropFuture k =>
    rcases dropFuture_cases taken with ⟨_, rfl⟩ | ⟨_, _, _, _, rfl⟩
    · exact books
    · exact keeps.set _ _ _ books
  | dropGuard kind =>
    obtain ⟨held, s, released, rfl⟩ := dropGuard_cases taken
    exact keeps.release kind _ _ _ books held released

variable [Usize]

theorem books_of_run (lawful : lock.Lawful) (keeps : lock.Keeps Books) {s : S}
    (tied : Tied lock (new s)) (books : Books s fun _ => 0) {ts}
    (run : (machine lock s).Run ts u) : Books u.lock u.guards := by
  apply run.relative (P := fun u => Books u.lock u.guards)
  · rintro _ rfl
    exact books
  · intro _ _ _ _ _ prior books taken
    exact books_step keeps (tied_of_run lawful tied prior) taken books

/-- Only `notify(1)` is used, so at most one future holds a notification. -/
theorem single_of_run (lawful : lock.Lawful) {s : S} (tied : Tied lock (new s))
    (silent : (lock.event.get s).notified = 0) {ts} (run : (machine lock s).Run ts u) :
    (lock.event.get u.lock).notified ≤ 1 := by
  apply run.relative (P := fun u => (lock.event.get u.lock).notified ≤ 1)
  · rintro _ rfl
    exact silent.le.trans zero_le_one
  · intro ts u op u' r prior single taken
    have settles : ∀ f : Future W K,
        (f.waiter.settled (lock.event.get u.lock)).notified ≤ 1 := by
      intro f
      cases f.waiter with
      | idle => exact single
      | parked p => exact (Nat.sub_le _ _).trans single
    have tied := tied_of_run lawful tied prior
    cases op with
    | lock kind =>
      cases taken
      exact single
    | poll k waker =>
      obtain ⟨f, _, polled⟩ := poll_spec tied taken
      cases polled with
      | asleep =>
        simp only [lock.event.get_set]
        exact single
      | acquired =>
        simp only [lawful.acquire, lock.event.get_set]
        exact Event.notify_one_single (settles f)
      | parks =>
        simp only [lock.event.get_set]
        exact settles f
    | dropFuture k =>
      rcases dropFuture_cases taken with ⟨_, rfl⟩ | ⟨_, _, _, _, rfl⟩
      · exact single
      · simp only [lock.event.get_set]
        exact (EventListener.notified_drop_le tied.wf _).trans single
    | dropGuard kind =>
      obtain ⟨_, s, released, rfl⟩ := dropGuard_cases taken
      rw [lawful.release _ _ _ released]
      exact Event.notify_one_single single

/-! ### A free lock -/

/-- A call leaves somebody notified, if anybody waits and the lock is free. -/
theorem alert_step (lawful : lock.Lawful) {op : Op W K} (tied : Tied lock u)
    (taken : u.step lock op = some (u', r))
    (alert : lock.Free u.lock → (lock.event.get u.lock).Alert) (free : lock.Free u'.lock) :
    (lock.event.get u'.lock).Alert := by
  have same : ∀ inner, lock.Free (lock.event.set u.lock inner) → lock.Free u.lock :=
    fun inner free kind => (lawful.admits kind u.lock inner).symm.trans (free kind)
  cases op with
  | lock kind =>
    cases taken
    exact alert free
  | poll k waker =>
    obtain ⟨f, live, polled⟩ := poll_spec tied taken
    cases polled with
    | asleep parked silent =>
      have before := alert (same _ free)
      simpa only [lock.event.get_set] using before.await (Attached.tracked tied live parked) waker
    | acquired runnable admitted =>
      -- acquiring notifies somebody who waits, if anybody does
      simp only [lawful.acquire, lock.event.get_set]
      exact (Attached.finish tied live runnable).wf.alert_notify Nat.one_pos
    | parks runnable refused =>
      -- a free lock would have admitted it
      have admitted := same _ free f.own
      rw [lawful.admits, admitted] at refused
      cases refused
  | dropFuture k =>
    rcases dropFuture_cases taken with ⟨_, rfl⟩ | ⟨_, _, _, _, rfl⟩
    · exact alert free
    · simp only [lock.event.get_set]
      exact (alert (same _ free)).drop tied.wf _
  | dropGuard kind =>
    obtain ⟨_, s, released, rfl⟩ := dropGuard_cases taken
    -- releasing notifies as well
    rw [lawful.release _ _ _ released]
    exact tied.wf.alert_notify Nat.one_pos

/-- While the lock is free, one of the parked futures has been woken. -/
theorem roused_of_free (lawful : lock.Lawful) {s : S} (tied : Tied lock (new s)) {ts}
    (run : (machine lock s).Run ts u) (free : lock.Free u.lock)
    (waits : ∃ k p, parkedIn u.futures k = some p) :
    ∃ k p, parkedIn u.futures k = some p ∧ (lock.event.get u.lock).Roused p := by
  have alert : lock.Free u.lock → (lock.event.get u.lock).Alert := by
    apply run.relative (P := fun u => lock.Free u.lock → (lock.event.get u.lock).Alert)
    · rintro _ rfl _
      exact Attached.alert_of_idle tied fun _ => rfl
    · intro _ _ _ _ _ prior alert taken
      exact alert_step lawful (tied_of_run lawful tied prior) taken alert
  have now := tied_of_run lawful tied run
  exact ((Attached.waiters now).alert_iff now.wf).mp (alert free) waits

/-- A notified future that is polled while the lock is free acquires it. -/
theorem poll_free (lawful : lock.Lawful) (free : lock.Free u.lock) {k : Nat}
    {p : Sleeper W} (asleep : parkedIn u.futures k = some p)
    (notified : EventListener.isNotified p.listener (lock.event.get u.lock) = true) (waker : W) :
    ∃ kind u', u.step lock (.poll k waker) = some (u', .polled (.ready kind)) ∧
      u'.guards = addGuard u.guards kind := by
  obtain ⟨f, live, sleeps⟩ := Option.bind_eq_some_iff.mp asleep
  cases parked : f.waiter with
  | idle => simp [parked, Waiter.sleeper] at sleeps
  | parked q =>
    obtain rfl : q = p := by simpa [parked, Waiter.sleeper] using sleeps
    have admitted := (lawful.admits f.own u.lock
      ((lock.event.get u.lock).consume q.listener)).trans (free f.own)
    have runs := Waiter.poll_notified lock.event (lock.attempt f.own) waker notified
    simp only [Waiter.finishOrPark, Lock.attempt, admitted, ite_true] at runs
    exact ⟨f.own, _, by simp only [Users.step, Users.poll, live, parked, runs]; rfl, rfl⟩

end Users

end Eneste
