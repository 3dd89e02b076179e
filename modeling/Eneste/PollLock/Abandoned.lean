import Eneste.PollLock.Forwarding

/-!
# Abandoned polls of a locked sink

A poll of the sink that returns `Pending` leaves a future of its own in the queue for the
mutex. If the poll is not resumed, nobody polls that future either: a notification that
reaches it is lost to the futures of `lock`. `Absorbs` says which calls send it there.
-/

namespace Eneste

open AsyncMutex (asyncMutex)

variable {S W M E : Type}

namespace PollMutex

section

variable (m : PollMutex W)

/-- A parked future of `lock`, not the one that is stored in the mutex itself. -/
def Locker (k : Nat) (p : Sleeper W) : Prop :=
  parkedIn m.value.futures k = some p ∧ m.stored ≠ some k

/-- While no guard is alive and a future of `lock` is parked, one of them has been woken. -/
def LockersWoken : Prop :=
  (∀ kind, m.value.guards kind = 0) → (∃ k p, m.Locker k p) →
    ∃ k p, m.Locker k p ∧ m.value.lock.event.Roused p

/-- The stored future is parked on the listener `id`. -/
def StoredOn (id : Nat) : Prop :=
  ∃ k p, m.stored = some k ∧ parkedIn m.value.futures k = some p ∧ p.listener = id

/-- A call whose notification is the stored future's, while a future of `lock` is parked. A
released guard notifies the first in the queue, if nobody is notified yet; a dropped future
that was notified passes that on to the first in the queue. -/
def Absorbs : Users.Op W AsyncMutex.Kind → Prop
  | .dropGuard _ => (∃ k p, m.Locker k p) ∧ ∃ id, m.StoredOn id ∧
      (EventListener.isNotified id m.value.lock.event = true ∨
        m.value.lock.event.notified = 0 ∧ m.value.lock.event.waiting.head? = some id)
  | .dropFuture k => (∀ kind, m.value.guards kind = 0) ∧
      (∃ p, m.Locker k p ∧ EventListener.isNotified p.listener m.value.lock.event = true) ∧
      (∃ j q, j ≠ k ∧ m.Locker j q) ∧
      ∃ id, m.StoredOn id ∧ m.value.lock.event.waiting.head? = some id
  | _ => False

/-- The stored future holds the notification. -/
def StoredNotified : Prop :=
  ∃ id, m.StoredOn id ∧ EventListener.isNotified id m.value.lock.event = true

end

variable [Usize] {m m' : PollMutex W}

/-- The futures of `lock` sleep on a free mutex exactly if the stored future is the one
that has been notified. -/
theorem lockersWoken_iff (reached : (Users.machine asyncMutex AsyncMutex.new).Reachable m.value) :
    m.LockersWoken ↔ ((∀ kind, m.value.guards kind = 0) → (∃ k p, m.Locker k p) →
      ¬m.StoredNotified) := by
  obtain ⟨_, run⟩ := reached
  have tied := Users.tied_of_run AsyncMutex.lawful AsyncMutex.tied_new run
  have single := Users.single_of_run AsyncMutex.lawful AsyncMutex.tied_new rfl run
  constructor
  · rintro woken released lockers ⟨id, ⟨k, p, stored, asleep, rfl⟩, notified⟩
    obtain ⟨j, q, ⟨sleeps, apart⟩, roused, _⟩ := woken released lockers
    -- both hold a notification, and there is only one
    have same : q.listener = p.listener := tied.wf.notified_unique single roused notified
    exact apart ((tied.waiters.distinct j k q p sleeps asleep same) ▸ stored)
  · intro silent released lockers
    have free := (AsyncMutex.exclusive_of_run run).free released
    obtain ⟨k, p, asleep, _⟩ := lockers
    obtain ⟨j, q, sleeps, roused⟩ := Users.roused_of_free AsyncMutex.lawful AsyncMutex.tied_new
      run free ⟨k, p, asleep⟩
    refine ⟨j, q, ⟨sleeps, fun stored => ?_⟩, roused⟩
    exact silent released ⟨k, p, asleep, ‹_›⟩ ⟨q.listener, ⟨j, q, stored, sleeps, rfl⟩, roused.1⟩

/-- What matters are the guards, the parked futures of `lock`, and who is notified. -/
private theorem lockersWoken_same
    (reached : (Users.machine asyncMutex AsyncMutex.new).Reachable m.value)
    (reached' : (Users.machine asyncMutex AsyncMutex.new).Reachable m'.value)
    (guards : m'.value.guards = m.value.guards)
    (lockers : ∀ k p, m'.Locker k p → ∃ q, m.Locker k q)
    (notified : m'.StoredNotified → m.StoredNotified) (woken : m.LockersWoken) :
    m'.LockersWoken := by
  rw [lockersWoken_iff reached']
  rintro released ⟨k, p, locker⟩ absorbed
  obtain ⟨q, before⟩ := lockers k p locker
  exact (lockersWoken_iff reached).mp woken (guards ▸ released) ⟨k, q, before⟩ (notified absorbed)

variable {value : Users W (AsyncMutex W) AsyncMutex.Kind} {r : Users.Res AsyncMutex.Kind}

private theorem woken_lock {kind : AsyncMutex.Kind}
    (reached : (Users.machine asyncMutex AsyncMutex.new).Reachable m.value)
    (reached' : (Users.machine asyncMutex AsyncMutex.new).Reachable value)
    (taken : m.value.step asyncMutex (.lock kind) = some (value, r)) (woken : m.LockersWoken) :
    ({ m with value := value } : PollMutex W).LockersWoken := by
  obtain ⟨_, run⟩ := id reached
  have tied := Users.tied_of_run AsyncMutex.lawful AsyncMutex.tied_new run
  cases taken
  -- the new future is idle, under a name that nobody has
  have same := fun k => congrFun (Attached.parkedIn_create tied kind) k
  refine lockersWoken_same reached reached' rfl ?_ ?_ woken
  · rintro k p ⟨asleep, apart⟩
    exact ⟨p, (same k).symm.trans asleep, apart⟩
  · rintro ⟨id, ⟨k, p, stored, asleep, on⟩, notified⟩
    exact ⟨id, ⟨k, p, stored, (same k).symm.trans asleep, on⟩, notified⟩

private theorem woken_poll {k : Nat} {waker : W} (apart : m.stored ≠ some k)
    (reached : (Users.machine asyncMutex AsyncMutex.new).Reachable m.value)
    (reached' : (Users.machine asyncMutex AsyncMutex.new).Reachable value)
    (taken : m.value.step asyncMutex (.poll k waker) = some (value, r)) (woken : m.LockersWoken) :
    ({ m with value := value } : PollMutex W).LockersWoken := by
  obtain ⟨_, run⟩ := id reached
  have tied := Users.tied_of_run AsyncMutex.lawful AsyncMutex.tied_new run
  obtain ⟨f, live, polled⟩ := Users.poll_spec tied taken
  cases polled with
  | @asleep p parked silent =>
    have sleeps := parkedIn_of_parked live parked
    refine lockersWoken_same reached reached' rfl ?_ ?_ woken
    · rintro j q ⟨asleep, other⟩
      rw [parkedIn_insert] at asleep
      split at asleep
      next same => exact ⟨p, same ▸ sleeps, other⟩
      · exact ⟨q, asleep, other⟩
    · rintro ⟨id, ⟨j, q, stored, asleep, rfl⟩, notified⟩
      -- the stored future is another one, on a listener of its own
      have differs : j ≠ k := fun same => apart (same ▸ stored)
      rw [parkedIn_insert, if_neg differs] at asleep
      have listener : q.listener ≠ p.listener := fun same =>
        differs (tied.waiters.distinct j k q p asleep sleeps same)
      refine ⟨q.listener, ⟨j, q, stored, asleep, rfl⟩, ?_⟩
      simpa [asyncMutex, EventListener.isNotified, Inner.await,
        OrderedMap.get?_insert_of_ne _ _ listener] using notified
  | acquired =>
    -- a guard is alive now
    intro released
    have held := released f.own
    simp [Users.addGuard] at held
  | parks runnable refused =>
    intro released
    have admitted := (AsyncMutex.exclusive_of_run run).free released f.own
    rw [AsyncMutex.lawful.admits, admitted] at refused
    cases refused

private theorem woken_dropFuture_iff {k : Nat} (apart : m.stored ≠ some k)
    (reached : (Users.machine asyncMutex AsyncMutex.new).Reachable m.value)
    (reached' : (Users.machine asyncMutex AsyncMutex.new).Reachable value)
    (taken : m.value.step asyncMutex (.dropFuture k) = some (value, r)) (woken : m.LockersWoken) :
    ({ m with value := value } : PollMutex W).LockersWoken ↔ ¬m.Absorbs (.dropFuture k) := by
  obtain ⟨_, run⟩ := id reached
  have tied := Users.tied_of_run AsyncMutex.lawful AsyncMutex.tied_new run
  have erased : ∀ j q, parkedIn (m.value.futures.erase k) j = some q ↔
      j ≠ k ∧ parkedIn m.value.futures j = some q := by
    intro j q
    rw [parkedIn_erase]
    by_cases same : j = k <;> simp [same]
  rcases Users.dropFuture_cases taken with ⟨idle, rfl⟩ | ⟨f, p, live, parked, rfl⟩
  · -- it was not waiting, so that nothing changes for the others
    refine iff_of_true (lockersWoken_same reached reached' rfl ?_ ?_ woken) ?_
    · rintro j q ⟨asleep, other⟩
      exact ⟨q, ((erased j q).mp asleep).2, other⟩
    · rintro ⟨id, ⟨j, q, stored, asleep, on⟩, notified⟩
      exact ⟨id, ⟨j, q, stored, ((erased j q).mp asleep).2, on⟩, notified⟩
    · rintro ⟨_, ⟨p, ⟨asleep, _⟩, _⟩, _⟩
      rw [idle] at asleep
      cases asleep
  · have sleeps := parkedIn_of_parked live parked
    have listener : ∀ j q, m.stored = some j → parkedIn m.value.futures j = some q →
        q.listener ≠ p.listener := by
      intro j q stored asleep same
      exact apart (tied.waiters.distinct j k q p asleep sleeps same ▸ stored)
    rw [lockersWoken_iff reached']
    have silent := (lockersWoken_iff reached).mp woken
    constructor
    · rintro kept ⟨released, ⟨p', ⟨asleep, _⟩, notified⟩, ⟨j, q, differs, locker⟩, id,
        ⟨i, s, stored, waits, rfl⟩, first⟩
      obtain rfl : p' = p := Option.some.inj (asleep.symm.trans sleeps)
      have differs' : i ≠ k := fun same => apart (same ▸ stored)
      -- the stored future is first in the queue, and inherits the notification
      refine kept released ⟨j, q, (erased j q).mpr ⟨differs, locker.1⟩, locker.2⟩
        ⟨s.listener, ⟨i, s, stored, (erased i s).mpr ⟨differs', waits⟩, rfl⟩, ?_⟩
      exact (EventListener.isNotified_drop tied.wf (listener i s stored waits)).mpr
        (.inr ⟨notified, first⟩)
    · rintro free released ⟨j, q, asleep, other⟩ ⟨_, ⟨i, s, stored, waits, rfl⟩, notified⟩
      obtain ⟨differs, before⟩ := (erased j q).mp asleep
      obtain ⟨_, waited⟩ := (erased i s).mp waits
      rcases (EventListener.isNotified_drop tied.wf (listener i s stored waited)).mp notified with
        already | ⟨held, first⟩
      · exact silent released ⟨j, q, before, other⟩ ⟨_, ⟨i, s, stored, waited, rfl⟩, already⟩
      · exact free ⟨released, ⟨p, ⟨sleeps, apart⟩, held⟩, ⟨j, q, differs, before, other⟩, _,
          ⟨i, s, stored, waited, rfl⟩, first⟩

private theorem woken_dropGuard_iff {kind : AsyncMutex.Kind}
    (reached : (Users.machine asyncMutex AsyncMutex.new).Reachable m.value)
    (reached' : (Users.machine asyncMutex AsyncMutex.new).Reachable value)
    (taken : m.value.step asyncMutex (.dropGuard kind) = some (value, r)) :
    ({ m with value := value } : PollMutex W).LockersWoken ↔ ¬m.Absorbs (.dropGuard kind) := by
  obtain ⟨_, run⟩ := id reached
  have single := (AsyncMutex.exclusive_of_run run).1
  rw [lockersWoken_iff reached']
  obtain ⟨held, lock, released, rfl⟩ := Users.dropGuard_cases taken
  have event : lock.event = Event.notify (.usize 1) m.value.lock.event :=
    AsyncMutex.lawful.release _ _ _ released
  -- the only guard is gone
  have nobody : ∀ other, Users.dropGuard m.value.guards kind other = 0 := by
    apply AsyncMutex.holders_eq_zero
    rw [AsyncMutex.holders_dropGuard m.value.guards kind held]
    omega
  have absorbed : ({ m with value := { m.value with
        lock := lock, guards := Users.dropGuard m.value.guards kind } } :
        PollMutex W).StoredNotified ↔ ∃ id, m.StoredOn id ∧
      (EventListener.isNotified id m.value.lock.event = true ∨
        m.value.lock.event.notified = 0 ∧ m.value.lock.event.waiting.head? = some id) := by
    refine exists_congr fun id => and_congr_right fun _ => ?_
    simp only [event]
    exact EventListener.isNotified_notify_one
  rw [absorbed]
  constructor
  · rintro kept ⟨lockers, taken⟩
    exact kept nobody lockers taken
  · intro free _ lockers taken
    exact free ⟨lockers, taken⟩

/-- A call keeps the futures of `lock` awake exactly if the stored future does not absorb
what it gives. -/
theorem lockersWoken_user_iff {op : Users.Op W AsyncMutex.Kind}
    (reached : (Users.machine asyncMutex AsyncMutex.new).Reachable m.value)
    (taken : m.user op = some (m', r)) (woken : m.LockersWoken) :
    m'.LockersWoken ↔ ¬m.Absorbs op := by
  obtain ⟨permitted, value, stepped, rfl⟩ := user_spec taken
  have reached' := reached.moves (Machine.Moves.one
    (m := Users.machine asyncMutex AsyncMutex.new) stepped)
  cases op with
  | lock kind => exact iff_of_true (woken_lock reached reached' stepped woken) id
  | poll k waker =>
    have apart : m.stored ≠ some k := by simpa [permits] using permitted
    exact iff_of_true (woken_poll apart reached reached' stepped woken) id
  | dropFuture k =>
    have apart : m.stored ≠ some k := by simpa [permits] using permitted
    exact woken_dropFuture_iff apart reached reached' stepped woken
  | dropGuard kind => exact woken_dropGuard_iff reached reached' stepped

/-- The stored future of a `poll_lock` that returned `Pending` holds no notification. -/
theorem silent_of_pollLock {waker : W} (tied : Users.Tied asyncMutex m.value)
    (polled : m.pollLock waker = some (.pending, m')) : ¬m'.StoredNotified := by
  obtain ⟨k, value, tied', taken, state⟩ := pollLock_tied tied polled
  obtain ⟨p, asleep, registered⟩ := Users.registered_of_pending tied' taken
  rintro ⟨_, ⟨j, q, stored, sleeps, rfl⟩, notified⟩
  obtain rfl : k = j := by simpa [PollMutex.stored, state, stateAfter] using stored
  obtain rfl : p = q := Option.some.inj (asleep.symm.trans sleeps)
  exact Bool.false_ne_true (registered.silent.symm.trans notified)

omit [Usize] in
/-- Without a stored future nothing is absorbed. -/
theorem silent_of_locked (state : m.state = .locked) : ¬m.StoredNotified := by
  rintro ⟨_, ⟨_, _, stored, _⟩, _⟩
  simp [PollMutex.stored, state] at stored

end PollMutex

namespace LockedSink

/-- The poll methods of the sink. -/
def Op.isPoll : Op S W M → Bool
  | .pollLock _ | .pollReady _ | .pollFlush _ | .pollClose _ => true
  | _ => false

def Res.isPending : Res E → Bool
  | .locked .pending | .polled .pending => true
  | _ => false

private theorem pending_of_polled {result : Poll (Except E Unit)}
    (pending : (Res.polled result : Res E).isPending = true) : result = .pending := by
  cases result with
  | ready => cases pending
  | pending => rfl

/-- A call that gives its notification to the future the abandoned poll has left. -/
def Absorbs (s : LockedSink S W M E) : Op S W M → Prop
  | .user op => s.lock.Absorbs op
  | _ => False

section

variable [Usize] {sink : Sink S W M E} {s s' : LockedSink S W M E} {waker : W}

private theorem silent_of_withLock
    {body : LockedSink S W M E → Poll (Except E Unit) × LockedSink S W M E}
    (keeps : ∀ s result s', body s = (result, s') → s'.lock = s.lock)
    (tied : Users.Tied asyncMutex s.lock.value)
    (taken : s.withLock body waker = some (.pending, s')) : ¬s'.lock.StoredNotified := by
  rcases withLock_spec taken with ⟨_, lock, polled, rfl⟩ |
    ⟨guard, lock, last, lock', r, polled, ran, dropped, rfl⟩
  · exact PollMutex.silent_of_pollLock tied polled
  · -- the lock was taken, so that its future is gone
    obtain ⟨_, _, _, _, state, _⟩ := PollMutex.pollLock_spec polled
    rw [keeps _ _ _ ran] at dropped
    obtain ⟨_, _, _, rfl⟩ := PollMutex.user_spec dropped
    exact PollMutex.silent_of_locked state

/-- A poll of the sink that returns `Pending` leaves no future that is notified. -/
theorem silent_of_pending {op : Op S W M} {r : Res E} (attempt : op.isPoll = true)
    (pending : r.isPending = true) (tied : Users.Tied asyncMutex s.lock.value)
    (taken : s.step sink op = some (s', r)) : ¬s'.lock.StoredNotified := by
  cases op with
  | user | access | startSend => cases attempt
  | pollLock waker =>
    obtain ⟨⟨result, _⟩, polled, same⟩ := Option.map_eq_some_iff.mp taken
    cases same
    simp only [pollLock] at polled
    split at polled
    · cases polled
    next lock answered =>
      cases polled
      exact PollMutex.silent_of_pollLock tied answered
    · cases polled
      cases pending
  | pollReady waker =>
    obtain ⟨⟨result, _⟩, polled, same⟩ := Option.map_eq_some_iff.mp taken
    cases same
    obtain rfl := pending_of_polled pending
    rcases pollReady_spec polled with ⟨_, ⟨⟩, _⟩ | flushed
    exact silent_of_withLock (fun _ _ _ ran => (pollFlushSlot_spec ran).lock) tied flushed
  | pollFlush waker =>
    obtain ⟨⟨result, _⟩, polled, same⟩ := Option.map_eq_some_iff.mp taken
    cases same
    obtain rfl := pending_of_polled pending
    exact silent_of_withLock (fun _ _ _ => flushThen_lock) tied polled
  | pollClose waker =>
    obtain ⟨⟨result, _⟩, polled, same⟩ := Option.map_eq_some_iff.mp taken
    cases same
    obtain rfl := pending_of_polled pending
    exact silent_of_withLock (fun _ _ _ => flushThen_lock) tied polled

private theorem users_of_run {value : S} {ts} (run : (machine sink value).Run ts s) :
    (Users.machine asyncMutex AsyncMutex.new).Reachable s.lock.value := by
  obtain ⟨⟨_, locks⟩, _⟩ := lock_of_run run
  exact PollMutex.refines_users locks

/-- Once a poll of the sink has returned `Pending` and none is made any more, the futures of
`lock` stay awake exactly as long as no call gives its notification to the future which that
poll has left. -/
theorem lockers_woken_iff {value : S} {before later} {t : Machine.Transition _ _ (Res E)}
    (run : (machine sink value).Run (before ++ t :: later) s)
    (attempt : t.act.isPoll = true) (pending : t.out.isPending = true)
    (abandoned : ∀ u ∈ later, u.act.isPoll = false) :
    (s.lock.LockersWoken ∧ ∀ u ∈ later, u.before.lock.LockersWoken) ↔
      ∀ u ∈ later, ¬u.before.Absorbs u.act := by
  refine run.safe_since_iff_guard (fun s => s.lock.LockersWoken) (fun s op => ¬s.Absorbs op)
    (fun _ op => op.isPoll = false) ?_ ?_ abandoned
  · intro prior taken
    have silent := silent_of_pending attempt pending (tied_of_run prior) taken
    exact (PollMutex.lockersWoken_iff (users_of_run (prior.next taken))).mpr fun _ _ => silent
  · intro ts s op s' r prior woken allowed taken
    cases op with
    | user op =>
      simp only [machine, step, user] at taken
      cases called : s.lock.user op with
      | none => simp [called] at taken
      | some out =>
        simp only [called, Option.map_some, Option.some.injEq, Prod.mk.injEq] at taken
        obtain ⟨rfl, _⟩ := taken
        exact PollMutex.lockersWoken_user_iff (users_of_run prior) called woken
    | access value =>
      simp only [machine, step] at taken
      split at taken
      · cases taken
      · cases taken
        exact iff_of_true woken id
    | startSend item =>
      cases taken
      exact iff_of_true woken id
    | pollLock | pollReady | pollFlush | pollClose => cases allowed

end

/-- A flush is given up while a guard is alive. When the guard is dropped, the flush's future
is notified, and the future of `lock` behind it sleeps on a free mutex. -/
theorem locker_stranded : ∃ before t later, ∃ s : LockedSink (List Nat) Nat Nat Unit,
    (machine collecting []).Run (before ++ t :: later) s ∧
    before.map Machine.Transition.act = [.user (.lock .lockRc), .user (.poll 0 0)] ∧
    t.act = .pollFlush 1 ∧
    later.map Machine.Transition.act =
      [.user (.lock .lockRc), .user (.poll 2 2), .user (.dropGuard .lockRc)] ∧
    t.out.isPending = true ∧ ¬s.lock.LockersWoken := by
  obtain ⟨before, t, later, s, run, begins, act, rest, pending, released, parked, stored,
      notified⟩ := Machine.exists_run_at (m := machine collecting [])
    (P := fun _ t _ s => t.out.isPending = true ∧
      AsyncMutex.holders s.lock.value.guards = 0 ∧
      (parkedIn s.lock.value.futures 2).isSome = true ∧ s.lock.stored = some 1 ∧
      (parkedIn s.lock.value.futures 1).map (fun p =>
        EventListener.isNotified p.listener s.lock.value.lock.event) = some true)
    [.user (.lock .lockRc), .user (.poll 0 0)] (.pollFlush 1)
    [.user (.lock .lockRc), .user (.poll 2 2), .user (.dropGuard .lockRc)] rfl (by decide)
  refine ⟨before, t, later, s, run, begins, act, rest, pending, fun woken => ?_⟩
  obtain ⟨p, asleep⟩ := Option.isSome_iff_exists.mp parked
  obtain ⟨q, waits, notified⟩ := Option.map_eq_some_iff.mp notified
  apply (PollMutex.lockersWoken_iff (users_of_run run)).mp woken
  · exact AsyncMutex.holders_eq_zero released
  · exact ⟨2, p, asleep, by simp [stored]⟩
  · exact ⟨q.listener, ⟨1, q, stored, waits, rfl⟩, notified⟩

/-- A future of `lock` that was in the queue before the flush is woken. -/
theorem locker_woken : ∃ before t later, ∃ s : LockedSink (List Nat) Nat Nat Unit,
    (machine collecting []).Run (before ++ t :: later) s ∧
    before.map Machine.Transition.act =
      [.user (.lock .lockRc), .user (.poll 0 0), .user (.lock .lockRc), .user (.poll 1 7)] ∧
    t.act = .pollFlush 3 ∧
    later.map Machine.Transition.act = [.user (.dropGuard .lockRc)] ∧
    ∃ k p, s.lock.Locker k p ∧ s.lock.value.lock.event.Roused p := by
  obtain ⟨before, t, later, s, run, begins, act, rest, pending, silent, released, parked,
      stored⟩ := Machine.exists_run_at (m := machine collecting [])
    (P := fun _ t later s => t.out.isPending = true ∧
      (∀ u ∈ later, u.act.isPoll = false ∧ u.before.lock.stored = some 2 ∧
        (parkedIn u.before.lock.value.futures 2).map Sleeper.listener = some 1 ∧
        EventListener.isNotified 1 u.before.lock.value.lock.event = false ∧
        u.before.lock.value.lock.event.waiting.head? = some 0) ∧
      AsyncMutex.holders s.lock.value.guards = 0 ∧
      (parkedIn s.lock.value.futures 1).isSome = true ∧ s.lock.stored = some 2)
    [.user (.lock .lockRc), .user (.poll 0 0), .user (.lock .lockRc), .user (.poll 1 7)]
    (.pollFlush 3) [.user (.dropGuard .lockRc)] rfl (by decide)
  refine ⟨before, t, later, s, run, begins, act, rest, ?_⟩
  have woken := (lockers_woken_iff run (by rw [act]; rfl) pending
    fun u member => (silent u member).1).mpr ?_
  · obtain ⟨p, asleep⟩ := Option.isSome_iff_exists.mp parked
    exact woken.1 (AsyncMutex.holders_eq_zero released) ⟨1, p, asleep, by simp [stored]⟩
  · intro u member absorbs
    obtain ⟨_, stored, listener, quiet, first⟩ := silent u member
    obtain ⟨p, waits, on⟩ := Option.map_eq_some_iff.mp listener
    -- the only call is the drop of the guard, and the flush is not first in the queue
    have act : u.act = .user (.dropGuard .lockRc) := by
      have named := List.mem_map_of_mem (f := Machine.Transition.act) member
      rwa [rest, List.mem_singleton] at named
    rw [act] at absorbs
    obtain ⟨_, id, ⟨k, q, kept, sleeps, rfl⟩, takes⟩ := absorbs
    obtain rfl : 2 = k := Option.some.inj (stored.symm.trans kept)
    obtain rfl : p = q := Option.some.inj (waits.symm.trans sleeps)
    rw [on] at takes
    rcases takes with already | ⟨_, head⟩
    · exact Bool.false_ne_true (quiet.symm.trans already)
    · exact absurd (first.symm.trans head) (by decide)

end LockedSink

end Eneste
