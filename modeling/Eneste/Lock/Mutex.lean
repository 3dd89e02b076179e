import Eneste.Lock.Holders

/-!
# The mutex

`lock/mutex.rs`. Both acquiring and releasing the mutex notify one waiting future. At
most one guard is alive, and a mutex that nobody holds has woken somebody who waits.
-/

namespace Eneste

variable {W : Type}

/-- `AsyncMutexInner`, without the value it protects. -/
structure AsyncMutex (W : Type) where
  event : Inner W Unit
  locked : Bool

namespace AsyncMutex

/-- `AsyncMutex::new`. -/
def new : AsyncMutex W := ⟨Event.new, false⟩

def isLocked (mutex : AsyncMutex W) : Bool := mutex.locked

/-- The two methods that make a future, for the futures and the guards they lead to. -/
inductive Kind where
  | lock
  | lockRc
  deriving DecidableEq

/-- The live guards, `LockGuard` and `RcLockGuard`. -/
def holders (guards : Kind → Nat) : Nat := guards .lock + guards .lockRc

theorem holders_addGuard (guards : Kind → Nat) (kind : Kind) :
    holders (Users.addGuard guards kind) = holders guards + 1 := by
  cases kind <;> simp only [holders, Users.addGuard] <;> simp <;> omega

theorem holders_dropGuard (guards : Kind → Nat) (kind : Kind) (held : 0 < guards kind) :
    holders (Users.dropGuard guards kind) = holders guards - 1 := by
  cases kind <;> simp only [holders, Users.dropGuard] <;> simp <;> omega

/-- Without a holder there is no guard of either kind. -/
theorem holders_eq_zero {guards : Kind → Nat} (nobody : holders guards = 0) (kind : Kind) :
    guards kind = 0 := by
  unfold holders at nobody
  cases kind <;> omega

section

variable [Usize]

def lock (mutex : AsyncMutex W) : AsyncMutex W :=
  { mutex with locked := true, event := Event.notify (.usize 1) mutex.event }

def unlock (mutex : AsyncMutex W) : AsyncMutex W :=
  { mutex with locked := false, event := Event.notify (.usize 1) mutex.event }

def asyncMutex : Lock W (AsyncMutex W) Kind where
  event :=
    { get := AsyncMutex.event
      set := fun mutex inner => { mutex with event := inner }
      get_set := fun _ _ => rfl
      set_get := fun _ => rfl
      set_set := fun _ _ _ => rfl }
  -- `poll` of the two futures
  admits
    | .lock, mutex => !mutex.isLocked
    | .lockRc, mutex => !mutex.isLocked
  acquire
    | .lock, mutex => mutex.lock
    | .lockRc, mutex => mutex.lock
  -- `drop` of the two guards
  release
    | .lock, mutex => some mutex.unlock
    | .lockRc, mutex => some mutex.unlock

theorem lawful : (asyncMutex : Lock W (AsyncMutex W) Kind).Lawful where
  acquire kind mutex := by cases kind <;> rfl
  release kind mutex mutex' released := by cases kind <;> cases released <;> rfl
  admits kind mutex inner := by cases kind <;> rfl

theorem tied_new : Users.Tied asyncMutex (Users.new (AsyncMutex.new : AsyncMutex W)) :=
  Attached.new 0 _

/-! ### Who holds it -/

/-- At most one guard is alive, and the flag says whether there is one. -/
def Exclusive (mutex : AsyncMutex W) (guards : Kind → Nat) : Prop :=
  holders guards ≤ 1 ∧ (mutex.locked = true ↔ holders guards = 1)

theorem admits_iff (kind : Kind) (mutex : AsyncMutex W) :
    asyncMutex.admits kind mutex = true ↔ mutex.locked = false := by
  cases kind <;> simp [asyncMutex, isLocked]

theorem keeps : (asyncMutex : Lock W (AsyncMutex W) Kind).Keeps Exclusive where
  set _ _ _ exclusive := exclusive
  acquire kind mutex guards exclusive admitted := by
    have unlocked := (admits_iff kind mutex).mp admitted
    have nobody : holders guards = 0 := by
      have := exclusive.1
      have := mt exclusive.2.mpr (by simp [unlocked])
      omega
    have locks : (asyncMutex.acquire kind mutex).locked = true := by cases kind <;> rfl
    simp [Exclusive, holders_addGuard, nobody, locks]
  release kind mutex mutex' guards exclusive held released := by
    have unlocks : mutex'.locked = false := by cases kind <;> cases released <;> rfl
    have nobody : holders (Users.dropGuard guards kind) = 0 := by
      have := exclusive.1
      rw [holders_dropGuard guards kind held]
      omega
    simp [Exclusive, nobody, unlocks]

variable {u : Users W (AsyncMutex W) Kind}

theorem exclusive_of_run {ts} (run : (Users.machine asyncMutex new).Run ts u) :
    Exclusive u.lock u.guards :=
  Users.books_of_run lawful keeps tied_new (by simp [Exclusive, holders, new]) run

/-- Whoever is given a guard has locked the mutex. -/
theorem locked_of_ready {u u' : Users W (AsyncMutex W) Kind} (tied : Users.Tied asyncMutex u)
    {k : Nat} {waker : W} {kind : Kind}
    (taken : u.step asyncMutex (.poll k waker) = some (u', .polled (.ready kind))) :
    u'.lock.locked = true := by
  obtain ⟨f, _, polled⟩ := Users.poll_spec tied taken
  cases polled with
  | acquired => cases f.own <;> rfl

/-- A mutex without guards is free. -/
theorem Exclusive.free (exclusive : Exclusive u.lock u.guards)
    (released : ∀ kind, u.guards kind = 0) : asyncMutex.Free u.lock := by
  intro kind
  apply (admits_iff kind u.lock).mpr
  have := exclusive.2
  simpa [holders, released] using this

/-- While no guard is alive one of the parked futures has been woken, and whichever of
them is notified acquires the mutex when it is polled. -/
theorem waiter_proceeds {ts} (run : (Users.machine asyncMutex new).Run ts u)
    (released : ∀ kind, u.guards kind = 0) :
    ((∃ k p, parkedIn u.futures k = some p) →
      ∃ k p, parkedIn u.futures k = some p ∧ u.lock.event.Roused p) ∧
    ∀ k p waker, parkedIn u.futures k = some p →
      EventListener.isNotified p.listener u.lock.event = true →
      ∃ kind u', u.step asyncMutex (.poll k waker) = some (u', .polled (.ready kind)) ∧
        u'.guards kind = 1 := by
  have free := (exclusive_of_run run).free released
  refine ⟨Users.roused_of_free lawful tied_new run free, ?_⟩
  intro k p waker asleep notified
  obtain ⟨kind, u', polled, guards⟩ := Users.poll_free lawful free asleep notified waker
  exact ⟨kind, u', polled, by simp [guards, Users.addGuard, released]⟩

end

/-- The guard is dropped while a future waits: its waker is woken. -/
theorem waiter_woken : ∃ ts, ∃ u : Users Nat (AsyncMutex Nat) Kind,
    (Users.machine asyncMutex new).Run ts u ∧
    ts.map Machine.Transition.act =
      [.lock .lockRc, .poll 0 0, .lock .lock, .poll 1 7, .dropGuard .lockRc] ∧
    ∃ k p, parkedIn u.futures k = some p ∧ u.lock.event.Roused p := by
  obtain ⟨ts, u, run, acts, released, parked⟩ := Machine.exists_run
    (m := Users.machine asyncMutex (new : AsyncMutex Nat))
    (P := fun _ u => holders u.guards = 0 ∧ (parkedIn u.futures 1).isSome = true)
    [.lock .lockRc, .poll 0 0, .lock .lock, .poll 1 7, .dropGuard .lockRc] rfl (by decide)
  obtain ⟨p, asleep⟩ := Option.isSome_iff_exists.mp parked
  exact ⟨ts, u, run, acts, (waiter_proceeds run (holders_eq_zero released)).1 ⟨1, p, asleep⟩⟩

end AsyncMutex

end Eneste
