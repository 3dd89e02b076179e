import Eneste.Library.Machine
import Eneste.Event.Future

/-!
# Users of a lock

The futures of `mutex.rs` and `rwlock.rs` share one body: ask whether the lock
admits them, take it and return a guard, or wait on the lock's one event. `Lock`
holds what differs between them; `Users` is everything a program holds of one lock.
-/

namespace Eneste

variable {W S K : Type}

/-- A lock with state `S` and futures and guards of the kinds `K`. -/
structure Lock (W S K : Type) where
  event : EventField S W
  /-- The condition in the `Idle` arm. -/
  admits : K → S → Bool
  /-- What the `Idle` arm does before it returns the guard. -/
  acquire : K → S → S
  /-- The guard's `drop`; `none` is a failed assertion. -/
  release : K → S → Option S

/-- The `Idle` arm of `poll`. -/
def Lock.attempt (lock : Lock W S K) (kind : K) (s : S) : Attempt Unit S :=
  if lock.admits kind s then .ready () (lock.acquire kind s) else .wait

structure Users (W S K : Type) where
  lock : S
  futures : OrderedMap Nat (Future W K)
  /-- Futures made so far: their names. -/
  created : Nat
  /-- Live guards of each kind. -/
  guards : K → Nat

namespace Users

inductive Op (W K : Type) where
  | lock (kind : K)
  | poll (future : Nat) (waker : W)
  | dropFuture (future : Nat)
  | dropGuard (kind : K)

inductive Res (K : Type) where
  | done
  | created (future : Nat)
  | polled (result : Poll K)

def new (s : S) : Users W S K := ⟨s, OrderedMap.empty, 0, fun _ => 0⟩

variable [DecidableEq K] (lock : Lock W S K)

def addGuard (guards : K → Nat) (kind : K) : K → Nat :=
  fun other => if other = kind then guards other + 1 else guards other

def dropGuard (guards : K → Nat) (kind : K) : K → Nat :=
  fun other => if other = kind then guards other - 1 else guards other

/-- Poll a future. A completed future is not polled again. -/
def poll (u : Users W S K) (future : Nat) (waker : W) : Option (Users W S K × Res K) :=
  match u.futures.get? future with
  | none => none
  | some f =>
    match f.waiter.poll lock.event (lock.attempt f.own) waker u.lock with
    | none => none
    | some (.pending, s, waiter) =>
      some ({ u with lock := s, futures := u.futures.insert future { f with waiter := waiter } },
        .polled .pending)
    | some (.ready (), s, _) =>
      some ({ u with
        lock := s
        futures := u.futures.erase future
        guards := addGuard u.guards f.own }, .polled (.ready f.own))

/-- Drop a future: its listener goes with it. -/
def dropFuture (u : Users W S K) (future : Nat) : Option (Users W S K × Res K) :=
  match u.futures.get? future with
  | none => none
  | some f =>
    let s :=
      match f.waiter.sleeper with
      | none => u.lock
      | some p => lock.event.set u.lock (EventListener.drop p.listener (lock.event.get u.lock))
    some ({ u with lock := s, futures := u.futures.erase future }, .done)

/-- One call by a user of the lock. -/
def step (u : Users W S K) : Op W K → Option (Users W S K × Res K)
  | .lock kind =>
    some ({ u with
      futures := u.futures.insert u.created { waiter := .idle, own := kind }
      created := u.created + 1 }, .created u.created)
  | .poll future waker => u.poll lock future waker
  | .dropFuture future => u.dropFuture lock future
  | .dropGuard kind =>
    if u.guards kind = 0 then none
    else
      match lock.release kind u.lock with
      | none => none
      | some s => some ({ u with lock := s, guards := dropGuard u.guards kind }, .done)

def machine (s : S) : Machine (Users W S K) (Op W K) (Res K) where
  init u := u = new s
  step := step lock

/-! ### What a poll can do -/

/-- The outcomes of polling the future `k`. -/
inductive Polled (u : Users W S K) (k : Nat) (waker : W) (f : Future W K) :
    Users W S K → Res K → Prop
  | asleep {p} (parked : f.waiter = .parked p)
      (silent : EventListener.isNotified p.listener (lock.event.get u.lock) = false) :
      Polled u k waker f
        { u with
          lock := lock.event.set u.lock ((lock.event.get u.lock).await p.listener waker)
          futures := u.futures.insert k { f with
            waiter := .parked ⟨p.listener, waker, (lock.event.get u.lock).woken.length⟩ } }
        (.polled .pending)
  | acquired (runnable : f.waiter.Runnable (lock.event.get u.lock))
      (admitted : lock.admits f.own
        (lock.event.set u.lock (f.waiter.settled (lock.event.get u.lock))) = true) :
      Polled u k waker f
        { u with
          lock := lock.acquire f.own
            (lock.event.set u.lock (f.waiter.settled (lock.event.get u.lock)))
          futures := u.futures.erase k
          guards := addGuard u.guards f.own }
        (.polled (.ready f.own))
  | parks (runnable : f.waiter.Runnable (lock.event.get u.lock))
      (refused : lock.admits f.own
        (lock.event.set u.lock (f.waiter.settled (lock.event.get u.lock))) = false) :
      Polled u k waker f
        { u with
          lock := lock.event.set u.lock
            ((f.waiter.settled (lock.event.get u.lock)).register waker)
          futures := u.futures.insert k { f with
            waiter := .parked ⟨(f.waiter.settled (lock.event.get u.lock)).nextId, waker,
              (f.waiter.settled (lock.event.get u.lock)).woken.length⟩ } }
        (.polled .pending)

variable {lock} {u u' : Users W S K} {r : Res K}

theorem poll_spec {k : Nat} {waker : W} {valid : K → Prop}
    (side : Attached (lock.event.get u.lock) u.futures u.created valid)
    (taken : u.poll lock k waker = some (u', r)) :
    ∃ f, u.futures.get? k = some f ∧ Polled lock u k waker f u' r := by
  unfold poll at taken
  split at taken
  · cases taken
  next f live =>
    refine ⟨f, live, ?_⟩
    cases polled : f.waiter.poll lock.event (lock.attempt f.own) waker u.lock with
    | none => simp [polled] at taken
    | some out =>
      obtain ⟨result, s, waiter⟩ := out
      -- either the listener is silent, or the lock is asked and admits or refuses
      rcases Waiter.poll_cases _ _ _ (fun p parked => side.tracked live parked) polled with
        ⟨p, parked, silent, rfl, rfl, rfl⟩ | ⟨runnable, finished⟩
      · simp only [polled, Option.some.injEq, Prod.mk.injEq] at taken
        obtain ⟨rfl, rfl⟩ := taken
        exact .asleep parked silent
      · simp only [Waiter.finishOrPark, Lock.attempt] at finished
        cases admitted : lock.admits f.own
            (lock.event.set u.lock (f.waiter.settled (lock.event.get u.lock))) with
        | true =>
          simp only [admitted, ite_true, Option.some.injEq, Prod.mk.injEq] at finished
          obtain ⟨rfl, rfl, rfl⟩ := finished
          simp only [polled, Option.some.injEq, Prod.mk.injEq] at taken
          obtain ⟨rfl, rfl⟩ := taken
          exact .acquired runnable admitted
        | false =>
          simp only [admitted, Bool.false_eq_true, ite_false, Option.some.injEq,
            Prod.mk.injEq, lock.event.get_set, lock.event.set_set] at finished
          obtain ⟨rfl, rfl, rfl⟩ := finished
          simp only [polled, Option.some.injEq, Prod.mk.injEq] at taken
          obtain ⟨rfl, rfl⟩ := taken
          exact .parks runnable admitted

omit [DecidableEq K] in
/-- A dropped future takes its listener along, if it has one. -/
theorem dropFuture_cases {k : Nat} (taken : u.dropFuture lock k = some (u', r)) :
    (parkedIn u.futures k = none ∧ u' = { u with futures := u.futures.erase k }) ∨
      ∃ f p, u.futures.get? k = some f ∧ f.waiter = .parked p ∧ u' = { u with
        lock := lock.event.set u.lock (EventListener.drop p.listener (lock.event.get u.lock))
        futures := u.futures.erase k } := by
  unfold dropFuture at taken
  split at taken
  · cases taken
  next f live =>
    cases taken
    cases parked : f.waiter with
    | idle => exact .inl ⟨parkedIn_of_idle live parked, rfl⟩
    | parked p => exact .inr ⟨f, p, live, parked, rfl⟩

/-- A guard that is dropped was alive, and its destructor succeeded. -/
theorem dropGuard_cases {kind : K} (taken : u.step lock (.dropGuard kind) = some (u', r)) :
    0 < u.guards kind ∧ ∃ s, lock.release kind u.lock = some s ∧
      u' = { u with lock := s, guards := dropGuard u.guards kind } := by
  simp only [step] at taken
  split at taken
  · cases taken
  next held =>
    split at taken
    · cases taken
    next s released =>
      cases taken
      exact ⟨Nat.pos_of_ne_zero held, s, released, rfl⟩

end Users

/-! ### The listeners of a lock are its parked futures -/

/-- Taking the lock and dropping a guard each notify one listener, and which futures
the lock admits does not depend on its event. -/
structure Lock.Lawful [Usize] (lock : Lock W S K) : Prop where
  acquire : ∀ kind s,
    lock.event.get (lock.acquire kind s) = Event.notify (.usize 1) (lock.event.get s)
  release : ∀ kind s s', lock.release kind s = some s' →
    lock.event.get s' = Event.notify (.usize 1) (lock.event.get s)
  admits : ∀ kind s inner, lock.admits kind (lock.event.set s inner) = lock.admits kind s

namespace Users

variable [Usize] [DecidableEq K] {lock : Lock W S K} {u u' : Users W S K} {r : Res K}

def Tied (lock : Lock W S K) (u : Users W S K) : Prop :=
  Attached (lock.event.get u.lock) u.futures u.created fun _ => True

theorem Tied.step (lawful : lock.Lawful) {op : Op W K} (tied : Tied lock u)
    (taken : u.step lock op = some (u', r)) : Tied lock u' := by
  cases op with
  | lock kind =>
    cases taken
    exact Attached.create tied kind trivial
  | poll k waker =>
    obtain ⟨f, live, polled⟩ := poll_spec tied taken
    cases polled with
    | asleep parked silent =>
      have kept := Attached.await tied live parked silent waker
      simpa only [Tied, lock.event.get_set] using kept
    | acquired runnable admitted =>
      -- the future is gone, and acquiring notifies one listener
      have kept := (Attached.finish tied live runnable).notify (.usize 1)
      simpa only [Tied, lawful.acquire, lock.event.get_set] using kept
    | parks runnable refused =>
      -- refused: a fresh listener takes the place of the one consumed
      have kept := Attached.repark tied live runnable waker
      simpa only [Tied, lock.event.get_set] using kept
  | dropFuture k =>
    rcases dropFuture_cases taken with ⟨idle, rfl⟩ | ⟨f, p, live, parked, rfl⟩
    · exact Attached.leave tied idle
    · have kept := Attached.dropParked tied live parked
      simpa only [Tied, lock.event.get_set] using kept
  | dropGuard kind =>
    obtain ⟨_, s, released, rfl⟩ := dropGuard_cases taken
    have kept := Attached.notify tied (.usize 1)
    simpa only [Tied, lawful.release _ _ _ released] using kept

omit [Usize] in
/-- A future whose poll returns `Pending` is parked on a listener that has its waker. -/
theorem registered_of_pending (tied : Tied lock u) {k : Nat} {waker : W}
    (taken : u.step lock (.poll k waker) = some (u', .polled .pending)) :
    ∃ p, parkedIn u'.futures k = some p ∧
      (lock.event.get u'.lock).Registered waker p.listener := by
  obtain ⟨f, _, polled⟩ := poll_spec tied taken
  cases polled with
  | asleep =>
    refine ⟨_, by simp [Waiter.sleeper]; rfl, ?_⟩
    rw [lock.event.get_set]
    exact Inner.registered_await _ waker _
  | parks =>
    refine ⟨_, by simp [Waiter.sleeper]; rfl, ?_⟩
    rw [lock.event.get_set]
    exact Inner.registered_register _ waker

theorem tied_of_run (lawful : lock.Lawful) {s : S} (tied : Tied lock (new s)) {ts}
    (run : (machine lock s).Run ts u) : Tied lock u := by
  refine run.invariant ?_ fun _ _ _ _ kept taken => kept.step lawful taken
  rintro _ rfl
  exact tied

end Users

end Eneste
