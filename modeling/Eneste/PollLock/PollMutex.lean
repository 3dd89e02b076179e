import Eneste.Library.Loop
import Eneste.Lock.Mutex

/-!
# The mutex with a poll method

`AsyncPollMutex` of `poll_lock.rs` keeps the future of an unfinished `poll_lock` between
two calls. Each of its calls is some calls of users of the mutex, so that whatever
holds along their runs holds along its runs.
-/

namespace Eneste

open AsyncMutex (asyncMutex)

variable {W : Type}

/-- `AsyncPollMutexState`; the stored future is given by its name. -/
inductive PollState where
  | unlocking (future : Nat)
  | locked
  deriving DecidableEq

structure PollMutex (W : Type) where
  /-- The mutex, with its futures and guards, wherever these are kept. -/
  value : Users W (AsyncMutex W) AsyncMutex.Kind
  state : PollState
  /-- The `AsyncPollMutex` itself has not been dropped. -/
  alive : Bool

namespace PollMutex

/-- `AsyncPollMutex::new`. -/
def new : PollMutex W := ⟨Users.new AsyncMutex.new, .locked, true⟩

/-- The future that is stored between two calls of `poll_lock`. -/
def stored (m : PollMutex W) : Option Nat :=
  match m.state with
  | .unlocking future => some future
  | .locked => none

inductive Op (W : Type) where
  | user (op : Users.Op W AsyncMutex.Kind)
  | pollLock (waker : W)
  | drop

inductive Res where
  | user (result : Users.Res AsyncMutex.Kind)
  | polled (result : Poll AsyncMutex.Kind)
  | done

section

variable [Usize]

/-- One turn of the loop in `poll_lock`. -/
def pollLockTurn (waker : W) (m : PollMutex W) :
    Option (LoopTurn (PollMutex W) (Poll AsyncMutex.Kind)) :=
  match m.state with
  | .unlocking future =>
    match m.value.step asyncMutex (.poll future waker) with
    | some (value, .polled .pending) => some (.done .pending { m with value := value })
    | some (value, .polled (.ready guard)) =>
      some (.done (.ready guard) { m with value := value, state := .locked })
    | _ => none
  | .locked =>
    match m.value.step asyncMutex (.lock .lockRc) with
    | some (value, .created future) =>
      some (.again { m with value := value, state := .unlocking future })
    | _ => none

/-- `AsyncPollMutex::poll_lock`. Two turns are enough: see `pollLock_spec`. -/
def pollLock (waker : W) (m : PollMutex W) : Option (Poll AsyncMutex.Kind × PollMutex W) :=
  LoopTurn.loop (pollLockTurn waker) 2 m

/-- The callers hold every future but the stored one, and only a live mutex makes new ones. -/
def permits (m : PollMutex W) : Users.Op W AsyncMutex.Kind → Bool
  | .lock _ => m.alive
  | .poll future _ => m.stored != some future
  | .dropFuture future => m.stored != some future
  | .dropGuard _ => true

/-- A call on a future or a guard of the mutex, `AsyncPollMutex::lock` among them. -/
def user (op : Users.Op W AsyncMutex.Kind) (m : PollMutex W) :
    Option (PollMutex W × Users.Res AsyncMutex.Kind) :=
  if m.permits op then
    match m.value.step asyncMutex op with
    | none => none
    | some (value, result) => some ({ m with value := value }, result)
  else none

/-- Drop the mutex: its stored future goes with it. -/
def drop (m : PollMutex W) : Option (PollMutex W) :=
  match m.stored with
  | none => some { m with alive := false }
  | some future =>
    match m.value.step asyncMutex (.dropFuture future) with
    | none => none
    | some (value, _) => some { value := value, state := .locked, alive := false }

def step (m : PollMutex W) : Op W → Option (PollMutex W × Res)
  | .user op =>
    match m.user op with
    | none => none
    | some (m, result) => some (m, .user result)
  | .pollLock waker =>
    if m.alive then
      match m.pollLock waker with
      | none => none
      | some (result, m) => some (m, .polled result)
    else none
  | .drop =>
    if m.alive then
      match m.drop with
      | none => none
      | some m => some (m, .done)
    else none

def machine : Machine (PollMutex W) (Op W) Res where
  init m := m = new
  step := step

/-! ### What `poll_lock` does -/

/-- Where a poll of the stored future leaves the state machine. -/
def stateAfter (future : Nat) : Poll AsyncMutex.Kind → PollState
  | .pending => .unlocking future
  | .ready _ => .locked

variable {m m' : PollMutex W} {waker : W} {result : Poll AsyncMutex.Kind}

private theorem loop_unlocking {k : Nat} (turns : Nat) (unlocking : m.state = .unlocking k)
    (polled : LoopTurn.loop (pollLockTurn waker) (turns + 1) m = some (result, m')) :
    m.value.step asyncMutex (.poll k waker) = some (m'.value, .polled result) ∧
      m'.state = stateAfter k result ∧ m'.alive = m.alive := by
  simp only [LoopTurn.loop, pollLockTurn, unlocking] at polled
  cases taken : m.value.step asyncMutex (.poll k waker) with
  | none => simp [taken] at polled
  | some out =>
    obtain ⟨value, _ | _ | (guard | _)⟩ := out
    · simp [taken] at polled
    · simp [taken] at polled
    · simp only [taken, Option.some.injEq, Prod.mk.injEq] at polled
      obtain ⟨rfl, rfl⟩ := polled
      exact ⟨rfl, rfl, rfl⟩
    · simp only [taken, Option.some.injEq, Prod.mk.injEq] at polled
      obtain ⟨rfl, rfl⟩ := polled
      exact ⟨rfl, rfl, rfl⟩

/-- `poll_lock` polls the stored future, after it has made one if there is none. -/
theorem pollLock_spec (polled : m.pollLock waker = some (result, m')) :
    ∃ k value, (m.state = .unlocking k ∧ value = m.value ∨
        m.state = .locked ∧ m.value.step asyncMutex (.lock .lockRc) = some (value, .created k)) ∧
      value.step asyncMutex (.poll k waker) = some (m'.value, .polled result) ∧
      m'.state = stateAfter k result ∧ m'.alive = m.alive := by
  cases state : m.state with
  | unlocking k =>
    exact ⟨k, m.value, .inl ⟨rfl, rfl⟩, loop_unlocking 1 state polled⟩
  | locked =>
    have turn : pollLockTurn waker m = some (.again { m with
        value := { m.value with
          futures := m.value.futures.insert m.value.created { waiter := .idle, own := .lockRc }
          created := m.value.created + 1 }
        state := .unlocking m.value.created }) := by
      simp only [pollLockTurn, state, Users.step]
    rw [pollLock, LoopTurn.loop_again turn] at polled
    exact ⟨m.value.created, _, .inr ⟨rfl, rfl⟩, loop_unlocking 0 rfl polled⟩

/-- The future it polls belongs to a mutex whose listeners are in order. -/
theorem pollLock_tied (tied : Users.Tied asyncMutex m.value)
    (polled : m.pollLock waker = some (result, m')) :
    ∃ k value, Users.Tied asyncMutex value ∧
      value.step asyncMutex (.poll k waker) = some (m'.value, .polled result) ∧
      m'.state = stateAfter k result := by
  obtain ⟨k, value, before, taken, state, _⟩ := pollLock_spec polled
  rcases before with ⟨_, rfl⟩ | ⟨_, made⟩
  · exact ⟨k, _, tied, taken, state⟩
  · exact ⟨k, _, tied.step AsyncMutex.lawful made, taken, state⟩

theorem locked_of_ready (tied : Users.Tied asyncMutex m.value) {guard : AsyncMutex.Kind}
    (polled : m.pollLock waker = some (.ready guard, m')) : m'.value.lock.locked = true := by
  obtain ⟨k, value, tied', taken, _⟩ := pollLock_tied tied polled
  exact AsyncMutex.locked_of_ready tied' taken

private theorem moves_one {u u' : Users W (AsyncMutex W) AsyncMutex.Kind}
    {op : Users.Op W AsyncMutex.Kind} {r : Users.Res AsyncMutex.Kind}
    (taken : u.step asyncMutex op = some (u', r)) :
    (Users.machine asyncMutex AsyncMutex.new).Moves u u' :=
  Machine.Moves.one (m := Users.machine asyncMutex AsyncMutex.new) taken

theorem pollLock_moves (polled : m.pollLock waker = some (result, m')) :
    (Users.machine asyncMutex AsyncMutex.new).Moves m.value m'.value := by
  obtain ⟨k, value, before, taken, _⟩ := pollLock_spec polled
  rcases before with ⟨_, rfl⟩ | ⟨_, made⟩
  · exact moves_one taken
  · exact (moves_one made).trans (moves_one taken)

theorem user_spec {op : Users.Op W AsyncMutex.Kind} {r : Users.Res AsyncMutex.Kind}
    (taken : m.user op = some (m', r)) :
    m.permits op = true ∧
      ∃ value, m.value.step asyncMutex op = some (value, r) ∧ m' = { m with value := value } := by
  unfold user at taken
  split at taken
  next permitted =>
    split at taken
    · cases taken
    next value result stepped =>
      cases taken
      exact ⟨permitted, value, stepped, rfl⟩
  · cases taken

theorem drop_moves (dropped : m.drop = some m') :
    (Users.machine asyncMutex AsyncMutex.new).Moves m.value m'.value := by
  unfold drop at dropped
  split at dropped
  · cases dropped
    exact .refl
  · split at dropped
    · cases dropped
    next taken =>
      cases dropped
      exact moves_one taken

/-- A mutex that is dropped leaves no future stored. -/
theorem stored_of_drop (dropped : m.drop = some m') : m'.stored = none := by
  unfold drop at dropped
  split at dropped
  next nothing =>
    cases dropped
    exact nothing
  · split at dropped
    · cases dropped
    · cases dropped
      rfl

theorem step_cases {op : Op W} {r : Res} (taken : m.step op = some (m', r)) :
    (∃ call res, op = .user call ∧ m.user call = some (m', res)) ∨
      (∃ waker result, op = .pollLock waker ∧ m.pollLock waker = some (result, m')) ∨
      op = .drop ∧ m.drop = some m' := by
  cases op with
  | user call =>
    simp only [step] at taken
    split at taken
    · cases taken
    next stepped =>
      cases taken
      exact .inl ⟨call, _, rfl, stepped⟩
  | pollLock waker =>
    simp only [step] at taken
    split at taken
    · split at taken
      · cases taken
      next polled =>
        cases taken
        exact .inr (.inl ⟨waker, _, rfl, polled⟩)
    · cases taken
  | drop =>
    simp only [step] at taken
    split at taken
    · split at taken
      · cases taken
      next dropped =>
        cases taken
        exact .inr (.inr ⟨rfl, dropped⟩)
    · cases taken

/-- Whatever happens to the mutex could have been done by its users. -/
theorem refines_users {ts} (run : machine.Run ts m) :
    (Users.machine asyncMutex AsyncMutex.new).Reachable m.value := by
  apply run.refines (fun m => m.value)
  · rintro _ rfl
    rfl
  · intro _ m op m' r _ taken
    rcases step_cases taken with ⟨call, res, rfl, stepped⟩ | ⟨waker, result, rfl, polled⟩ |
      ⟨rfl, dropped⟩
    · obtain ⟨_, value, moved, rfl⟩ := user_spec stepped
      exact moves_one moved
    · exact pollLock_moves polled
    · exact drop_moves dropped

/-- Of the guards from `lock`, `lock_rc` and `poll_lock` at most one is alive, and the
flag says whether there is one. -/
theorem guards_exclusive :
    (∀ ts u, (Users.machine asyncMutex (AsyncMutex.new : AsyncMutex W)).Run ts u →
      AsyncMutex.holders u.guards ≤ 1 ∧
        (u.lock.locked = true ↔ AsyncMutex.holders u.guards = 1)) ∧
    ∀ ts (m : PollMutex W), machine.Run ts m →
      AsyncMutex.holders m.value.guards ≤ 1 ∧
        (m.value.lock.locked = true ↔ AsyncMutex.holders m.value.guards = 1) := by
  constructor
  · intro ts u run
    exact AsyncMutex.exclusive_of_run run
  · intro ts m run
    obtain ⟨us, simulated⟩ := refines_users run
    exact AsyncMutex.exclusive_of_run simulated

end

/-- A future of `lock` has the guard, so that `poll_lock` has to wait, until the guard is
dropped and another call succeeds. -/
theorem poll_lock_waits : ∃ ts, ∃ m : PollMutex Nat, machine.Run ts m ∧
    ts.map Machine.Transition.act =
      [.user (.lock .lockRc), .user (.poll 0 0), .pollLock 1, .user (.dropGuard .lockRc),
        .pollLock 1] ∧
    (∃ t ∈ ts, t.after.stored = some 1) ∧ AsyncMutex.holders m.value.guards = 1 := by
  obtain ⟨ts, m, run, acts, waited, locked⟩ := Machine.exists_run
    (m := machine (W := Nat))
    (P := fun ts m => (∃ t ∈ ts, t.after.stored = some 1) ∧ m.value.lock.locked = true)
    [.user (.lock .lockRc), .user (.poll 0 0), .pollLock 1, .user (.dropGuard .lockRc),
      .pollLock 1] rfl (by decide)
  exact ⟨ts, m, run, acts, waited, (guards_exclusive.2 ts m run).2.mp locked⟩

end PollMutex

end Eneste
