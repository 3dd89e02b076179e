import Eneste.PollLock.PollMutex

/-!
# The locked sink

`LockedSink` of `poll_lock.rs` buffers one item in front of a sink behind a mutex, for
any such sink. Its log records, in order, who holds the lock and what the inner sink is
asked and answers; no code reads it.
-/

namespace Eneste

variable {S W M E : Type}

/-- An implementation of the trait `Sink`, on a state `S`. -/
structure Sink (S W M E : Type) where
  pollReady : W → S → Poll (Except E Unit) × S
  startSend : M → S → Except E Unit × S
  pollFlush : W → S → Poll (Except E Unit) × S
  pollClose : W → S → Poll (Except E Unit) × S

/-- A call on the inner sink and its answer. -/
inductive SinkCall (M E : Type) where
  | pollReady (answer : Poll (Except E Unit))
  | startSend (item : M) (answer : Except E Unit)
  | pollFlush (answer : Poll (Except E Unit))
  | pollClose (answer : Poll (Except E Unit))

inductive SinkEvent (M E : Type) where
  /-- A guard of the mutex is handed out, to the sink or to anybody else. -/
  | acquired
  | released
  /-- The inner sink is called; `locked` is the mutex's flag at that moment. -/
  | called (locked : Bool) (call : SinkCall M E)
  /-- `LockedSink::start_send` takes an item. -/
  | accepted (item : M)

structure LockedSink (S W M E : Type) where
  lock : PollMutex W
  slot : Option M
  /-- The value behind the mutex. -/
  inner : S
  log : List (SinkEvent M E)

namespace LockedSink

/-- `LockedSink::new`. -/
def new (value : S) : LockedSink S W M E := ⟨PollMutex.new, none, value, []⟩

inductive Op (S W M : Type) where
  /-- A call on a future of `lock` or on a guard. -/
  | user (op : Users.Op W AsyncMutex.Kind)
  /-- Whoever holds a guard changes the value. -/
  | access (value : S)
  | pollLock (waker : W)
  | pollReady (waker : W)
  | startSend (item : M)
  | pollFlush (waker : W)
  | pollClose (waker : W)

inductive Res (E : Type) where
  | user (result : Users.Res AsyncMutex.Kind)
  | locked (result : Poll AsyncMutex.Kind)
  | polled (result : Poll (Except E Unit))
  | sent (result : Except E Unit)
  | done

/-- The inner sink has been called. -/
def called (call : SinkCall M E) (inner : S) (s : LockedSink S W M E) : LockedSink S W M E :=
  { s with inner := inner, log := s.log ++ [.called s.lock.value.lock.locked call] }

/-- What a call on a future or a guard adds to the log. -/
def noted : Users.Op W AsyncMutex.Kind → Users.Res AsyncMutex.Kind → List (SinkEvent M E)
  | .poll _ _, .polled (.ready _) => [.acquired]
  | .dropGuard _, _ => [.released]
  | _, _ => []

variable [Usize]

def user (op : Users.Op W AsyncMutex.Kind) (s : LockedSink S W M E) :
    Option (LockedSink S W M E × Users.Res AsyncMutex.Kind) :=
  match s.lock.user op with
  | none => none
  | some (lock, result) => some ({ s with lock := lock, log := s.log ++ noted op result }, result)

/-- `LockedSink::poll_lock`. -/
def pollLock (waker : W) (s : LockedSink S W M E) :
    Option (Poll AsyncMutex.Kind × LockedSink S W M E) :=
  match s.lock.pollLock waker with
  | none => none
  | some (.pending, lock) => some (.pending, { s with lock := lock })
  | some (.ready guard, lock) =>
    some (.ready guard, { s with lock := lock, log := s.log ++ [.acquired] })

/-- `ready!(poll_lock)` and a body that runs with the guard in scope. -/
def withLock (body : LockedSink S W M E → Poll (Except E Unit) × LockedSink S W M E) (waker : W)
    (s : LockedSink S W M E) : Option (Poll (Except E Unit) × LockedSink S W M E) :=
  match s.pollLock waker with
  | none => none
  | some (.pending, s) => some (.pending, s)
  | some (.ready guard, s) =>
    let (result, s) := body s
    match s.user (.dropGuard guard) with
    | none => none
    | some (s, _) => some (result, s)

variable (sink : Sink S W M E)

/-- `poll_flush_slot`, called with the guard held. -/
def pollFlushSlot (waker : W) (s : LockedSink S W M E) :
    Poll (Except E Unit) × LockedSink S W M E :=
  match s.slot with
  | some item =>
    let (answer, inner) := sink.pollReady waker s.inner
    let s := s.called (.pollReady answer) inner
    match answer with
    | .pending => (.pending, s)
    | .ready (.error error) => (.ready (.error error), s)
    | .ready (.ok ()) =>
      let s := { s with slot := none }
      let (answer, inner) := sink.startSend item s.inner
      (.ready answer, s.called (.startSend item answer) inner)
  | none => (.ready (.ok ()), s)

def pollLockAndFlushSlot (waker : W) (s : LockedSink S W M E) :
    Option (Poll (Except E Unit) × LockedSink S W M E) :=
  s.withLock (pollFlushSlot sink waker) waker

/-- One turn of the loop in `poll_ready`. -/
def pollReadyTurn (waker : W) (s : LockedSink S W M E) :
    Option (LoopTurn (LockedSink S W M E) (Poll (Except E Unit))) :=
  match s.slot with
  | none => some (.done (.ready (.ok ())) s)
  | some _ =>
    match s.pollLockAndFlushSlot sink waker with
    | none => none
    | some (.pending, s) => some (.done .pending s)
    | some (.ready (.error error), s) => some (.done (.ready (.error error)) s)
    | some (.ready (.ok ()), s) => some (.again s)

/-- `poll_ready`. Two turns are enough: the first one empties the slot. -/
def pollReady (waker : W) (s : LockedSink S W M E) :
    Option (Poll (Except E Unit) × LockedSink S W M E) :=
  LoopTurn.loop (pollReadyTurn sink waker) 2 s

def startSend (item : M) (s : LockedSink S W M E) : Except E Unit × LockedSink S W M E :=
  (.ok (), { s with slot := some item, log := s.log ++ [.accepted item] })

/-- What `poll_flush` and `poll_close` do with the guard held: flush the slot, then ask
the inner sink. -/
def flushThen (finish : W → S → Poll (Except E Unit) × S)
    (call : Poll (Except E Unit) → SinkCall M E) (waker : W) (s : LockedSink S W M E) :
    Poll (Except E Unit) × LockedSink S W M E :=
  match s.pollFlushSlot sink waker with
  | (.pending, s) => (.pending, s)
  | (.ready (.error error), s) => (.ready (.error error), s)
  | (.ready (.ok ()), s) =>
    let (answer, inner) := finish waker s.inner
    (answer, s.called (call answer) inner)

def pollFlush (waker : W) (s : LockedSink S W M E) :
    Option (Poll (Except E Unit) × LockedSink S W M E) :=
  s.withLock (flushThen sink sink.pollFlush .pollFlush waker) waker

def pollClose (waker : W) (s : LockedSink S W M E) :
    Option (Poll (Except E Unit) × LockedSink S W M E) :=
  s.withLock (flushThen sink sink.pollClose .pollClose waker) waker

private def polled (out : Option (Poll (Except E Unit) × LockedSink S W M E)) :
    Option (LockedSink S W M E × Res E) :=
  out.map fun (result, s) => (s, .polled result)

def step (s : LockedSink S W M E) : Op S W M → Option (LockedSink S W M E × Res E)
  | .user op => (s.user op).map fun (s, result) => (s, .user result)
  | .access value =>
    if AsyncMutex.holders s.lock.value.guards = 0 then none
    else some ({ s with inner := value }, .done)
  | .pollLock waker => (s.pollLock waker).map fun (result, s) => (s, .locked result)
  | .pollReady waker => polled (s.pollReady sink waker)
  | .startSend item =>
    let (result, s) := s.startSend item
    some (s, .sent result)
  | .pollFlush waker => polled (s.pollFlush sink waker)
  | .pollClose waker => polled (s.pollClose sink waker)

def machine (value : S) : Machine (LockedSink S W M E) (Op S W M) (Res E) where
  init s := s = new value
  step := step sink

/-! ### What the calls do -/

variable {sink} {s s' : LockedSink S W M E} {waker : W} {result : Poll (Except E Unit)}

/-- A body that runs under the lock: either the lock is not to be had yet, or the body runs
between taking the lock and giving it back. -/
theorem withLock_spec {body : LockedSink S W M E → Poll (Except E Unit) × LockedSink S W M E}
    (taken : s.withLock body waker = some (result, s')) :
    (result = .pending ∧ ∃ lock, s.lock.pollLock waker = some (.pending, lock) ∧
      s' = { s with lock := lock }) ∨
    ∃ guard lock last lock' r, s.lock.pollLock waker = some (.ready guard, lock) ∧
      body { s with lock := lock, log := s.log ++ [.acquired] } = (result, last) ∧
      last.lock.user (.dropGuard guard) = some (lock', r) ∧
      s' = { last with lock := lock', log := last.log ++ [.released] } := by
  simp only [withLock, pollLock] at taken
  cases polled : s.lock.pollLock waker with
  | none => simp [polled] at taken
  | some out =>
    obtain ⟨guard | _, lock⟩ := out
    · right
      simp only [polled] at taken
      rcases ran : body { s with lock := lock, log := s.log ++ [.acquired] } with ⟨answer, last⟩
      simp only [ran, user] at taken
      cases dropped : last.lock.user (.dropGuard guard) with
      | none => simp [dropped] at taken
      | some out =>
        simp only [dropped, Option.some.injEq, Prod.mk.injEq] at taken
        obtain ⟨rfl, rfl⟩ := taken
        exact ⟨guard, lock, last, out.1, out.2, rfl, ran, dropped, rfl⟩
    · left
      simp only [polled, Option.some.injEq, Prod.mk.injEq] at taken
      obtain ⟨rfl, rfl⟩ := taken
      exact ⟨rfl, lock, rfl, rfl⟩

/-- The outcomes of flushing the slot. -/
inductive Flushed (s : LockedSink S W M E) : Poll (Except E Unit) → LockedSink S W M E → Prop
  | empty (free : s.slot = none) : Flushed s (.ready (.ok ())) s
  | refused {answer inner} (unready : answer ≠ .ready (.ok ())) :
      Flushed s answer (s.called (.pollReady answer) inner)
  | sent {item answer ready inner} (buffered : s.slot = some item) :
      Flushed s (.ready answer)
        (called (.startSend item answer) inner
          { s.called (.pollReady (.ready (.ok ()))) ready with slot := none })

omit [Usize] in
theorem pollFlushSlot_spec (flushed : s.pollFlushSlot sink waker = (result, s')) :
    Flushed s result s' := by
  unfold pollFlushSlot at flushed
  split at flushed
  next item buffered =>
    rcases asked : sink.pollReady waker s.inner with ⟨answer, inner⟩
    simp only [asked] at flushed
    split at flushed
    · cases flushed
      exact .refused (by simp)
    · cases flushed
      exact .refused (by simp)
    · cases flushed
      exact .sent buffered
  next free =>
    cases flushed
    exact .empty free

omit [Usize] in
/-- The outcomes of flushing the slot and then asking the inner sink. -/
theorem flushThen_spec {finish : W → S → Poll (Except E Unit) × S}
    {call : Poll (Except E Unit) → SinkCall M E}
    (flushed : s.flushThen sink finish call waker = (result, s')) :
    (result ≠ .ready (.ok ()) ∧ Flushed s result s') ∨ ∃ middle inner,
      Flushed s (.ready (.ok ())) middle ∧ s' = middle.called (call result) inner := by
  unfold flushThen at flushed
  split at flushed
  next stopped =>
    cases flushed
    exact .inl ⟨by simp, pollFlushSlot_spec stopped⟩
  next stopped =>
    cases flushed
    exact .inl ⟨by simp, pollFlushSlot_spec stopped⟩
  next middle emptied =>
    rcases asked : finish waker middle.inner with ⟨answer, inner⟩
    simp only [asked] at flushed
    cases flushed
    exact .inr ⟨middle, inner, pollFlushSlot_spec emptied, rfl⟩

omit [Usize] in
theorem Flushed.slot (flushed : Flushed s (.ready (.ok ())) s') : s'.slot = none := by
  cases flushed with
  | empty free => exact free
  | refused unready => exact absurd rfl unready
  | sent => rfl

omit [Usize] in
theorem Flushed.lock (flushed : Flushed s result s') : s'.lock = s.lock := by
  cases flushed <;> rfl

/-- `poll_ready` with a full slot flushes it once. -/
theorem pollReady_spec (taken : s.pollReady sink waker = some (result, s')) :
    (s.slot = none ∧ result = .ready (.ok ()) ∧ s' = s) ∨
      s.pollLockAndFlushSlot sink waker = some (result, s') := by
  simp only [pollReady, LoopTurn.loop] at taken
  cases buffered : s.slot with
  | none =>
    simp only [pollReadyTurn, buffered, Option.some.injEq, Prod.mk.injEq] at taken
    exact .inl ⟨rfl, taken.1.symm, taken.2.symm⟩
  | some item =>
    right
    simp only [pollReadyTurn, buffered] at taken
    cases flushed : s.pollLockAndFlushSlot sink waker with
    | none => simp [flushed] at taken
    | some out =>
      obtain ⟨(error | _) | _, middle⟩ := out
      · simpa [flushed] using taken
      · -- the slot is empty now, and the second turn returns
        have emptied : middle.slot = none := by
          rcases withLock_spec flushed with ⟨⟨⟩, _⟩ | ⟨_, _, _, _, _, _, ran, _, rfl⟩
          exact (pollFlushSlot_spec ran).slot
        simpa [flushed, emptied] using taken
      · simpa [flushed] using taken

/-! ### The mutex of a sink -/

private theorem user_moves {op : Users.Op W AsyncMutex.Kind} {m m' : PollMutex W}
    {r : Users.Res AsyncMutex.Kind} (alive : m.alive = true) (taken : m.user op = some (m', r)) :
    PollMutex.machine.Moves m m' ∧ m'.alive = true := by
  refine ⟨Machine.Moves.one (m := PollMutex.machine) (a := .user op) (r := .user r)
    (by simp only [PollMutex.machine, PollMutex.step, taken]), ?_⟩
  obtain ⟨_, _, _, rfl⟩ := PollMutex.user_spec taken
  exact alive

private theorem pollLock_moves {m m' : PollMutex W} {answer : Poll AsyncMutex.Kind}
    (alive : m.alive = true) (polled : m.pollLock waker = some (answer, m')) :
    PollMutex.machine.Moves m m' ∧ m'.alive = true := by
  obtain ⟨_, _, _, _, _, kept⟩ := PollMutex.pollLock_spec polled
  exact ⟨Machine.Moves.one (m := PollMutex.machine) (a := .pollLock waker) (r := .polled answer)
    (by simp only [PollMutex.machine, PollMutex.step, alive, ite_true, polled]), kept.trans alive⟩

private theorem withLock_moves
    {body : LockedSink S W M E → Poll (Except E Unit) × LockedSink S W M E}
    (keeps : ∀ s result s', body s = (result, s') → s'.lock = s.lock)
    (alive : s.lock.alive = true) (taken : s.withLock body waker = some (result, s')) :
    PollMutex.machine.Moves s.lock s'.lock ∧ s'.lock.alive = true := by
  rcases withLock_spec taken with ⟨_, lock, polled, rfl⟩ |
    ⟨guard, lock, last, lock', r, polled, ran, dropped, rfl⟩
  · exact pollLock_moves alive polled
  · -- the body leaves the mutex alone
    rw [keeps _ _ _ ran] at dropped
    obtain ⟨taken, lives⟩ := pollLock_moves alive polled
    obtain ⟨given, lives⟩ := user_moves lives dropped
    exact ⟨taken.trans given, lives⟩

omit [Usize] in
theorem flushThen_lock {finish : W → S → Poll (Except E Unit) × S}
    {call : Poll (Except E Unit) → SinkCall M E}
    (flushed : s.flushThen sink finish call waker = (result, s')) : s'.lock = s.lock := by
  rcases flushThen_spec flushed with ⟨_, stopped⟩ | ⟨middle, inner, emptied, rfl⟩
  · exact stopped.lock
  · exact emptied.lock

theorem lock_moves {op : Op S W M} {r : Res E} (alive : s.lock.alive = true)
    (taken : s.step sink op = some (s', r)) :
    PollMutex.machine.Moves s.lock s'.lock ∧ s'.lock.alive = true := by
  cases op with
  | user op =>
    simp only [step, user] at taken
    cases stepped : s.lock.user op with
    | none => simp [stepped] at taken
    | some out =>
      simp only [stepped, Option.map_some, Option.some.injEq, Prod.mk.injEq] at taken
      obtain ⟨rfl, _⟩ := taken
      exact user_moves alive stepped
  | access value =>
    simp only [step] at taken
    split at taken
    · cases taken
    · cases taken
      exact ⟨.refl, alive⟩
  | pollLock waker =>
    simp only [step, pollLock] at taken
    cases polled : s.lock.pollLock waker with
    | none => simp [polled] at taken
    | some out =>
      obtain ⟨guard | _, lock⟩ := out
      all_goals
        simp only [polled, Option.map_some, Option.some.injEq, Prod.mk.injEq] at taken
        obtain ⟨rfl, _⟩ := taken
        exact pollLock_moves alive polled
  | pollReady waker =>
    obtain ⟨⟨result, _⟩, polled, same⟩ := Option.map_eq_some_iff.mp taken
    cases same
    rcases pollReady_spec polled with ⟨_, _, rfl⟩ | flushed
    · exact ⟨.refl, alive⟩
    · exact withLock_moves (fun _ _ _ ran => (pollFlushSlot_spec ran).lock) alive flushed
  | startSend item =>
    cases taken
    exact ⟨.refl, alive⟩
  | pollFlush waker =>
    obtain ⟨⟨result, _⟩, polled, same⟩ := Option.map_eq_some_iff.mp taken
    cases same
    exact withLock_moves (fun _ _ _ => flushThen_lock) alive polled
  | pollClose waker =>
    obtain ⟨⟨result, _⟩, polled, same⟩ := Option.map_eq_some_iff.mp taken
    cases same
    exact withLock_moves (fun _ _ _ => flushThen_lock) alive polled

/-- The mutex of a sink goes through what an `AsyncPollMutex` can go through. -/
theorem lock_of_run {value : S} {ts} (run : (machine sink value).Run ts s) :
    PollMutex.machine.Reachable s.lock ∧ s.lock.alive = true := by
  refine run.relative (P := fun s => PollMutex.machine.Reachable s.lock ∧ s.lock.alive = true)
    ?_ ?_
  · rintro _ rfl
    exact ⟨⟨[], .start rfl⟩, rfl⟩
  · rintro _ s op s' r _ ⟨reachable, alive⟩ taken
    obtain ⟨moves, lives⟩ := lock_moves alive taken
    exact ⟨reachable.moves moves, lives⟩

/-- The futures of the mutex that are parked are the listeners of its event. -/
theorem tied_of_run {value : S} {ts} (run : (machine sink value).Run ts s) :
    Users.Tied AsyncMutex.asyncMutex s.lock.value := by
  obtain ⟨⟨_, locks⟩, _⟩ := lock_of_run run
  obtain ⟨_, users⟩ := PollMutex.refines_users locks
  exact Users.tied_of_run AsyncMutex.lawful AsyncMutex.tied_new users

end LockedSink

end Eneste
