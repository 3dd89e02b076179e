import Eneste.Lock.Awake
import Eneste.Lock.Holders

/-!
# The readers-writer lock

`lock/rwlock.rs`. Readers and writers wait on one event, and each change of the lock
notifies one of them. A writer that is notified while readers hold the lock waits
again and swallows the notification the next reader needs.
-/

namespace Eneste

variable {W : Type}

/-- `RwLockInner`, without the value it protects. -/
structure RwLock (W : Type) where
  event : Inner W Unit
  readers : Nat
  locked : Bool

namespace RwLock

/-- `RwLock::new`. -/
def new : RwLock W := ⟨Event.new, 0, false⟩

def canRead (lock : RwLock W) : Bool := !lock.locked

def canWrite (lock : RwLock W) : Bool := !lock.locked && lock.readers == 0

/-- The four methods that make a future, for the futures and the guards they lead to. -/
inductive Kind where
  | read
  | write
  | readRc
  | writeRc
  deriving DecidableEq

/-- `read` and `read_rc`. -/
def Kind.isRead : Kind → Bool
  | .read | .readRc => true
  | .write | .writeRc => false

/-- The live read guards, borrowed and `Rc`. -/
def readGuards (guards : Kind → Nat) : Nat := guards .read + guards .readRc

/-- The live write guards, borrowed and `Rc`. -/
def writeGuards (guards : Kind → Nat) : Nat := guards .write + guards .writeRc

theorem readGuards_addGuard (guards : Kind → Nat) (kind : Kind) :
    readGuards (Users.addGuard guards kind) = readGuards guards + kind.isRead.toNat := by
  cases kind <;> simp only [readGuards, Users.addGuard, Kind.isRead] <;> simp <;> omega

theorem writeGuards_addGuard (guards : Kind → Nat) (kind : Kind) :
    writeGuards (Users.addGuard guards kind) = writeGuards guards + (!kind.isRead).toNat := by
  cases kind <;> simp only [writeGuards, Users.addGuard, Kind.isRead] <;> simp <;> omega

theorem readGuards_dropGuard (guards : Kind → Nat) {kind : Kind} (held : 0 < guards kind) :
    readGuards guards = readGuards (Users.dropGuard guards kind) + kind.isRead.toNat := by
  cases kind <;> simp only [readGuards, Users.dropGuard, Kind.isRead] <;> simp <;> omega

theorem writeGuards_dropGuard (guards : Kind → Nat) {kind : Kind} (held : 0 < guards kind) :
    writeGuards guards = writeGuards (Users.dropGuard guards kind) + (!kind.isRead).toNat := by
  cases kind <;> simp only [writeGuards, Users.dropGuard, Kind.isRead] <;> simp <;> omega

section

variable [Usize]

def incrementReaders (lock : RwLock W) : RwLock W :=
  { lock with readers := lock.readers + 1, event := Event.notify (.usize 1) lock.event }

/-- `none` is the assertion "Attempted to decrement readers below zero". -/
def decrementReaders (lock : RwLock W) : Option (RwLock W) :=
  if lock.readers > 0 then
    some { lock with readers := lock.readers - 1, event := Event.notify (.usize 1) lock.event }
  else none

def lock (lock : RwLock W) : RwLock W :=
  { lock with locked := true, event := Event.notify (.usize 1) lock.event }

def unlock (lock : RwLock W) : RwLock W :=
  { lock with locked := false, event := Event.notify (.usize 1) lock.event }

def rwLock : Lock W (RwLock W) Kind where
  event :=
    { get := RwLock.event
      set := fun lock inner => { lock with event := inner }
      get_set := fun _ _ => rfl
      set_get := fun _ => rfl
      set_set := fun _ _ _ => rfl }
  -- `poll` of the four futures
  admits
    | .read, lock => lock.canRead
    | .write, lock => lock.canWrite
    | .readRc, lock => lock.canRead
    | .writeRc, lock => lock.canWrite
  acquire
    | .read, lock => lock.incrementReaders
    | .write, lock => lock.lock
    | .readRc, lock => lock.incrementReaders
    | .writeRc, lock => lock.lock
  -- `drop` of the four guards
  release
    | .read, lock => lock.decrementReaders
    | .write, lock => some lock.unlock
    | .readRc, lock => lock.decrementReaders
    | .writeRc, lock => some lock.unlock

theorem lawful : (rwLock : Lock W (RwLock W) Kind).Lawful where
  acquire kind lock := by cases kind <;> rfl
  release kind lock lock' released := by
    have decremented : ∀ lock' : RwLock W, lock.decrementReaders = some lock' →
        lock'.event = Event.notify (.usize 1) lock.event := by
      intro lock' counted
      unfold decrementReaders at counted
      split at counted
      · cases counted
        rfl
      · cases counted
    cases kind with
    | read => exact decremented lock' released
    | readRc => exact decremented lock' released
    | write =>
      cases released
      rfl
    | writeRc =>
      cases released
      rfl
  admits kind lock inner := by cases kind <;> rfl

theorem tied_new : Users.Tied rwLock (Users.new (RwLock.new : RwLock W)) := Attached.new 0 _

/-! ### Parked readers -/

/-- A reader whose last poll returned `Pending`. -/
def ReaderParked (u : Users W (RwLock W) Kind) : Prop :=
  ∃ k f p, u.futures.get? k = some f ∧ f.waiter = .parked p ∧ f.own.isRead = true

/-- If no writer holds the lock and a reader is parked, some parked future is woken. -/
def ReadersAwake (u : Users W (RwLock W) Kind) : Prop :=
  u.lock.locked = false → ReaderParked u →
    ∃ k p, parkedIn u.futures k = some p ∧ u.lock.event.Roused p

/-- A woken writer is polled while readers hold the lock, a reader is parked, and none of
the other parked futures is notified. -/
def StarvesReaders (u : Users W (RwLock W) Kind) (op : Users.Op W Kind) : Prop :=
  ∃ k waker f p, op = .poll k waker ∧ u.futures.get? k = some f ∧ f.waiter = .parked p ∧
    EventListener.isNotified p.listener u.lock.event = true ∧ f.own.isRead = false ∧
    u.lock.locked = false ∧ 0 < u.lock.readers ∧ ReaderParked u ∧
    ∀ j q, j ≠ k → parkedIn u.futures j = some q →
      EventListener.isNotified q.listener u.lock.event = false

/-- The lock admits readers exactly while no writer holds it. -/
theorem admits_read {kind : Kind} (isRead : kind.isRead = true) (lock : RwLock W) :
    rwLock.admits kind lock = true ↔ lock.locked = false := by
  cases kind <;> simp_all [rwLock, canRead, Kind.isRead]

/-- It refuses writers as long as anybody holds it. -/
theorem refuses_write {kind : Kind} (isWrite : kind.isRead = false) (lock : RwLock W) :
    rwLock.admits kind lock = false ↔ lock.locked = true ∨ 0 < lock.readers := by
  cases kind <;> simp_all [rwLock, canWrite, Kind.isRead, Nat.pos_iff_ne_zero,
    Decidable.imp_iff_not_or]

variable {u : Users W (RwLock W) Kind}

theorem exists_admissible_iff :
    (∃ k, u.Admissible rwLock Kind.isRead k) ↔ u.lock.locked = false ∧ ReaderParked u := by
  constructor
  · rintro ⟨k, f, p, live, parked, isRead, admitted⟩
    exact ⟨(admits_read isRead u.lock).mp admitted, k, f, p, live, parked, isRead⟩
  · rintro ⟨unlocked, k, f, p, live, parked, isRead⟩
    exact ⟨k, f, p, live, parked, isRead, (admits_read isRead u.lock).mpr unlocked⟩

theorem readersAwake_iff : ReadersAwake u ↔ u.Awake rwLock Kind.isRead := by
  simp only [ReadersAwake, Users.Awake, exists_admissible_iff, and_imp]
  rfl

theorem starvesReaders_iff {op : Users.Op W Kind} :
    StarvesReaders u op ↔ u.Strands rwLock Kind.isRead op := by
  simp only [StarvesReaders, Users.Strands, exists_admissible_iff]
  constructor
  · rintro ⟨k, waker, f, p, rfl, live, parked, notified, isWrite, unlocked, held, reader, silent⟩
    exact ⟨k, waker, f, p, rfl, live, parked, notified,
      (refuses_write isWrite u.lock).mpr (Or.inr held), ⟨unlocked, reader⟩, silent⟩
  · rintro ⟨k, waker, f, p, rfl, live, parked, notified, refused, ⟨unlocked, reader⟩, silent⟩
    -- the lock is not write-locked, so it would have admitted a reader
    have isWrite : f.own.isRead = false := by
      by_contra isRead
      have admitted := (admits_read (by simpa using isRead) u.lock).mpr unlocked
      rw [refused] at admitted
      cases admitted
    have held : 0 < u.lock.readers := by
      rcases (refuses_write isWrite u.lock).mp refused with locked | held
      · rw [unlocked] at locked
        cases locked
      · exact held
    exact ⟨k, waker, f, p, rfl, live, parked, notified, isWrite, unlocked, held, reader, silent⟩

/-- Readers are admitted in every state of a run exactly if no writer starves them. -/
theorem readers_admitted_iff {ts} (run : (Users.machine rwLock new).Run ts u) :
    (ReadersAwake u ∧ ∀ t ∈ ts, ReadersAwake t.before) ↔
      ∀ t ∈ ts, ¬StarvesReaders t.before t.act := by
  simp only [readersAwake_iff, starvesReaders_iff]
  exact Users.awake_run_iff lawful tied_new run

/-! ### Guards -/

/-- The counter counts the read guards, and the flag says whether there is a write guard,
which excludes all others. -/
def Excludes (lock : RwLock W) (guards : Kind → Nat) : Prop :=
  lock.readers = readGuards guards ∧ (lock.locked = true ↔ writeGuards guards = 1) ∧
    writeGuards guards ≤ 1 ∧ (0 < writeGuards guards → readGuards guards = 0)

/-- Each pair of futures and guards does the same to the lock. -/
theorem acquire_read {kind : Kind} (isRead : kind.isRead = true) (lock : RwLock W) :
    rwLock.acquire kind lock = lock.incrementReaders := by
  cases kind with
  | read | readRc => rfl
  | write | writeRc => cases isRead

theorem acquire_write {kind : Kind} (isWrite : kind.isRead = false) (lock : RwLock W) :
    rwLock.acquire kind lock = lock.lock := by
  cases kind with
  | read | readRc => cases isWrite
  | write | writeRc => rfl

theorem release_read {kind : Kind} (isRead : kind.isRead = true) (lock : RwLock W) :
    rwLock.release kind lock = lock.decrementReaders := by
  cases kind with
  | read | readRc => rfl
  | write | writeRc => cases isRead

theorem release_write {kind : Kind} (isWrite : kind.isRead = false) (lock : RwLock W) :
    rwLock.release kind lock = some lock.unlock := by
  cases kind with
  | read | readRc => cases isWrite
  | write | writeRc => rfl

/-- Dropping a live guard never fails the assertion in `decrement_readers`. -/
theorem Excludes.release {lock : RwLock W} {guards : Kind → Nat} (excludes : Excludes lock guards)
    {kind : Kind} (held : 0 < guards kind) : ∃ lock', rwLock.release kind lock = some lock' := by
  cases isRead : kind.isRead with
  | true =>
    have counted := readGuards_dropGuard guards held
    rw [isRead, Bool.toNat_true, ← excludes.1] at counted
    have positive : lock.readers > 0 := by omega
    exact ⟨_, by simp only [release_read isRead, decrementReaders, positive, ite_true]; rfl⟩
  | false => exact ⟨_, release_write isRead lock⟩

omit [Usize] in
/-- A lock that is not write-locked has no write guard. -/
theorem Excludes.unwritten {lock : RwLock W} {guards : Kind → Nat} (excludes : Excludes lock guards)
    (unlocked : lock.locked = false) : writeGuards guards = 0 := by
  have single := excludes.2.2.1
  have not_one : writeGuards guards ≠ 1 := fun one => by
    rw [excludes.2.1.mpr one] at unlocked
    cases unlocked
  omega

theorem keeps : (rwLock : Lock W (RwLock W) Kind).Keeps Excludes where
  set _ _ _ excludes := excludes
  acquire kind lock guards excludes admitted := by
    have readers := readGuards_addGuard guards kind
    have writers := writeGuards_addGuard guards kind
    cases isRead : kind.isRead with
    | true =>
      have unlocked := (admits_read isRead lock).mp admitted
      rw [isRead, Bool.toNat_true] at readers
      rw [isRead, excludes.unwritten unlocked] at writers
      rw [acquire_read isRead]
      simp [Excludes, incrementReaders, excludes.1, unlocked, readers, writers]
    | false =>
      -- a writer is only admitted when nobody holds the lock
      have free : ¬(lock.locked = true ∨ 0 < lock.readers) := by
        rw [← refuses_write isRead lock, admitted]
        simp
      have unlocked : lock.locked = false := by simpa using mt Or.inl free
      have unread : readGuards guards = 0 :=
        excludes.1 ▸ Nat.eq_zero_of_not_pos (mt Or.inr free)
      rw [isRead, unread] at readers
      rw [isRead, excludes.unwritten unlocked] at writers
      rw [acquire_write isRead]
      simp [Excludes, RwLock.lock, excludes.1, unread, readers, writers]
  release kind lock lock' guards excludes held released := by
    obtain ⟨counted, flagged, single, alone⟩ := excludes
    have readers := readGuards_dropGuard guards held
    have writers := writeGuards_dropGuard guards held
    cases isRead : kind.isRead with
    | true =>
      rw [isRead, Bool.toNat_true] at readers
      rw [isRead, Bool.not_true, Bool.toNat_false, add_zero] at writers
      rw [release_read isRead, decrementReaders, if_pos (by omega)] at released
      cases released
      refine ⟨by simp only; omega, ?_, ?_, ?_⟩
      · rwa [← writers]
      · rwa [← writers]
      · omega
    | false =>
      rw [isRead, Bool.toNat_false, add_zero] at readers
      rw [isRead, Bool.not_false, Bool.toNat_true] at writers
      rw [release_write isRead] at released
      cases released
      have nobody : writeGuards (Users.dropGuard guards kind) = 0 := by omega
      simp [Excludes, unlock, counted, readers, nobody]

theorem excludes_of_run {ts} (run : (Users.machine rwLock new).Run ts u) :
    Excludes u.lock u.guards :=
  Users.books_of_run lawful keeps tied_new (by simp [Excludes, readGuards, writeGuards, new]) run

/-- The lock's counter and flag tell which guards are alive, a write guard excludes all
others, and no guard's destructor fails its assertion. -/
theorem guards_exclude {ts} (run : (Users.machine rwLock new).Run ts u) :
    u.lock.readers = readGuards u.guards ∧ (u.lock.locked = true ↔ writeGuards u.guards = 1) ∧
    writeGuards u.guards ≤ 1 ∧ (0 < writeGuards u.guards → readGuards u.guards = 0) ∧
    ∀ kind, 0 < u.guards kind → ∃ u', u.step rwLock (.dropGuard kind) = some (u', .done) := by
  have excludes := excludes_of_run run
  obtain ⟨counted, flagged, single, alone⟩ := id excludes
  refine ⟨counted, flagged, single, alone, fun kind held => ?_⟩
  obtain ⟨lock', released⟩ := excludes.release held
  exact ⟨_, by simp only [Users.step, held.ne', ite_false, released]; rfl⟩

/-- While no guard is alive one of the parked futures, reader or writer, has been woken. -/
theorem free_lock_wakes {ts} (run : (Users.machine rwLock new).Run ts u)
    (released : ∀ kind, u.guards kind = 0) (waits : ∃ k p, parkedIn u.futures k = some p) :
    u.lock.locked = false ∧ u.lock.readers = 0 ∧
      ∃ k p, parkedIn u.futures k = some p ∧ u.lock.event.Roused p := by
  obtain ⟨counted, flagged, _⟩ := excludes_of_run run
  have unlocked : u.lock.locked = false := by simpa [writeGuards, released] using flagged
  have unread : u.lock.readers = 0 := by simpa [readGuards, released] using counted
  have free : rwLock.Free u.lock := by
    intro kind
    cases isRead : kind.isRead with
    | true => exact (admits_read isRead u.lock).mpr unlocked
    | false =>
      have admitted := mt (refuses_write isRead u.lock).mp (by simp [unlocked, unread])
      simpa using admitted
  exact ⟨unlocked, unread, Users.roused_of_free lawful tied_new run free waits⟩

end

/-- A writer releases the lock to a waiting reader, writer and reader. The first reader
acquires it and notifies the writer, which waits again. -/
theorem reader_starved : ∃ ts, ∃ u : Users Nat (RwLock Nat) Kind,
    (Users.machine rwLock new).Run ts u ∧
    ts.map Machine.Transition.act =
      [.lock .write, .poll 0 0, .lock .read, .poll 1 1, .lock .write, .poll 2 2,
        .lock .read, .poll 3 3, .dropGuard .write, .poll 1 1, .poll 2 2] ∧
    ¬ReadersAwake u := by
  obtain ⟨ts, u, run, acts, unlocked, ⟨f, live, isRead, parked⟩, silent⟩ := Machine.exists_run
    (m := Users.machine rwLock (new : RwLock Nat))
    (P := fun _ u => u.lock.locked = false ∧
      (∃ f ∈ u.futures.get? 3, f.own.isRead = true ∧ f.waiter.sleeper.isSome) ∧
      u.lock.event.notified = 0)
    [.lock .write, .poll 0 0, .lock .read, .poll 1 1, .lock .write, .poll 2 2,
      .lock .read, .poll 3 3, .dropGuard .write, .poll 1 1, .poll 2 2] rfl (by decide)
  refine ⟨ts, u, run, acts, fun awake => ?_⟩
  have tied := Users.tied_of_run lawful tied_new run
  cases asleep : f.waiter with
  | idle => simp [asleep, Waiter.sleeper] at parked
  | parked p =>
    obtain ⟨k, q, found, notified, _⟩ := awake unlocked ⟨3, f, p, live, asleep, isRead⟩
    -- the counter says that no parked future holds a notification
    have positive := ((Attached.waiters tied).notified_pos_iff tied.wf).mpr ⟨k, q, found, notified⟩
    exact absurd silent positive.ne'

/-- Without a parked writer the readers are admitted one after the other. -/
theorem readers_admitted : ∃ ts, ∃ u : Users Nat (RwLock Nat) Kind,
    (Users.machine rwLock new).Run ts u ∧
    ts.map Machine.Transition.act =
      [.lock .write, .poll 0 0, .lock .read, .poll 1 1, .lock .readRc, .poll 2 2,
        .dropGuard .write, .poll 1 1] ∧
    ∃ k p, parkedIn u.futures k = some p ∧ u.lock.event.Roused p := by
  obtain ⟨ts, u, run, acts, unlocked, ⟨f, live, isRead, parked⟩, readers⟩ := Machine.exists_run
    (m := Users.machine rwLock (new : RwLock Nat))
    (P := fun ts u => u.lock.locked = false ∧
      (∃ f ∈ u.futures.get? 2, f.own.isRead = true ∧ f.waiter.sleeper.isSome) ∧
      ∀ t ∈ ts, t.before.futures.count (fun f => !f.own.isRead && f.waiter.sleeper.isSome) = 0)
    [.lock .write, .poll 0 0, .lock .read, .poll 1 1, .lock .readRc, .poll 2 2,
      .dropGuard .write, .poll 1 1] rfl (by decide)
  refine ⟨ts, u, run, acts, ?_⟩
  -- no writer ever parks in this run, and only a parked writer starves readers
  have guarded : ∀ t ∈ ts, ¬StarvesReaders t.before t.act := by
    rintro t member ⟨k, _, g, p, _, found, asleep, _, isWrite, _⟩
    have counted : 0 < t.before.futures.count
        (fun f => !f.own.isRead && f.waiter.sleeper.isSome) :=
      (OrderedMap.count_pos_iff _ _).mpr ⟨k, g, found, by simp [isWrite, asleep, Waiter.sleeper]⟩
    exact absurd (readers t member) counted.ne'
  cases asleep : f.waiter with
  | idle => simp [asleep, Waiter.sleeper] at parked
  | parked p =>
    exact ((readers_admitted_iff run).mpr guarded).1 unlocked ⟨2, f, p, live, asleep, isRead⟩

/-- Two readers leave, and the writer that waits for both is woken. -/
theorem writer_woken : ∃ ts, ∃ u : Users Nat (RwLock Nat) Kind,
    (Users.machine rwLock new).Run ts u ∧
    ts.map Machine.Transition.act =
      [.lock .read, .poll 0 0, .lock .readRc, .poll 1 1, .lock .write, .poll 2 2,
        .dropGuard .read, .poll 2 3, .dropGuard .readRc] ∧
    ∃ k p, parkedIn u.futures k = some p ∧ u.lock.event.Roused p := by
  obtain ⟨ts, u, run, acts, released, parked⟩ := Machine.exists_run
    (m := Users.machine rwLock (new : RwLock Nat))
    (P := fun _ u => (u.guards .read = 0 ∧ u.guards .write = 0 ∧ u.guards .readRc = 0 ∧
      u.guards .writeRc = 0) ∧ (parkedIn u.futures 2).isSome = true)
    [.lock .read, .poll 0 0, .lock .readRc, .poll 1 1, .lock .write, .poll 2 2,
      .dropGuard .read, .poll 2 3, .dropGuard .readRc] rfl (by decide)
  obtain ⟨p, asleep⟩ := Option.isSome_iff_exists.mp parked
  have nobody : ∀ kind, u.guards kind = 0 := by
    intro kind
    cases kind <;> simp [released]
  exact ⟨ts, u, run, acts, (free_lock_wakes run nobody ⟨2, p, asleep⟩).2.2⟩

/-- Two live read guards are counted, and dropping one of them succeeds. -/
theorem readers_counted : ∃ ts, ∃ u : Users Nat (RwLock Nat) Kind,
    (Users.machine rwLock new).Run ts u ∧
    ts.map Machine.Transition.act = [.lock .read, .poll 0 0, .lock .readRc, .poll 1 1] ∧
    u.lock.readers = 2 ∧ ∃ u', u.step rwLock (.dropGuard .readRc) = some (u', .done) := by
  obtain ⟨ts, u, run, acts, held, counted⟩ := Machine.exists_run
    (m := Users.machine rwLock (new : RwLock Nat))
    (P := fun _ u => 0 < u.guards .readRc ∧ readGuards u.guards = 2)
    [.lock .read, .poll 0 0, .lock .readRc, .poll 1 1] rfl (by decide)
  obtain ⟨readers, _, _, _, drops⟩ := guards_exclude run
  exact ⟨ts, u, run, acts, readers.trans counted, drops .readRc held⟩

end RwLock

end Eneste
