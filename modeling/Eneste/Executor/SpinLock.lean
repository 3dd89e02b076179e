import Eneste.Library.AtomicObject

/-!
# The spin lock

`SpinLock` of `executor.rs`, used by any number of threads. With the guard a thread reaches
the value in an `UnsafeCell`, which takes it more than one step. Each thread knows of some
accesses that they come before its own; a release store passes that on to whoever acquires.
-/

namespace Eneste

open AtomicObject (Visible)

variable {V Op Ans : Type}

/-- `core::sync::atomic::Ordering`. -/
inductive Ordering where
  | relaxed
  | release
  | acquire
  | acqRel
  | seqCst
  deriving DecidableEq

namespace Ordering

/-- A load with this ordering sees what came before the store that it reads. -/
def acquires : Ordering → Bool
  | .acquire | .acqRel | .seqCst => true
  | .relaxed | .release => false

/-- A store with this ordering shows what came before it. -/
def releases : Ordering → Bool
  | .release | .acqRel | .seqCst => true
  | .relaxed | .acquire => false

end Ordering

/-- Where a thread is in a statement that takes the lock. -/
inductive SpinLock.Phase (V Op Ans : Type) where
  | outside
  /-- In the loop of `lock`. -/
  | spinning (op : Op)
  /-- It has the `SpinGuard`. -/
  | guarded (op : Op)
  /-- It works on the value, with what it has found there. -/
  | inside (op : Op) (found : V)
  /-- The guard is dropped next. -/
  | leaving (op : Op) (answer : Ans)

structure SpinLock (V Op Ans : Type) where
  locked : Bool
  value : V
  phases : Nat → SpinLock.Phase V Op Ans
  -- the rest is history
  /-- How often the value has been accessed: the accesses are numbered. -/
  accesses : Nat
  /-- The accesses that come before whatever the thread does next. -/
  known : Nat → Finset Nat
  /-- Those that the value of `locked` shows to whoever acquires it. -/
  released : Finset Nat
  /-- Some access was made without knowing of all that were made before. -/
  raced : Bool

namespace SpinLock

/-- `SpinLock::new`, before any thread knows of it. -/
def new (value : V) : SpinLock V Op Ans :=
  ⟨false, value, fun _ => .outside, 0, fun _ => ∅, ∅, false⟩

inductive Act (Op : Type) where
  | call (thread : Nat) (op : Op)
  /-- `compare_exchange_weak`, which may fail on an unlocked lock. -/
  | attempt (thread : Nat) (fails : Bool)
  /-- The value is reached through the guard. -/
  | enter (thread : Nat)
  /-- The work on the value is done. -/
  | exit (thread : Nat)
  /-- `SpinGuard::drop`. -/
  | unlock (thread : Nat)
  deriving DecidableEq

variable (s : SpinLock V Op Ans)

def setPhase (thread : Nat) (phase : Phase V Op Ans) : SpinLock V Op Ans :=
  { s with phases := Function.update s.phases thread phase }

/-- A successful exchange. It continues what the last store shows. -/
def acquireBy (success : Ordering) (thread : Nat) : SpinLock V Op Ans :=
  let known := if success.acquires then s.known thread ∪ s.released else s.known thread
  { s with
    locked := true
    known := Function.update s.known thread known
    released := if success.releases then s.released ∪ known else s.released }

/-- An access begins. -/
def accessBy (thread : Nat) : SpinLock V Op Ans :=
  { s with
    accesses := s.accesses + 1
    known := Function.update s.known thread (insert s.accesses (s.known thread))
    raced := s.raced || !decide (Finset.range s.accesses ⊆ s.known thread) }

/-- The store of `SpinGuard::drop`. -/
def releaseBy (store : Ordering) (thread : Nat) : SpinLock V Op Ans :=
  { s with locked := false, released := if store.releases then s.known thread else ∅ }

/-- One step of a thread. The orderings are those of the exchange, when it succeeds, and of
the store; `apply` says what the statement does with the value and what it gets. -/
def step (success store : Ordering) (apply : Op → V → Ans × V) :
    Act Op → Option (SpinLock V Op Ans × Option (Visible Op Ans))
  | .call thread op =>
    match s.phases thread with
    | .outside => some (s.setPhase thread (.spinning op), some (.called thread op))
    | _ => none
  | .attempt thread fails =>
    match s.phases thread with
    | .spinning op =>
      if s.locked || fails then some (s, none)
      else some ((s.acquireBy success thread).setPhase thread (.guarded op), none)
    | _ => none
  | .enter thread =>
    match s.phases thread with
    | .guarded op => some ((s.accessBy thread).setPhase thread (.inside op s.value), none)
    | _ => none
  | .exit thread =>
    match s.phases thread with
    | .inside op found =>
      let (answer, value) := apply op found
      some ({ s with value := value }.setPhase thread (.leaving op answer), none)
    | _ => none
  | .unlock thread =>
    match s.phases thread with
    | .leaving op answer =>
      some ((s.releaseBy store thread).setPhase thread .outside,
        some (.returned thread op answer))
    | _ => none

/-- The lock with any orderings. -/
def orderedMachine (success store : Ordering) (apply : Op → V → Ans × V) (value : V) :
    Machine (SpinLock V Op Ans) (Act Op) (Option (Visible Op Ans)) where
  init s := s = new value
  step s := s.step success store apply

/-- The lock as it is. -/
def machine (apply : Op → V → Ans × V) (value : V) :
    Machine (SpinLock V Op Ans) (Act Op) (Option (Visible Op Ans)) :=
  orderedMachine .acquire .release apply value

/-! ### What a step can do -/

/-- The thread has the guard. -/
def Phase.holds : Phase V Op Ans → Bool
  | .outside | .spinning _ => false
  | .guarded _ | .inside _ _ | .leaving _ _ => true

def Holds (thread : Nat) : Prop := (s.phases thread).holds = true

section

variable {s : SpinLock V Op Ans} {s' : SpinLock V Op Ans} {success store : Ordering}
  {apply : Op → V → Ans × V} {act : Act Op} {out : Option (Visible Op Ans)}

inductive Stepped (success store : Ordering) (apply : Op → V → Ans × V)
    (s : SpinLock V Op Ans) :
    Act Op → SpinLock V Op Ans → Option (Visible Op Ans) → Prop
  | call {t op} (here : s.phases t = .outside) :
      Stepped success store apply s (.call t op) (s.setPhase t (.spinning op)) (some (.called t op))
  | spin {t fails op} (here : s.phases t = .spinning op)
      (refused : s.locked = true ∨ fails = true) :
      Stepped success store apply s (.attempt t fails) s none
  | acquire {t op} (here : s.phases t = .spinning op) (free : s.locked = false) :
      Stepped success store apply s (.attempt t false)
        ((s.acquireBy success t).setPhase t (.guarded op)) none
  | enter {t op} (here : s.phases t = .guarded op) :
      Stepped success store apply s (.enter t)
        ((s.accessBy t).setPhase t (.inside op s.value)) none
  | exit {t op found} (here : s.phases t = .inside op found) :
      Stepped success store apply s (.exit t)
        ({ s with value := (apply op found).2 }.setPhase t (.leaving op (apply op found).1)) none
  | unlock {t op answer} (here : s.phases t = .leaving op answer) :
      Stepped success store apply s (.unlock t) ((s.releaseBy store t).setPhase t .outside)
        (some (.returned t op answer))

theorem step_spec (taken : s.step success store apply act = some (s', out)) :
    Stepped success store apply s act s' out := by
  cases act with
  | attempt t fails =>
    simp only [step] at taken
    split at taken
    next op here =>
      split at taken
      next refused =>
        cases taken
        exact .spin here (by simpa using refused)
      next free =>
        cases taken
        obtain ⟨unlocked, rfl⟩ : s.locked = false ∧ fails = false := by simpa using free
        exact .acquire here unlocked
    next => cases taken
  | call t | enter t | exit t | unlock t =>
    simp only [step] at taken
    split at taken
    next here =>
      cases taken
      constructor
      exact here
    next => cases taken

theorem phases_setPhase (s : SpinLock V Op Ans) (t u : Nat) (phase : Phase V Op Ans) :
    (s.setPhase t phase).phases u = if u = t then phase else s.phases u := by
  simp [setPhase, Function.update_apply]

/-- The thread is past its call of `lock` and has not done its work on the value yet. -/
def Phase.pending : Phase V Op Ans → Option Op
  | .spinning op | .guarded op | .inside op _ => some op
  | .outside | .leaving _ _ => none

theorem pending_of_step (taken : s.step success store apply act = some (s', out)) {t : Nat}
    {op : Op} (waits : (s'.phases t).pending = some op) :
    act = .call t op ∨ (s.phases t).pending = some op ∧ act ≠ .exit t := by
  cases step_spec taken with
  | @call u op' here =>
    rw [phases_setPhase] at waits
    split at waits
    next own =>
      cases waits
      exact .inl (own ▸ rfl)
    next => exact .inr ⟨waits, nofun⟩
  | spin => exact .inr ⟨waits, nofun⟩
  | @acquire u op' here | @enter u op' here =>
    rw [phases_setPhase] at waits
    split at waits
    next own =>
      cases waits
      exact .inr ⟨by rw [own, here]; rfl, nofun⟩
    next => exact .inr ⟨waits, nofun⟩
  | @exit u op' found here =>
    rw [phases_setPhase] at waits
    split at waits
    next => cases waits
    next other =>
      refine .inr ⟨waits, ?_⟩
      rintro ⟨⟩
      exact other rfl
  | @unlock u op' answer here =>
    rw [phases_setPhase] at waits
    split at waits
    next => cases waits
    next => exact .inr ⟨waits, nofun⟩

/-- A thread that has never called `lock` is not seen to move. -/
theorem outside_of_step (taken : s.step success store apply act = some (s', out)) {t : Nat}
    (here : s.phases t = .outside) (silent : ∀ op, act ≠ .call t op) :
    s'.phases t = .outside := by
  cases step_spec taken with
  | @call u op' other =>
    rw [phases_setPhase, if_neg]
    · exact here
    · rintro rfl
      exact silent op' rfl
  | spin => exact here
  | @acquire u op' other | @enter u op' other | @exit u op' found other =>
    rw [phases_setPhase, if_neg]
    · exact here
    · rintro rfl
      cases here.symm.trans other
  | @unlock u op' answer other =>
    rw [phases_setPhase]
    split
    · rfl
    · exact here

/-! ### Mutual exclusion -/

/-- What no ordering matters for. -/
structure Exclusive (s : SpinLock V Op Ans) : Prop where
  alone : ∀ t u, s.Holds t → s.Holds u → t = u
  held : s.locked = true ↔ ∃ t, s.Holds t
  found : ∀ t op found, s.phases t = .inside op found → found = s.value

namespace Exclusive

theorem new (value : V) : (SpinLock.new value : SpinLock V Op Ans).Exclusive where
  alone := by simp [SpinLock.new, Holds, Phase.holds]
  held := by simp [SpinLock.new, Holds, Phase.holds]
  found := by simp [SpinLock.new]

/-- A thread goes from one phase to another, with the guard in both of them or in neither. -/
private theorem move (inv : s.Exclusive) {t : Nat} {phase : Phase V Op Ans}
    (same : phase.holds = (s.phases t).holds) (locked : s'.locked = s.locked)
    (value : s'.value = s.value ∨ s.Holds t) (phases : ∀ u, s'.phases u =
      if u = t then phase else s.phases u)
    (found : ∀ op found, phase = .inside op found → found = s'.value) : s'.Exclusive := by
  have holds : ∀ u, s'.Holds u ↔ s.Holds u := by
    intro u
    simp only [Holds, phases]
    split
    next own => rw [own, same]
    next => rfl
  constructor
  · intro t u
    rw [holds, holds]
    exact inv.alone t u
  · simp only [locked, holds, inv.held]
  · intro u op at_first here
    rw [phases] at here
    split at here
    · exact found op at_first here
    next other =>
      rcases value with kept | mine
      · rw [kept]
        exact inv.found u op at_first here
      · -- another thread inside would have the guard, too
        exact absurd (inv.alone u t (by simp [Holds, here, Phase.holds]) mine) other

theorem step (inv : s.Exclusive) (taken : s.step success store apply act = some (s', out)) :
    s'.Exclusive := by
  cases step_spec taken with
  | call here =>
    exact inv.move (by simp [here, Phase.holds]) rfl (.inl rfl) (s.phases_setPhase _ · _) nofun
  | spin => exact inv
  | @acquire t op here free =>
    have nobody : ∀ u, ¬s.Holds u := fun u holds => by
      simp [inv.held.mpr ⟨u, holds⟩] at free
    have holds : ∀ u, ((s.acquireBy success t).setPhase t (.guarded op)).Holds u ↔ u = t := by
      intro u
      rw [Holds, phases_setPhase]
      split
      next own => simp [own, Phase.holds]
      next other => exact iff_of_false (nobody u) other
    constructor
    · intro u v
      rw [holds, holds]
      exact fun first second => first.trans second.symm
    · exact iff_of_true rfl ⟨t, (holds t).mpr rfl⟩
    · intro u op' found inside
      rw [phases_setPhase] at inside
      split at inside
      · cases inside
      · exact inv.found u op' found inside
  | enter here =>
    exact inv.move (by simp [here, Phase.holds]) rfl (.inl rfl)
      ((s.accessBy _).phases_setPhase _ · _) (by rintro _ _ ⟨⟩; rfl)
  | @exit t op found here =>
    exact inv.move (by simp [here, Phase.holds]) rfl (.inr (by simp [Holds, here, Phase.holds]))
      (phases_setPhase _ t · _) nofun
  | @unlock t op answer here =>
    have mine : s.Holds t := by simp [Holds, here, Phase.holds]
    have nobody : ∀ u, ¬((s.releaseBy store t).setPhase t .outside).Holds u := by
      intro u holds
      rw [Holds, phases_setPhase] at holds
      split at holds
      · cases holds
      next other => exact other (inv.alone u t holds mine)
    constructor
    · exact fun u _ holds => absurd holds (nobody u)
    · exact iff_of_false Bool.false_ne_true fun ⟨u, holds⟩ => nobody u holds
    · intro u op' found inside
      exact absurd (by simp [Holds, inside, Phase.holds]) (nobody u)

end Exclusive

theorem exclusive_of_run {value : V} {ts}
    (run : (orderedMachine success store apply value).Run ts s) : s.Exclusive := by
  refine run.invariant ?_ fun _ _ _ _ inv taken => inv.step taken
  rintro _ rfl
  exact Exclusive.new value

/-! ### What threads know of each other -/

/-- With the lock goes the knowledge of all accesses. -/
structure Ordered (s : SpinLock V Op Ans) : Prop where
  shown : s.locked = false → Finset.range s.accesses ⊆ s.released
  known : ∀ t, s.Holds t → Finset.range s.accesses ⊆ s.known t
  clean : s.raced = false

namespace Ordered

theorem new (value : V) : (SpinLock.new value : SpinLock V Op Ans).Ordered where
  shown := by simp [SpinLock.new]
  known := by simp [SpinLock.new]
  clean := rfl

theorem step (inv : s.Ordered) (exclusive : s.Exclusive) (acquires : success.acquires = true)
    (releases : store.releases = true)
    (taken : s.step success store apply act = some (s', out)) : s'.Ordered := by
  have after := exclusive.step taken
  cases step_spec taken with
  | @call t op here =>
    refine ⟨inv.shown, fun u holds => inv.known u ?_, inv.clean⟩
    rw [Holds, phases_setPhase] at holds
    split at holds
    · cases holds
    · exact holds
  | spin => exact inv
  | @acquire t op here free =>
    refine ⟨nofun, fun u holds => ?_, inv.clean⟩
    -- what the last owner knew came with the lock
    have mine : u = t := after.alone u t holds (by simp [Holds, phases_setPhase, Phase.holds])
    subst mine
    simpa [setPhase, acquireBy, acquires] using
      (inv.shown free).trans Finset.subset_union_right
  | @enter t op here =>
    have mine : s.Holds t := by simp [Holds, here, Phase.holds]
    have before := inv.known t mine
    refine ⟨fun free => ?_, fun u holds => ?_, ?_⟩
    · cases (exclusive.held.mpr ⟨t, mine⟩).symm.trans free
    · have same : u = t := after.alone u t holds (by simp [Holds, phases_setPhase, Phase.holds])
      subst same
      simpa [setPhase, accessBy, Finset.range_add_one] using before
    · simp [setPhase, accessBy, inv.clean, before]
  | @exit t op found here =>
    refine ⟨inv.shown, fun u holds => inv.known u ?_, inv.clean⟩
    rw [Holds, phases_setPhase] at holds
    split at holds
    next own => simp [Holds, own, here, Phase.holds]
    next => exact holds
  | @unlock t op answer here =>
    have mine : s.Holds t := by simp [Holds, here, Phase.holds]
    refine ⟨fun _ => ?_, fun u holds => ?_, inv.clean⟩
    · simpa [setPhase, releaseBy, releases] using inv.known t mine
    · exact absurd (after.held.mpr ⟨u, holds⟩) Bool.false_ne_true

theorem of_run {value : V} {ts} (acquires : success.acquires = true)
    (releases : store.releases = true)
    (run : (orderedMachine success store apply value).Run ts s) : s.Ordered := by
  refine run.relative ?_ ?_
  · rintro _ rfl
    exact Ordered.new value
  · exact fun _ s act s' out prior inv taken =>
      inv.step (exclusive_of_run prior) acquires releases taken

end Ordered

/-- Two threads one after the other: the second one knows of the access of the first one. -/
private theorem handed_over (success store : Ordering) (apply : Op → V → Ans × V) (value : V)
    (op : Op) : ∃ ts s, (orderedMachine success store apply value).Run ts s ∧
      s.raced = !(success.acquires && store.releases) := by
  obtain ⟨ts, s, run, -, raced⟩ := Machine.exists_run
    (m := orderedMachine success store apply value)
    (P := fun _ s => s.raced = !(success.acquires && store.releases))
    [.call 0 op, .attempt 0 false, .enter 0, .exit 0, .unlock 0, .call 1 op, .attempt 1 false,
      .enter 1] rfl (by cases success <;> cases store <;> exact ⟨_, rfl, rfl⟩)
  exact ⟨ts, s, run, raced⟩

/-- Every access to the value comes after all those before it: for the orderings of the code,
and for no weaker ones. -/
theorem race_free_iff (success store : Ordering) (apply : Op → V → Ans × V) (value : V) (op : Op) :
    (∀ ts s, (orderedMachine success store apply value).Run ts s → s.raced = false) ↔
      success.acquires = true ∧ store.releases = true := by
  constructor
  · intro clean
    obtain ⟨ts, s, run, raced⟩ := handed_over success store apply value op
    have both := raced.symm.trans (clean ts s run)
    simpa using both
  · rintro ⟨acquires, releases⟩ ts s run
    exact (Ordered.of_run acquires releases run).clean

/-! ### Progress -/

/-- The steps left until the guard of a thread is dropped. -/
def Phase.remaining (thread : Nat) : Phase V Op Ans → List (Act Op)
  | .outside | .spinning _ => []
  | .guarded _ => [.enter thread, .exit thread, .unlock thread]
  | .inside _ _ => [.exit thread, .unlock thread]
  | .leaving _ _ => [.unlock thread]

variable (success store apply) in
/-- Nothing keeps a thread from dropping its guard. -/
private theorem exec_remaining (value : V) {u : Nat} (holds : s.Holds u) :
    ∃ ts s', (orderedMachine success store apply value).exec s ((s.phases u).remaining u) =
      some (ts, s') ∧ s'.locked = false ∧ ∀ t, t ≠ u → s'.phases t = s.phases t := by
  cases here : s.phases u with
  | outside | spinning => simp [Holds, here, Phase.holds] at holds
  | guarded | inside | leaving =>
    simp only [Phase.remaining, Machine.exec, orderedMachine, step, here, setPhase, accessBy,
      releaseBy, Function.update_self]
    refine ⟨_, _, rfl, rfl, fun t other => ?_⟩
    simp [Function.update_of_ne other]

private theorem step_attempt {t : Nat} {op : Op} (waits : s.phases t = .spinning op)
    (free : s.locked = false) : ∃ s', s.step success store apply (.attempt t false) =
      some (s', none) ∧ s'.phases t = .guarded op := by
  refine ⟨(s.acquireBy success t).setPhase t (.guarded op), ?_, ?_⟩
  · simp [step, waits, free]
  · simp [phases_setPhase]

/-- At most one thread has the guard, and the flag is set exactly while one has. A thread
in the loop gets the lock by its next exchange that does not fail of its own accord, once the
owner, if there is one, has taken what steps it has left. -/
theorem excludes {value : V} {ts} (run : (orderedMachine success store apply value).Run ts s) :
    (∀ t u, s.Holds t → s.Holds u → t = u) ∧ (s.locked = true ↔ ∃ t, s.Holds t) ∧
      ∀ t op, s.phases t = .spinning op → ∃ acts us between,
        (acts = [] ∨ ∃ u, s.Holds u ∧ acts = (s.phases u).remaining u) ∧
        (orderedMachine success store apply value).exec s acts = some (us, between) ∧
        ∃ s', between.step success store apply (.attempt t false) = some (s', none) ∧
          s'.phases t = .guarded op := by
  have inv := exclusive_of_run run
  refine ⟨inv.alone, inv.held, fun t op waits => ?_⟩
  cases free : s.locked with
  | false => exact ⟨[], [], s, .inl rfl, rfl, step_attempt waits free⟩
  | true =>
    obtain ⟨u, holds⟩ := inv.held.mp free
    obtain ⟨us, between, left, unlocked, others⟩ :=
      exec_remaining success store apply value holds
    have apart : t ≠ u := by
      rintro rfl
      simp [Holds, waits, Phase.holds] at holds
    exact ⟨_, us, between, .inr ⟨u, holds, rfl⟩, left,
      step_attempt ((others t apart).trans waits) unlocked⟩

/-! ### Atomicity -/

/-- The phase of the operation as seen from outside. -/
def Phase.atomic : Phase V Op Ans → AtomicObject.Phase Op Ans
  | .outside => .outside
  | .spinning op | .guarded op | .inside op _ => .called op
  | .leaving op answer => .done op answer

/-- A critical section takes effect when it has done its work on the value. -/
structure Represents (s : SpinLock V Op Ans) (o : AtomicObject V Op Ans) : Prop where
  exclusive : s.Exclusive
  value : o.value = s.value
  phases : ∀ t, o.phases t = (s.phases t).atomic

/-- A thread goes on, and so does the object. -/
private theorem Represents.move {o o' : AtomicObject V Op Ans} {t : Nat} {phase : Phase V Op Ans}
    (represents : s.Represents o) (exclusive : s'.Exclusive) (value : o'.value = s'.value)
    (moved : ∀ u, s'.phases u = if u = t then phase else s.phases u)
    (follows : ∀ u, o'.phases u = if u = t then phase.atomic else o.phases u) :
    s'.Represents o' := by
  refine ⟨exclusive, value, fun u => ?_⟩
  rw [moved, follows]
  split
  · rfl
  · exact represents.phases u

/-- A thread goes on, and nothing shows. -/
private theorem Represents.stay {o : AtomicObject V Op Ans} {t : Nat} {phase : Phase V Op Ans}
    (represents : s.Represents o) (exclusive : s'.Exclusive) (value : s'.value = s.value)
    (moved : ∀ u, s'.phases u = if u = t then phase else s.phases u)
    (same : phase.atomic = (s.phases t).atomic) : s'.Represents o := by
  refine represents.move exclusive (represents.value.trans value.symm) moved fun u => ?_
  split
  next own => rw [own, same, represents.phases]
  next => rfl

/-- Whatever critical sections there are: with the lock around them nothing shows that they
take several steps. -/
theorem linearizable (apply : Op → V → Ans × V) (value : V) :
    AtomicObject.Linearizable apply value (machine apply value) := by
  apply AtomicObject.Linearizable.of_simulation (R := Represents)
  · rintro _ rfl
    exact ⟨Exclusive.new value, rfl, fun _ => rfl⟩
  · intro s o act s' out represents taken
    have after := represents.exclusive.step taken
    have before := represents.phases
    cases step_spec taken with
    | @call t op here =>
      refine .inr ⟨.call t op, o.setPhase t (.called op), ?_, ?_⟩
      · simp [AtomicObject.step, before, here, Phase.atomic]
      · exact represents.move after represents.value (s.phases_setPhase t · _)
          (o.phases_setPhase t · _)
    | spin => exact .inl ⟨represents, rfl⟩
    | acquire here =>
      refine .inl ⟨represents.stay after rfl (phases_setPhase _ _ · _) ?_, rfl⟩
      simp [here, Phase.atomic]
    | enter here =>
      refine .inl ⟨represents.stay after rfl (phases_setPhase _ _ · _) ?_, rfl⟩
      simp [here, Phase.atomic]
    | @exit t op found here =>
      -- what the thread has found is still there
      have still : found = o.value :=
        (represents.exclusive.found t op found here).trans represents.value.symm
      refine .inr ⟨.commit t, { o with value := (apply op found).2 }.setPhase t
        (.done op (apply op found).1), ?_, ?_⟩
      · simp [AtomicObject.step, before, here, Phase.atomic, still]
      · exact represents.move after rfl (phases_setPhase _ t · _)
          (AtomicObject.phases_setPhase _ t · _)
    | @unlock t op answer here =>
      refine .inr ⟨.finish t, o.setPhase t .outside, ?_, ?_⟩
      · simp [AtomicObject.step, before, here, Phase.atomic]
      · exact represents.move after represents.value (phases_setPhase _ t · _)
          (o.phases_setPhase t · _)

end

/-- A counter that every critical section reads and increments. -/
def increment (_ : Unit) (n : Nat) : Nat × Nat := (n, n + 1)

/-- A second thread comes while the first one is at work. -/
theorem excludes_second : ∃ ts s,
    (orderedMachine .acquire .release increment 0).Run ts s ∧
      ts.map Machine.Transition.act =
        [.call 0 (), .attempt 0 false, .call 1 (), .attempt 1 false, .enter 0] ∧
      s.phases 1 = .spinning () ∧ s.Holds 0 ∧ (∀ t, s.Holds t → t = 0) ∧
      ∃ acts us between,
        (orderedMachine .acquire .release increment 0).exec s acts = some (us, between) ∧
        ∃ s', between.step .acquire .release increment (.attempt 1 false) = some (s', none) ∧
          s'.phases 1 = .guarded () := by
  obtain ⟨ts, s, run, acts, waits, holds⟩ := Machine.exists_run
    (m := orderedMachine .acquire .release increment 0)
    (P := fun _ s => s.phases 1 = .spinning () ∧ s.Holds 0)
    [.call 0 (), .attempt 0 false, .call 1 (), .attempt 1 false, .enter 0] rfl
    ⟨_, rfl, rfl, rfl⟩
  obtain ⟨alone, -, gets⟩ := excludes run
  obtain ⟨left, us, between, -, executed, taken⟩ := gets 1 () waits
  exact ⟨ts, s, run, acts, waits, holds, fun t mine => alone t 0 mine holds, left, us, between,
    executed, taken⟩

end SpinLock

end Eneste
