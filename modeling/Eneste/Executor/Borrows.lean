import Eneste.Executor.Places

/-!
# The borrows of the slot map

The slots are in a `RefCell`: `borrow_mut` panics while a guard is alive. Here the
statements that borrow them are run one operation at a time. A destructor that starts in
the middle of one is user code like any other, and other threads move at any time.
`ExecutorState::drop` has the map to itself (`get_mut`) and needs no guard.
-/

namespace Eneste.Executor

open Header

/-- The operations of the statements that borrow the slots, and of what comes after them. -/
inductive Op where
  | borrowMut
  /-- `insert` of the new task. -/
  | insert
  /-- `get_mut` and `future.take()`. -/
  | take
  | remove
  /-- The `match` that stores the future unless the task is finished. -/
  | putBack
  /-- What the map gave up is dropped: a slot, or a future that another one replaces. -/
  | dropSlot (site : DropSite)
  /-- The statement ends, and with it the guard. -/
  | dropGuard
  | schedule (handle : Bool)
  | poll
  /-- The future in the local variable is dropped. -/
  | dropFuture (site : DropSite)
  deriving DecidableEq

/-- `spawn` once it has an id and a header. -/
def spawning (handle : Bool) : List Op :=
  [.borrowMut, .insert, .dropSlot .leftover, .dropGuard, .schedule handle]

/-- `run` once it has cleared the flag. -/
def taking : List Op := [.borrowMut, .take, .dropGuard, .poll]

/-- `run` after a poll that returned `Ready`. -/
def completing : List Op :=
  [.borrowMut, .remove, .dropGuard, .dropSlot .completed, .dropFuture .completed]

/-- `run` after a poll that returned `Pending`. -/
def puttingBack : List Op :=
  [.borrowMut, .putBack, .dropSlot .leftover, .dropGuard, .dropFuture .leftover]

/-- `ExcutorTask::drop` once it has upgraded its `Weak`. -/
def releasing : List Op := [.borrowMut, .remove, .dropGuard, .dropSlot .handle]

/-- A statement on its way, with the operations left. -/
structure Statement where
  id : Nat
  todo : List Op
  /-- Whether its local variable holds the future of the task. -/
  future : Bool
  /-- What it got out of the map, with whether that holds the future. -/
  slot : Option Bool
  /-- The calls on the stack when it began. -/
  height : Nat

structure Borrowing where
  executor : Executor
  /-- A guard of the slots is alive. -/
  borrowed : Bool
  /-- Innermost first. -/
  statements : List Statement
  /-- `borrow_mut` has panicked. What follows is left open. -/
  panicked : Bool

/-- The state before the statement that an action reaches, with the task, the operations of
the statement and whether it starts with the future; `none` where it reaches none. -/
def reach (e : Executor) : Act → Option (Executor × Nat × List Op × Bool)
  | .spawn =>
    if e.userMode && e.executors != 0 then
      some ({ e with
        nextId := e.nextId + 1
        headers := Function.update e.headers e.nextId 0 }, e.nextId, spawning true, true)
    else none
  | .blockOn =>
    if e.userMode && e.executors != 0 then
      some ({ e with
        nextId := e.nextId + 1
        headers := Function.update e.headers e.nextId 0
        stack := .blockOn e.nextId false :: e.stack }, e.nextId, spawning false, true)
    else none
  | .dropHandle id =>
    if e.userMode && id ∈ e.handles && !e.finished id && strong e.executors e.stack != 0 then
      some (e.cancelHandle id, id, releasing, false)
    else none
  | .advance =>
    match e.stack with
    | .process true (id :: batch) :: rest => some (e.dequeue id batch rest, id, taking, false)
    | _ => none
  | .pollReady =>
    match e.stack with
    | .poll id :: rest =>
      some ({ e with
        headers := Function.update e.headers id (e.headers id ||| completed)
        returned := Function.update e.returned id true
        stack := rest }, id, completing, true)
    | _ => none
  | .pollPending =>
    match e.stack with
    | .poll id :: rest => some ({ e with stack := rest }, id, puttingBack, true)
    | _ => none
  | _ => none

namespace Borrowing

inductive Act where
  /-- A step of the executor, as far as the statement it reaches. -/
  | call (act : Executor.Act)
  /-- The innermost statement goes on. -/
  | go

/-- A statement is what runs on the executor's thread. -/
def active (b : Borrowing) : Bool :=
  match b.statements with
  | [] => false
  | s :: _ => s.height == b.executor.stack.length

/-- User code is what runs on the executor's thread. -/
def userMode (b : Borrowing) : Bool := !b.active && b.executor.userMode

/-- The innermost statement has run an operation. -/
def resume (b : Borrowing) (s : Statement) (below : List Statement) : Borrowing :=
  { b with statements := if s.todo = [] then below else s :: below }

/-- One operation of the innermost statement; `s` has it taken off already. -/
def perform (b : Borrowing) (s : Statement) (below : List Statement) : Op → Borrowing × Event
  | .borrowMut =>
    if b.borrowed then ({ b with panicked := true }, .quiet)
    else ({ b with borrowed := true }.resume s below, .quiet)
  | .insert =>
    ({ b with
      executor := { b.executor with slots := b.executor.slots.insert s.id true } }.resume
        { s with future := false, slot := b.executor.slots.get? s.id } below, .quiet)
  | .take =>
    if b.executor.slots.get? s.id = some true then
      ({ b with
        executor := { b.executor with slots := b.executor.slots.insert s.id false } }.resume
          { s with future := true } below, .quiet)
    else (b.resume s below, .quiet)
  | .remove =>
    ({ b with
      executor := { b.executor with slots := b.executor.slots.erase s.id } }.resume
        { s with slot := b.executor.slots.get? s.id } below, .quiet)
  | .putBack =>
    if (b.executor.slots.get? s.id).isSome && !b.executor.finished s.id then
      ({ b with
        executor := { b.executor with slots := b.executor.slots.insert s.id true } }.resume
          { s with future := false, slot := b.executor.slots.get? s.id } below, .quiet)
    else (b.resume s below, .quiet)
  | .dropSlot site =>
    if s.slot = some true then
      ({ b with executor := b.executor.dropFuture s.id site }.resume { s with slot := none } below,
        .dropped s.id)
    else (b.resume { s with slot := none } below, .quiet)
  | .dropGuard => ({ b with borrowed := false }.resume s below, .quiet)
  | .schedule handle =>
    ({ b with
      executor := { b.executor with
        handles := if handle then s.id :: b.executor.handles else b.executor.handles
        stack := .schedule ⟨s.id, .loadState, b.executor.polls s.id⟩ :: b.executor.stack } }.resume
          s below, .quiet)
  | .poll =>
    if s.future then
      ({ b with
        executor := { b.executor with
          polls := Function.update b.executor.polls s.id (b.executor.polls s.id + 1)
          stack := .poll s.id :: b.executor.stack } }.resume { s with future := false } below,
        .began s.id)
    else (b.resume s below, .quiet)
  | .dropFuture site =>
    if s.future then
      ({ b with executor := b.executor.dropFuture s.id site }.resume { s with future := false }
        below, .dropped s.id)
    else (b.resume s below, .quiet)

/-- A step of the executor: at a statement that borrows the slots it stops. -/
def call (b : Borrowing) (act : Executor.Act) : Option (Borrowing × Event) :=
  match b.executor.reach act with
  | some (e, id, todo, future) =>
    some ({ b with
      executor := e
      statements := ⟨id, todo, future, none, e.stack.length⟩ :: b.statements }, .quiet)
  | none => (b.executor.step act).map fun (e, event) => ({ b with executor := e }, event)

def step (b : Borrowing) : Act → Option (Borrowing × Event)
  | .go =>
    match b.statements with
    | [] => none
    | s :: below =>
      match s.todo with
      | [] => none
      | op :: todo =>
        if b.active && !b.panicked then some (b.perform { s with todo := todo } below op)
        else none
  | .call act =>
    match act with
    | .wakeThread _ | .stepThread _ => b.call act
    | _ => if b.active || b.panicked then none else b.call act

def machine : Machine Borrowing Act Event where
  init b := b = ⟨new, false, [], false⟩
  step := step

/-! ### What keeps a statement out of trouble -/

/-- A check on the operations that are left: guards are taken one at a time, destructors and
other calls come when the guard is gone and last, and a map that gets the future of the
task back does not hold it. `empty` says that what came out of the map holds no future. -/
def disciplined : List Op → (borrowed future empty : Bool) → Bool
  | [], borrowed, _, _ => !borrowed
  | .borrowMut :: todo, borrowed, future, empty =>
    !borrowed && disciplined todo true future empty
  | .insert :: todo, borrowed, future, empty =>
    borrowed && future && empty && !todo.contains .insert && disciplined todo true false true
  | .take :: todo, borrowed, future, empty =>
    borrowed && !future && disciplined todo true true empty && disciplined todo true false empty
  | .remove :: todo, borrowed, future, empty =>
    borrowed && empty && disciplined todo true future true &&
      (future || disciplined todo true future false)
  | .putBack :: todo, borrowed, future, empty =>
    borrowed && future && empty && disciplined todo true true true &&
      disciplined todo true false true
  | .dropSlot _ :: todo, borrowed, future, empty =>
    (empty && disciplined todo borrowed future true) || (!borrowed && todo = [])
  | .dropGuard :: todo, borrowed, future, empty =>
    borrowed && disciplined todo false future empty
  | .schedule _ :: todo, borrowed, _, _ | .poll :: todo, borrowed, _, _
  | .dropFuture _ :: todo, borrowed, _, _ => !borrowed && todo = []

theorem disciplined_spawning (handle : Bool) :
    disciplined (spawning handle) false true true = true := by cases handle <;> decide

theorem disciplined_taking : disciplined taking false false true = true := by decide

theorem disciplined_completing : disciplined completing false true true = true := by decide

theorem disciplined_puttingBack : disciplined puttingBack false true true = true := by decide

theorem disciplined_releasing : disciplined releasing false false true = true := by decide

/-- How often a statement holds the future of a task. -/
def holds (id : Nat) (s : Statement) : Nat :=
  if id = s.id then s.future.toNat + (s.slot == some true).toNat else 0

structure Inv (b : Borrowing) : Prop where
  panicked : b.panicked = false
  /-- Ids are not reused. -/
  fresh : ∀ id, b.executor.nextId ≤ id → b.executor.slots.get? id = none
  /-- A task has one future at most. -/
  sole : ∀ id, b.executor.held id + (b.statements.map (holds id)).sum ≤
    (decide (id < b.executor.nextId)).toNat
  /-- A guard is in the hands of the one statement that runs. -/
  stage : (b.statements = [] ∧ b.borrowed = false) ∨
    ∃ s, b.statements = [s] ∧ s.height = b.executor.stack.length ∧
      disciplined s.todo b.borrowed s.future (s.slot != some true) = true ∧
      (.insert ∈ s.todo → b.executor.slots.get? s.id = none)

namespace Inv

variable {b : Borrowing}

/-- The statement goes on. -/
private theorem resume {s : Statement} (panicked : b.panicked = false)
    (fresh : ∀ id, b.executor.nextId ≤ id → b.executor.slots.get? id = none)
    (sole : ∀ id, b.executor.held id + holds id s ≤ (decide (id < b.executor.nextId)).toNat)
    (height : s.height = b.executor.stack.length)
    (fits : disciplined s.todo b.borrowed s.future (s.slot != some true) = true)
    (inserts : .insert ∈ s.todo → b.executor.slots.get? s.id = none) : Inv (b.resume s []) where
  panicked := panicked
  fresh := fresh
  sole id := by
    have one := sole id
    by_cases ended : s.todo = []
    · simp only [Borrowing.resume, ended, ite_true, List.map_nil, List.sum_nil]
      omega
    · simpa only [Borrowing.resume, ended, ite_false, List.map_cons, List.map_nil,
        List.sum_cons, List.sum_nil, Nat.add_zero] using one
  stage := by
    by_cases ended : s.todo = []
    · left
      rw [ended] at fits
      have free : b.borrowed = false := by simpa [disciplined] using fits
      exact ⟨by simp [Borrowing.resume, ended], free⟩
    · right
      exact ⟨s, by simp [Borrowing.resume, ended], height, fits, inserts⟩

/-- The statement ends, and what it held goes with it or is on the stack. -/
private theorem leave {s : Statement} (ended : s.todo = []) (free : b.borrowed = false)
    (panicked : b.panicked = false)
    (fresh : ∀ id, b.executor.nextId ≤ id → b.executor.slots.get? id = none)
    (sole : ∀ id, b.executor.held id ≤ (decide (id < b.executor.nextId)).toNat) :
    Inv (b.resume s []) where
  panicked := panicked
  fresh := fresh
  sole id := by
    simpa only [Borrowing.resume, ended, ite_true, List.map_nil, List.sum_nil,
      Nat.add_zero] using sole id
  stage := Or.inl ⟨by simp [Borrowing.resume, ended], free⟩

/-- A statement on its way, up to the operation it is about to run. -/
private structure Ready (b : Borrowing) (s : Statement) (op : Op) : Prop where
  panicked : b.panicked = false
  fresh : ∀ id, b.executor.nextId ≤ id → b.executor.slots.get? id = none
  sole : ∀ id, b.executor.held id + holds id s ≤ (decide (id < b.executor.nextId)).toNat
  height : s.height = b.executor.stack.length
  fits : disciplined (op :: s.todo) b.borrowed s.future (s.slot != some true) = true
  inserts : .insert ∈ op :: s.todo → b.executor.slots.get? s.id = none

namespace Ready

variable {s : Statement} {op : Op}

/-- The futures of the statement's own task. -/
private theorem own (ready : Ready b s op) :
    (b.executor.slots.get? s.id == some true).toNat + onStack s.id b.executor.stack +
      (s.future.toNat + (s.slot == some true).toNat) ≤
        (decide (s.id < b.executor.nextId)).toNat := by
  simpa [Executor.held, holds] using ready.sole s.id

/-- A task with a future has been given its id. -/
private theorem known (ready : Ready b s op)
    (has : 0 < (b.executor.slots.get? s.id == some true).toNat + s.future.toNat) :
    s.id < b.executor.nextId := by
  have one := ready.own
  by_contra unknown
  simp only [unknown, decide_false, Bool.toNat_false] at one
  omega

/-- The map and the locals exchange what they hold of the task. -/
private theorem exchange (ready : Ready b s op) {slots : OrderedMap Nat Bool} {future : Bool}
    {slot : Option Bool} (others : ∀ id, id ≠ s.id → slots.get? id = b.executor.slots.get? id)
    (fewer : (slots.get? s.id == some true).toNat + (future.toNat + (slot == some true).toNat) ≤
      (b.executor.slots.get? s.id == some true).toNat +
        (s.future.toNat + (s.slot == some true).toNat))
    (fits : disciplined s.todo b.borrowed future (slot != some true) = true)
    (fresh : b.executor.nextId ≤ s.id → slots.get? s.id = none)
    (inserts : .insert ∈ s.todo → slots.get? s.id = none) :
    Inv ({ b with executor := { b.executor with slots := slots } }.resume
      { s with future := future, slot := slot } []) := by
  refine resume (b := { b with executor := { b.executor with slots := slots } })
    (s := { s with future := future, slot := slot }) ready.panicked ?_ ?_ ready.height fits inserts
  · intro id new
    by_cases own : id = s.id
    · exact own ▸ fresh (own ▸ new)
    · rw [others id own]
      exact ready.fresh id new
  · intro id
    have one := ready.sole id
    by_cases own : id = s.id
    · subst own
      simp only [Executor.held, holds, ite_true] at one ⊢
      omega
    · simpa [Executor.held, holds, own, others id own] using one

/-- Nothing that holds no future is put in its place. -/
private theorem vacant (ready : Ready b s op) (future : s.future = true) :
    b.executor.slots.get? s.id ≠ some true := by
  intro stored
  have one := ready.own
  have bound := Bool.toNat_le (decide (s.id < b.executor.nextId))
  simp only [future, stored, beq_self_eq_true, Bool.toNat_true] at one
  omega

private theorem perform (ready : Ready b s op) : Inv (b.perform s [] op).1 := by
  have fits := ready.fits
  have later : .insert ∈ s.todo → b.executor.slots.get? s.id = none :=
    fun later => ready.inserts (List.mem_cons_of_mem _ later)
  cases op with
  | borrowMut =>
    simp only [disciplined, Bool.and_eq_true, Bool.not_eq_true'] at fits
    simp only [Borrowing.perform, fits.1, Bool.false_eq_true, ite_false]
    exact resume ready.panicked ready.fresh ready.sole ready.height fits.2 later
  | insert =>
    simp only [disciplined, Bool.and_eq_true, Bool.not_eq_true'] at fits
    obtain ⟨⟨⟨⟨borrowed, future⟩, -⟩, once⟩, fits⟩ := fits
    have empty := ready.inserts List.mem_cons_self
    have known := ready.known (by simp [future])
    refine ready.exchange (fun id => OrderedMap.get?_insert_of_ne _ _) ?_ ?_ ?_ ?_
    · simp [future, empty]
    · rw [empty, borrowed]
      exact fits
    · omega
    · simp_all
  | take =>
    simp only [disciplined, Bool.and_eq_true, Bool.not_eq_true'] at fits
    obtain ⟨⟨⟨borrowed, future⟩, taken⟩, left⟩ := fits
    simp only [Borrowing.perform]
    split
    next stored =>
      have known := ready.known (by simp [stored])
      refine ready.exchange (fun id => OrderedMap.get?_insert_of_ne _ _) ?_ ?_ ?_ ?_
      · simp [future, stored]
      · rw [borrowed]
        exact taken
      · omega
      · exact fun again => absurd (later again) (by simp [stored])
    next =>
      refine resume ready.panicked ready.fresh ready.sole ready.height ?_ later
      rw [borrowed, future]
      exact left
  | remove =>
    simp only [disciplined, Bool.and_eq_true, Bool.or_eq_true] at fits
    obtain ⟨⟨⟨borrowed, empty⟩, gone⟩, either⟩ := fits
    refine ready.exchange (fun id => OrderedMap.get?_erase_of_ne _) ?_ ?_ ?_ ?_
    · rw [OrderedMap.get?_erase_self, Option.none_beq_some, Bool.toNat_false]
      omega
    · rw [borrowed]
      rcases either with future | unknown
      · rw [bne_iff_ne.mpr (ready.vacant future)]
        exact gone
      · cases b.executor.slots.get? s.id != some true with
        | true => exact gone
        | false => exact unknown
    · simp
    · simp
  | putBack =>
    simp only [disciplined, Bool.and_eq_true] at fits
    obtain ⟨⟨⟨⟨borrowed, future⟩, empty⟩, kept⟩, stored⟩ := fits
    have vacant := ready.vacant future
    simp only [Borrowing.perform]
    split
    next present =>
      have known := ready.known (by simp [future])
      refine ready.exchange (fun id => OrderedMap.get?_insert_of_ne _ _) ?_ ?_ ?_ ?_
      · rw [OrderedMap.get?_insert_self, future]
        simp
        omega
      · rw [borrowed, bne_iff_ne.mpr vacant]
        exact stored
      · omega
      · intro again
        simp [later again] at present
    next =>
      refine resume ready.panicked ready.fresh ready.sole ready.height ?_ later
      rw [borrowed, future, empty]
      exact kept
  | dropSlot site =>
    simp only [disciplined, Bool.or_eq_true, Bool.and_eq_true, Bool.not_eq_true',
      decide_eq_true_eq] at fits
    simp only [Borrowing.perform]
    split
    next full =>
      obtain ⟨free, ended⟩ := fits.resolve_left (by simp [full])
      refine leave (b := { b with executor := b.executor.dropFuture s.id site })
        (s := { s with slot := none }) ended free ready.panicked ready.fresh fun id => ?_
      exact (Executor.held_dropped ..).trans_le (Nat.le_of_add_right_le (ready.sole id))
    next empty =>
      refine resume (s := { s with slot := none }) ready.panicked ready.fresh (fun id => ?_)
        ready.height ?_ later
      · have fewer : holds id { s with slot := none } ≤ holds id s := by
          simp only [holds]
          split <;> simp
        exact (Nat.add_le_add_left fewer _).trans (ready.sole id)
      · rcases fits with fits | ⟨free, ended⟩
        · exact fits.2
        · rw [ended, free]
          rfl
  | dropGuard =>
    simp only [disciplined, Bool.and_eq_true] at fits
    exact resume (b := { b with borrowed := false }) ready.panicked ready.fresh ready.sole
      ready.height fits.2 later
  | schedule handle =>
    simp only [disciplined, Bool.and_eq_true, Bool.not_eq_true', decide_eq_true_eq] at fits
    refine leave (b := { b with executor := _ }) fits.2 fits.1 ready.panicked ready.fresh
      fun id => ?_
    have one := Nat.le_of_add_right_le (ready.sole id)
    simpa [Executor.held, Frame.futures] using one
  | poll =>
    simp only [disciplined, Bool.and_eq_true, Bool.not_eq_true', decide_eq_true_eq] at fits
    simp only [Borrowing.perform]
    split
    next future =>
      -- the future goes from the local variable to the poll
      refine leave (b := { b with executor := _ }) (s := { s with future := false }) fits.2 fits.1
        ready.panicked ready.fresh fun id => ?_
      have one := ready.sole id
      simp only [Executor.held, holds, future, onStack_cons, Frame.futures] at one ⊢
      by_cases own : id = s.id
      · simp [own] at one ⊢
        omega
      · simp [own, Ne.symm own] at one ⊢
        omega
    next =>
      exact leave fits.2 fits.1 ready.panicked ready.fresh
        fun id => Nat.le_of_add_right_le (ready.sole id)
  | dropFuture site =>
    simp only [disciplined, Bool.and_eq_true, Bool.not_eq_true', decide_eq_true_eq] at fits
    simp only [Borrowing.perform]
    split
    next future =>
      refine leave (b := { b with executor := b.executor.dropFuture s.id site })
        (s := { s with future := false }) fits.2 fits.1 ready.panicked ready.fresh fun id => ?_
      exact (Executor.held_dropped ..).trans_le (Nat.le_of_add_right_le (ready.sole id))
    next =>
      exact leave fits.2 fits.1 ready.panicked ready.fresh
        fun id => Nat.le_of_add_right_le (ready.sole id)

/-- No destructor starts while the guard is alive. -/
private theorem spared (ready : Ready b s op) (borrowed : b.borrowed = true) (id : Nat) :
    (b.perform s [] op).2 ≠ .dropped id := by
  have fits := ready.fits
  cases op with
  | dropSlot site =>
    simp only [disciplined, borrowed, Bool.not_true, Bool.false_and, Bool.or_false,
      Bool.and_eq_true, bne_iff_ne] at fits
    simp [Borrowing.perform, fits.1]
  | dropFuture site => simp [disciplined, borrowed] at fits
  | borrowMut | take | putBack | poll =>
    simp only [Borrowing.perform]
    split <;> simp
  | insert | remove | dropGuard | schedule => simp [Borrowing.perform]

end Ready

end Inv

/-- What the code before a statement has done: it has given a new task its id, or taken the
future of a task off the stack. -/
inductive Reached (e e' : Executor) (id : Nat) (todo : List Op) (future : Bool) : Prop
  | new (same : e'.slots = e.slots) (fits : disciplined todo false future true = true)
      (fresh : id = e.nextId) (nextId : e'.nextId = e.nextId + 1)
      (held : ∀ other, e'.held other = e.held other)
  | old (same : e'.slots = e.slots) (fits : disciplined todo false future true = true)
      (inserts : .insert ∉ todo) (nextId : e'.nextId = e.nextId)
      (held : ∀ other, e'.held other + (if other = id then future.toNat else 0) = e.held other)

/-- A poll that returns hands its future over. -/
private theorem held_poll {e : Executor} {id : Nat} {rest : List Frame}
    (top : e.stack = .poll id :: rest) (other : Nat) :
    { e with stack := rest }.held other + (if other = id then true.toNat else 0) =
      e.held other := by
  by_cases own : other = id
  · simp [Executor.held, top, Frame.futures, own]
    omega
  · simp [Executor.held, top, Frame.futures, own, Ne.symm own]

theorem reached {e e' : Executor} {act : Executor.Act} {id : Nat} {todo : List Op}
    {future : Bool} (begun : e.reach act = some (e', id, todo, future)) :
    Reached e e' id todo future := by
  cases act with
  | spawn =>
    simp only [reach] at begun
    split at begun
    next =>
      cases begun
      exact .new rfl (disciplined_spawning true) rfl rfl fun _ => rfl
    next => cases begun
  | blockOn =>
    simp only [reach] at begun
    split at begun
    next =>
      cases begun
      exact .new rfl (disciplined_spawning false) rfl rfl
        fun other => by simp [Executor.held, Frame.futures]
    next => cases begun
  | dropHandle id =>
    simp only [reach] at begun
    split at begun
    next =>
      cases begun
      exact .old rfl disciplined_releasing (by decide) rfl fun other => by simp; rfl
    next => cases begun
  | advance =>
    simp only [reach] at begun
    split at begun
    next id batch rest top =>
      cases begun
      exact .old rfl disciplined_taking (by decide) rfl
        fun other => by simp [Executor.held, dequeue, top, Frame.futures]
    next => cases begun
  | pollReady =>
    simp only [reach] at begun
    split at begun
    next id rest top =>
      cases begun
      exact .old rfl disciplined_completing (by decide) rfl (held_poll top)
    next => cases begun
  | pollPending =>
    simp only [reach] at begun
    split at begun
    next id rest top =>
      cases begun
      exact .old rfl disciplined_puttingBack (by decide) rfl (held_poll top)
    next => cases begun
  | _ => cases begun

/-- A step that reaches no statement. -/
theorem unreached {e e' : Executor} {act : Executor.Act} {ev : Event}
    (nowhere : e.reach act = none) (moved : Moves e act e' ev) :
    e'.nextId = e.nextId ∧ (∀ id, e'.held id ≤ e.held id) ∧
      ∀ id, e.slots.get? id = none → e'.slots.get? id = none := by
  cases moved with
  | spawn user alive | blockOn user alive => simp [reach, user, alive] at nowhere
  | dropPolled user held unfinished upgraded | dropPending user held unfinished upgraded =>
    simp [reach, user, held, unfinished, upgraded] at nowhere
  | pollReady top | pollPending top | pollCanceled top | run top | stale top =>
    simp [reach, top] at nowhere
  | wakeThread | detach | cloneExecutor | dropFinished =>
    exact ⟨rfl, fun _ => Nat.le_refl _, fun _ => id⟩
  | @stepThread index call found =>
    have same := (Executor.scheduled e call).untouched
    exact ⟨same.nextId, fun id => by simp [Executor.held, same.slots, same.stack],
      fun id none => by simpa [same.slots] using none⟩
  | wake | processTasks =>
    exact ⟨rfl, fun id => by simp [Executor.held, Frame.futures], fun _ => id⟩
  | dropExecutor =>
    refine ⟨rfl, fun id => Nat.le_of_eq ?_, fun _ => id⟩
    simp only [Executor.held, onStack_release]
    rfl
  | dropHandleReturn top =>
    refine ⟨rfl, fun id => Nat.le_of_eq ?_, fun _ => id⟩
    simp only [Executor.held, onStack_release]
    simp [top, Frame.futures, release]
  | @pollPanic id checked batch rest top =>
    refine ⟨rfl, fun other => ?_, fun _ absent => absent⟩
    rw [held_dropped]
    simp only [Executor.held, top, onStack_cons, Frame.futures]
    omega
  | unwinds top =>
    exact ⟨rfl, fun id => by simp [Executor.held, top, Frame.futures, onStack_unwind], fun _ => id⟩
  | dropReturn top | processed top | skip top | check top | blockedOn top | deadlock top
  | hasTasks top | drain top | canceledAll top | shutDown top | close top | cancel top =>
    exact ⟨rfl, fun id => by simp [Executor.held, top, Frame.futures], fun _ => id⟩
  | @schedule call rest top =>
    have same := (Executor.scheduled e call).untouched
    refine ⟨same.nextId, fun id => ?_, fun id none => by simpa [same.slots] using none⟩
    simp only [Executor.held, onStack_next, same.slots, top]
    simp [Frame.futures]
  | @dropSlot task others rest top =>
    refine ⟨rfl, fun id => ?_, fun _ => id⟩
    rw [held_dropped]
    simp only [Executor.held, top, onStack_cons, Frame.futures, List.count_cons]
    omega
  | @clearInbox rest top =>
    exact ⟨rfl, fun task => Nat.le_of_eq (held_clearInbox top task), fun _ _ => rfl⟩

/-- What the theorems say of a state: nothing has panicked, and a guard is alive only while
the statement that took it is what runs. -/
structure Safe (b : Borrowing) : Prop where
  calm : b.panicked = false
  exclusive : b.borrowed = true → b.active = true
  userCode : b.userMode = true → b.borrowed = false
  /-- `borrow_mut` is about to be called. -/
  borrows : ∀ s ∈ b.statements, s.todo.head? = some .borrowMut → b.borrowed = false
  inserts : ∀ s ∈ b.statements, s.todo.head? = some .insert → b.executor.slots.get? s.id = none
  putsBack : ∀ s ∈ b.statements, s.todo.head? = some .putBack →
    b.executor.slots.get? s.id ≠ some true

namespace Inv

variable {b b' : Borrowing} {ev : Event}

/-- The one statement there is, with its next operation. -/
private theorem ready (inv : Inv b) {s : Statement} {op : Op} {todo : List Op}
    (member : s ∈ b.statements) (next : s.todo = op :: todo) :
    b.statements = [s] ∧ Ready b { s with todo := todo } op := by
  rcases inv.stage with ⟨none, -⟩ | ⟨s', one, height, fits, inserts⟩
  · simp [none] at member
  · rw [one, List.mem_singleton] at member
    subst member
    refine ⟨one, inv.panicked, inv.fresh, fun id => ?_, height, next ▸ fits, next ▸ inserts⟩
    simpa [one, holds] using inv.sole id

theorem safe (inv : Inv b) : Safe b where
  calm := inv.panicked
  exclusive borrowed := by
    rcases inv.stage with ⟨-, free⟩ | ⟨s, one, height, -⟩
    · simp [free] at borrowed
    · simp [active, one, height]
  userCode user := by
    simp only [Borrowing.userMode, Bool.and_eq_true, Bool.not_eq_true'] at user
    rcases inv.stage with ⟨-, free⟩ | ⟨s, one, height, -⟩
    · exact free
    · simp [active, one, height] at user
  borrows s member head := by
    obtain ⟨todo, next⟩ := List.head?_eq_some_iff.mp head
    have fits := (inv.ready member next).2.fits
    simp only [disciplined, Bool.and_eq_true, Bool.not_eq_true'] at fits
    exact fits.1
  inserts s member head := by
    obtain ⟨todo, next⟩ := List.head?_eq_some_iff.mp head
    exact (inv.ready member next).2.inserts List.mem_cons_self
  putsBack s member head := by
    obtain ⟨todo, next⟩ := List.head?_eq_some_iff.mp head
    have ready := (inv.ready member next).2
    have fits := ready.fits
    simp only [disciplined, Bool.and_eq_true] at fits
    exact ready.vacant fits.1.1.1.2

/-- The executor takes a step that reaches no statement; other threads may take theirs
while a statement is on its way. -/
private theorem pass (inv : Inv b) {act : Executor.Act} {e : Executor}
    (nowhere : b.executor.reach act = none) (taken : b.executor.step act = some (e, ev))
    (kept : b.statements ≠ [] → e.stack = b.executor.stack) :
    Inv { b with executor := e } := by
  obtain ⟨nextId, held, vacant⟩ := unreached nowhere (step_cases taken)
  refine ⟨inv.panicked, fun id new => ?_, fun id => ?_, ?_⟩
  · exact vacant id (inv.fresh id (nextId ▸ new))
  · rw [nextId]
    exact (Nat.add_le_add_right (held id) _).trans (inv.sole id)
  · refine inv.stage.imp_right ?_
    rintro ⟨s, one, height, fits, inserts⟩
    exact ⟨s, one, height.trans (by rw [kept (by simp [one])]), fits,
      fun later => vacant _ (inserts later)⟩

private theorem free (inv : Inv b) (idle : b.statements = []) : b.borrowed = false := by
  rcases inv.stage with ⟨-, free⟩ | ⟨s, one, -⟩
  · exact free
  · simp [one] at idle

/-- The executor goes on, up to the next statement that borrows the slots. -/
private theorem call (inv : Inv b) {act : Executor.Act} (idle : b.statements = [])
    (taken : b.call act = some (b', ev)) : Inv b' := by
  unfold Borrowing.call at taken
  split at taken
  next e id todo future reach =>
    cases taken
    have one := inv.sole
    simp only [idle, List.map_nil, List.sum_nil, Nat.add_zero] at one
    cases reached reach with
    | new same fits fresh nextId held =>
      have vacant : e.slots.get? id = none := by
        rw [same, fresh]
        exact inv.fresh _ (Nat.le_refl _)
      refine ⟨inv.panicked, fun other new => ?_, fun other => ?_, Or.inr ⟨_, by rw [idle], rfl,
        by rw [inv.free idle]; exact fits, fun _ => vacant⟩⟩
      · rw [same]
        have later : e.nextId ≤ other := new
        exact inv.fresh other (by omega)
      · have before := one other
        have bound := Bool.toNat_le future
        rw [held, nextId, idle]
        by_cases own : other = id
        · rw [own, fresh] at before
          simp [holds, own, fresh] at before ⊢
          omega
        · have earlier : other < b.executor.nextId + 1 ↔ other < b.executor.nextId := by omega
          simpa [holds, own, earlier] using before
    | old same fits inserts nextId held =>
      refine ⟨inv.panicked, fun other new => ?_, fun other => ?_, Or.inr ⟨_, by rw [idle], rfl,
        by rw [inv.free idle]; exact fits, fun inserted => absurd inserted inserts⟩⟩
      · rw [same]
        exact inv.fresh other (nextId ▸ new)
      · have before := one other
        rw [← held other] at before
        simpa [idle, holds, nextId] using before
  next nowhere =>
    obtain ⟨⟨e, event⟩, stepped, same⟩ := Option.map_eq_some_iff.mp taken
    cases same
    exact inv.pass nowhere stepped (absurd idle)

/-- Other threads go on. -/
private theorem thread (inv : Inv b) {act : Executor.Act}
    (other : (∃ id, act = .wakeThread id) ∨ ∃ index, act = .stepThread index)
    (taken : b.call act = some (b', ev)) : Inv b' ∧ ev = .quiet := by
  have nowhere : b.executor.reach act = none := by
    rcases other with ⟨id, rfl⟩ | ⟨index, rfl⟩ <;> rfl
  rw [Borrowing.call, nowhere] at taken
  obtain ⟨⟨e, event⟩, stepped, same⟩ := Option.map_eq_some_iff.mp taken
  cases same
  have kept : e.stack = b.executor.stack ∧ ev = .quiet := by
    rcases other with ⟨id, rfl⟩ | ⟨index, rfl⟩
    · cases step_cases stepped
      exact ⟨rfl, rfl⟩
    · cases step_cases stepped
      exact ⟨(Executor.scheduled _ _).untouched.stack, rfl⟩
  exact ⟨inv.pass nowhere stepped fun _ => kept.1, kept.2⟩

theorem step (inv : Inv b) {act : Act} (taken : b.step act = some (b', ev)) :
    Inv b' ∧ (b.borrowed = true → ∀ id, ev ≠ .dropped id) := by
  cases act with
  | go =>
    simp only [Borrowing.step] at taken
    split at taken
    · cases taken
    next s below top =>
      split at taken
      · cases taken
      next op todo next =>
        split at taken
        next =>
          obtain ⟨one, ready⟩ := inv.ready (top ▸ List.mem_cons_self) next
          cases top.symm.trans one
          have performed := ready.perform
          have spared := ready.spared
          rw [Option.some.inj taken] at performed spared
          exact ⟨performed, spared⟩
        next => cases taken
  | call act =>
    simp only [Borrowing.step] at taken
    split at taken
    next id =>
      obtain ⟨kept, rfl⟩ := inv.thread (Or.inl ⟨id, rfl⟩) taken
      exact ⟨kept, by simp⟩
    next index =>
      obtain ⟨kept, rfl⟩ := inv.thread (Or.inr ⟨index, rfl⟩) taken
      exact ⟨kept, by simp⟩
    next =>
      split at taken
      next => cases taken
      next resting =>
        -- a statement on its way would be what runs
        have idle : b.statements = [] := by
          rcases inv.stage with ⟨idle, -⟩ | ⟨s, one, height, -⟩
          · exact idle
          · simp [active, one, height] at resting
        exact ⟨inv.call idle taken, by simp [inv.free idle]⟩

end Inv

theorem inv_of_run {ts : List (Machine.Transition Borrowing Act Event)} {b : Borrowing}
    (run : machine.Run ts b) : Inv b := by
  apply run.invariant
  · rintro _ rfl
    exact ⟨rfl, fun _ _ => rfl, fun _ => by simp [Executor.held, new, onStack],
      Or.inl ⟨rfl, rfl⟩⟩
  · exact fun _ _ _ _ inv taken => (inv.step taken).1

/-! ### The executor's own steps -/

/-- No statement is on its way. -/
def resting (e : Executor) : Borrowing := ⟨e, false, [], false⟩

/-- A step that reaches no statement is the same here. -/
private theorem moves_pass {e e' : Executor} {act : Executor.Act} {ev : Event}
    (taken : e.step act = some (e', ev)) (nowhere : e.reach act = none) :
    machine.Moves (resting e) (resting e') := by
  have called : (resting e).call act = some (resting e', ev) := by
    have nowhere : (resting e).executor.reach act = none := nowhere
    rw [call, nowhere]
    simp [resting, taken]
  refine Machine.Moves.one (a := .call act) (r := ev) ?_
  cases act <;> exact called

/-- A future that is polled is in no slot. -/
private theorem vacant_of_poll {e : Executor} {id : Nat} {rest : List Frame}
    (inv : Inv (resting e)) (top : e.stack = .poll id :: rest) :
    e.slots.get? id ≠ some true := by
  intro stored
  have one : e.held id + 0 ≤ (decide (id < e.nextId)).toNat := inv.sole id
  have bound := Bool.toNat_le (decide (id < e.nextId))
  simp only [Executor.held, top, onStack_cons, Frame.futures, stored, beq_self_eq_true,
    Bool.toNat_true, List.count_cons_self, List.count_nil] at one
  omega

section

attribute [local simp] Machine.exec machine step active call reach perform Borrowing.resume

/-- A step of the executor is the code up to a statement, and the operations of the
statement one by one. -/
theorem moves_resting {e e' : Executor} {act : Executor.Act} {ev : Event}
    (inv : Inv (resting e)) (taken : e.step act = some (e', ev)) :
    machine.Moves (resting e) (resting e') := by
  have fresh : e.slots.get? e.nextId = none := inv.fresh _ (Nat.le_refl _)
  by_cases nowhere : e.reach act = none
  · exact moves_pass taken nowhere
  cases step_cases taken with
  | spawn user alive =>
    apply Machine.Moves.of_exec [.call .spawn, .go, .go, .go, .go, .go]
    simp [resting, user, alive, spawning, fresh, spawn]
  | blockOn user alive =>
    apply Machine.Moves.of_exec [.call .blockOn, .go, .go, .go, .go, .go]
    simp [resting, user, alive, spawning, fresh, spawn]
  | run top present =>
    apply Machine.Moves.of_exec [.call .advance, .go, .go, .go, .go]
    simp [resting, top, present, taking, dequeue]
  | stale top absent =>
    apply Machine.Moves.of_exec [.call .advance, .go, .go, .go, .go]
    simp [resting, top, absent, taking, dequeue]
  | @dropPolled id user held unfinished upgraded absent =>
    apply Machine.Moves.of_exec [.call (.dropHandle id), .go, .go, .go, .go]
    simp [resting, user, held, unfinished, upgraded, absent, releasing, cancelHandle]
  | @dropPending id user held unfinished upgraded present =>
    apply Machine.Moves.of_exec [.call (.dropHandle id), .go, .go, .go, .go]
    simp [resting, user, held, unfinished, upgraded, present, releasing, cancelHandle, dropFuture]
  | pollReady top =>
    have vacant := vacant_of_poll inv top
    apply Machine.Moves.of_exec [.call .pollReady, .go, .go, .go, .go, .go]
    simp [resting, top, completing, dropFuture, vacant]
  | pollPending top present unfinished =>
    have vacant := vacant_of_poll inv top
    rw [present] at vacant
    apply Machine.Moves.of_exec [.call .pollPending, .go, .go, .go, .go, .go]
    have unfinished : isFinished (e.headers _) = false := unfinished
    simp [resting, top, puttingBack, present, vacant, finished, unfinished]
  | pollCanceled top gone =>
    apply Machine.Moves.of_exec [.call .pollPending, .go, .go, .go, .go, .go]
    rcases gone with gone | isOver
    · simp [resting, top, puttingBack, gone, dropFuture]
    · have isOver : isFinished (e.headers _) = true := isOver
      simp [resting, top, puttingBack, finished, isOver, dropFuture]
  | dropFinished user held idle =>
    rcases idle with isOver | free
    · simp [isOver] at nowhere
    · simp [free] at nowhere
  | wakeThread | stepThread | wake | detach | processTasks | cloneExecutor | dropExecutor
  | pollPanic | unwinds | dropReturn | dropHandleReturn => exact absurd rfl nowhere
  | schedule top | processed top | skip top | check top | blockedOn top | deadlock top
  | hasTasks top | drain top | close top | clearInbox top | cancel top | canceledAll top
  | dropSlot top | shutDown top => simp [top] at nowhere

end

/-- Every run of the executor is one of its statements, taken apart. -/
theorem reachable_resting {us : List (Machine.Transition Executor Executor.Act Event)}
    {e : Executor} (run : Executor.machine.Run us e) : machine.Reachable (resting e) := by
  apply run.invariant
  · rintro _ rfl
    exact ⟨[], .start rfl⟩
  · rintro e act e' ev reached taken
    have inv : Inv (resting e) := reached.elim fun _ run => inv_of_run run
    exact reached.moves (moves_resting inv taken)

/-- In every run, the slots are borrowed by one statement at a time, which nothing else on
the executor's thread interrupts while it has its guard. No new task finds a slot in its
place, no future that is put back finds another one, and none is dropped under a guard.
Every state of the executor is one of those between statements. -/
theorem slots_borrowed_alone {ts : List (Machine.Transition Borrowing Act Event)} {b : Borrowing}
    (run : machine.Run ts b) :
    Safe b ∧
    (∀ t ∈ ts, Safe t.before ∧ (t.before.borrowed = true → ∀ id, t.out ≠ .dropped id)) ∧
    ∀ us e, Executor.machine.Run us e → machine.Reachable (resting e) := by
  refine ⟨(inv_of_run run).safe, fun t member => ?_, fun us e => reachable_resting⟩
  obtain ⟨⟨earlier, prior⟩, taken⟩ := run.step_of_mem member
  exact ⟨(inv_of_run prior).safe, ((inv_of_run prior).step taken).2⟩

/-- A task that, while it is polled, spawns another one, cancels itself, and cancels the
other one, whose destructor spawns a third. -/
theorem reentrant_borrows : ∃ ts b, machine.Run ts b ∧
    ts.map Machine.Transition.act =
      [.call .spawn, .go, .go, .go, .go, .go, .call .advance, .call .advance, .call .advance,
      .call .advance, .call .advance, .call (.processTasks 1), .call .advance, .call .advance,
      .go, .go, .go, .go, .call .spawn, .go, .go, .go, .go, .go, .call .advance, .call .advance,
      .call .advance, .call .advance, .call .advance, .call (.dropHandle 0), .go, .go, .go, .go,
      .call (.dropHandle 1), .go, .go, .go, .go, .call .spawn, .go, .go, .go] ∧
    b.borrowed = true ∧ b.executor.stack.length = 3 ∧ b.executor.drops 1 = 1 ∧ Safe b := by
  obtain ⟨ts, b, run, acts, borrowed, deep, dropped⟩ := Machine.exists_run (m := machine)
    (P := fun _ b => b.borrowed = true ∧ b.executor.stack.length = 3 ∧ b.executor.drops 1 = 1)
    [.call .spawn, .go, .go, .go, .go, .go, .call .advance, .call .advance, .call .advance,
      .call .advance, .call .advance, .call (.processTasks 1), .call .advance, .call .advance,
      .go, .go, .go, .go, .call .spawn, .go, .go, .go, .go, .go, .call .advance, .call .advance,
      .call .advance, .call .advance, .call .advance, .call (.dropHandle 0), .go, .go, .go, .go,
      .call (.dropHandle 1), .go, .go, .go, .go, .call .spawn, .go, .go, .go] rfl (by decide)
  exact ⟨ts, b, run, acts, borrowed, deep, dropped, (slots_borrowed_alone run).1⟩

end Borrowing

end Eneste.Executor
