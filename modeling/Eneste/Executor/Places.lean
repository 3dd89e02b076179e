import Eneste.Executor.Nesting

/-!
# Where the futures are

The future of a task is in its slot, in the hands of `run` while it is polled, among the
slots that `ExecutorState::drop` has taken, or dropped: in one place at any time. Slots,
header flags and handles stay in step with that.
-/

namespace Eneste

/-- The futures in the hands of the code behind a frame. -/
def Frame.futures : Frame → List Nat
  | .poll id => [id]
  | .shutdown (.cancel _ futures) | .shutdown (.dropSlots futures) => futures
  | _ => []

/-- How often the future of the task occurs on the stack. -/
def onStack (id : Nat) (stack : List Frame) : Nat :=
  (stack.map fun frame => frame.futures.count id).sum

@[simp] theorem onStack_cons (id : Nat) (frame : Frame) (rest : List Frame) :
    onStack id (frame :: rest) = frame.futures.count id + onStack id rest := rfl

theorem onStack_pos {id : Nat} {stack : List Frame} (polled : .poll id ∈ stack) :
    0 < onStack id stack := by
  induction stack with
  | nil => cases polled
  | cons frame rest ih =>
    rw [onStack_cons]
    rcases List.mem_cons.mp polled with rfl | below
    · exact Nat.add_pos_left (by simp [Frame.futures]) _
    · exact Nat.add_pos_right _ (ih below)

namespace Executor

/-- How often the future of the task exists. -/
def held (e : Executor) (id : Nat) : Nat :=
  (e.slots.get? id == some true).toNat + onStack id e.stack

theorem onStack_release (id : Nat) (e : Executor) (executors : Nat) (stack : List Frame) :
    onStack id (e.release executors stack).stack = onStack id stack :=
  sum_release (fun frame => frame.futures.count id) rfl e executors stack

/-- No future is in the hands of a `block_on` that unwinds. -/
theorem onStack_unwind (id : Nat) (rest : List Frame) :
    onStack id (unwind rest) = onStack id rest :=
  sum_unwind _ (fun _ _ => rfl) rest

theorem onStack_next (id : Nat) (next : Option Call) (rest : List Frame) :
    onStack id ((next.map Frame.schedule).toList ++ rest) = onStack id rest := by
  have kept := sum_next (fun frame => frame.futures.count id) (fun _ => false) (fun _ => rfl) next
    rest
  simpa [onStack] using kept

/-- The future of the task is being polled. -/
def Polling (e : Executor) (id : Nat) : Prop := .poll id ∈ e.stack

/-- `ExecutorState::drop` has taken the slot of the task and not canceled it yet. -/
def canceling (e : Executor) (id : Nat) : Bool :=
  match e.stack with
  | .shutdown (.cancel others _) :: _ => others.contains id
  | _ => false

/-- `ExecutorState::drop` has yet to take the slots. -/
def clearing (e : Executor) : Bool :=
  match e.stack with
  | .shutdown .clearInbox :: _ => true
  | _ => false

/-- A future that is dropped is no longer held, by the slot or by the stack. -/
theorem held_dropped (e : Executor) (id : Nat) (site : DropSite) (other : Nat) :
    (e.dropFuture id site).held other = e.held other := by
  simp [held, dropFuture, Frame.futures]

/-- It counts as one dropped from then on. -/
theorem held_dropFuture (e : Executor) (id : Nat) (site : DropSite) (other : Nat) :
    (e.dropFuture id site).held other + (e.dropFuture id site).drops other =
      e.held other + e.drops other + [id].count other := by
  rw [held_dropped]
  by_cases own : other = id
  · simp [dropFuture, own, Nat.add_assoc]
  · simp [dropFuture, own, Ne.symm own]

/-- The futures in the slots are those that `ExecutorState::drop` takes. -/
theorem held_clearInbox {e : Executor} {rest : List Frame}
    (top : e.stack = .shutdown .clearInbox :: rest) (task : Nat) :
    held { e with
      inbox := []
      slots := OrderedMap.empty
      stack := .shutdown (.cancel e.slots.keys (e.slots.keysWith id)) :: rest } task =
      e.held task := by
  have inSlot : (e.slots.get? task).any id = (e.slots.get? task == some true) := by
    rcases e.slots.get? task with _ | slot <;> simp
  simp [held, top, Frame.futures, OrderedMap.count_keysWith, inSlot]

structure Placed (e : Executor) : Prop where
  /-- The future is in one place once the task has been spawned. -/
  conserved : ∀ id, e.held id + e.drops id = (decide (id < e.nextId)).toNat
  unfinished : ∀ id slot, e.slots.get? id = some slot → e.finished id = false
  present : ∀ id, id < e.nextId → e.finished id = false →
    e.slots.get? id ≠ none ∨ e.canceling id = true
  emptied : e.closed = true → e.slots = OrderedMap.empty ∨ e.clearing = true
  returned : ∀ id, e.returned id = true → id < e.nextId ∧ e.finished id = true
  released : ∀ id, e.released id = true → id < e.nextId ∧ e.finished id = true
  /-- A task that ends while it is polled has lost its handle. -/
  canceled : ∀ id, e.Polling id → e.finished id = true → e.released id = true
  handles : ∀ id ∈ e.handles, id < e.nextId

/-- Tasks are polled only while an `Executor` lives. -/
theorem Nested.open_of_poll {closed : Bool} {executors : Nat} {stack : List Frame} {id : Nat}
    (inv : Nested closed executors stack) (polled : .poll id ∈ stack) :
    closed = false ∧ ∀ stage, .shutdown stage ∉ stack := by
  obtain ⟨frame, present, borrows⟩ := inv.seated.borrows polled
  exact inv.alive (inv.borrowed frame present borrows)

theorem clearing_of_user {e : Executor} (user : e.userMode = true) : e.clearing = false := by
  unfold userMode at user
  unfold clearing
  split at user <;> simp_all

theorem canceling_of_user {e : Executor} (user : e.userMode = true) (id : Nat) :
    e.canceling id = false := by
  unfold userMode at user
  unfold canceling
  split at user <;> simp_all

namespace Placed

variable {e e' : Executor}

/-- A step that ends no task. -/
private theorem kept (inv : Placed e) (nextId : e'.nextId = e.nextId)
    (finished : ∀ id, e'.finished id = e.finished id)
    (returned : e'.returned = e.returned) (released : e'.released = e.released)
    (slots : ∀ id, (e'.slots.get? id).isSome = (e.slots.get? id).isSome)
    (conserved : ∀ id, e'.held id + e'.drops id = e.held id + e.drops id)
    (emptied : e'.closed = true → e'.slots = OrderedMap.empty ∨ e'.clearing = true)
    (canceling : ∀ id, e.canceling id = true → e'.canceling id = true)
    (polling : ∀ id, e'.Polling id → e.Polling id ∨ e.finished id = false)
    (handles : ∀ id ∈ e'.handles, id < e.nextId) : Placed e' where
  conserved id := by rw [conserved, nextId, inv.conserved]
  unfinished id slot found := by
    have occupied := slots id
    rw [found, Option.isSome_some, eq_comm, Option.isSome_iff_exists] at occupied
    obtain ⟨before, found⟩ := occupied
    rw [finished, inv.unfinished id before found]
  present id known unfinished := by
    rw [← Option.isSome_iff_ne_none, slots, Option.isSome_iff_ne_none]
    exact (inv.present id (nextId ▸ known) (finished id ▸ unfinished)).imp_right (canceling id)
  emptied := emptied
  returned id ready := by
    rw [nextId, finished]
    exact inv.returned id (returned ▸ ready)
  released id gone := by
    rw [nextId, finished]
    exact inv.released id (released ▸ gone)
  canceled id polled isOver := by
    rw [finished] at isOver
    rw [released]
    refine inv.canceled id ((polling id polled).resolve_right ?_) isOver
    simp [isOver]
  handles id member := by
    rw [nextId]
    exact handles id member

/-- A step that moves futures about among the calls and those dropped. -/
private theorem restacked (inv : Placed e) (nextId : e'.nextId = e.nextId)
    (finished : ∀ id, e'.finished id = e.finished id)
    (returned : e'.returned = e.returned) (released : e'.released = e.released)
    (slots : e'.slots = e.slots) (closed : e'.closed = e.closed) (handles : e'.handles = e.handles)
    (cleared : e.clearing = false) (idle : ∀ id, e.canceling id = false)
    (conserved : ∀ id, e'.held id + e'.drops id = e.held id + e.drops id)
    (polling : ∀ id, e'.Polling id → e.Polling id) : Placed e' := by
  apply inv.kept nextId finished returned released (fun id => by rw [slots]) conserved
  · intro isOver
    rw [slots]
    exact Or.inl ((inv.emptied (closed ▸ isOver)).resolve_right (by simp [cleared]))
  · simp [idle]
  · exact fun id polled => Or.inl (polling id polled)
  · rw [handles]
    exact inv.handles

/-- A step that ends the task: its slot is gone and its flags say so. -/
private theorem ended (inv : Placed e) (id : Nat) (nextId : e'.nextId = e.nextId)
    (isOver : e'.finished id = true) (gone : e'.slots.get? id = none)
    (others : ∀ other, other ≠ id → e'.finished other = e.finished other ∧
      e'.slots.get? other = e.slots.get? other ∧ e'.returned other = e.returned other ∧
      e'.released other = e.released other)
    (known : id < e.nextId ∨ e'.returned id = e.returned id ∧ e'.released id = e.released id)
    (conserved : ∀ id, e'.held id + e'.drops id = e.held id + e.drops id)
    (emptied : e'.closed = true → e'.slots = OrderedMap.empty ∨ e'.clearing = true)
    (canceling : ∀ other, other ≠ id → e.canceling other = true → e'.canceling other = true)
    (polling : ∀ id, e'.Polling id → e.Polling id)
    (canceled : e'.Polling id → e'.released id = true)
    (handles : ∀ id ∈ e'.handles, id < e.nextId) : Placed e' where
  conserved id := by rw [conserved, nextId, inv.conserved]
  unfinished other slot found := by
    -- the ended task has no slot left, the others are as before
    by_cases own : other = id
    · rw [own, gone] at found
      cases found
    · rw [(others other own).2.1] at found
      rw [(others other own).1, inv.unfinished other slot found]
  present other spawned unfinished := by
    by_cases own : other = id
    · simp [own, isOver] at unfinished
    · rw [(others other own).1] at unfinished
      rw [(others other own).2.1]
      exact (inv.present other (nextId ▸ spawned) unfinished).imp_right (canceling other own)
  emptied := emptied
  returned other ready := by
    rw [nextId]
    by_cases own : other = id
    · subst own
      refine ⟨known.elim (fun known => known) fun same => ?_, isOver⟩
      exact (inv.returned other (same.1 ▸ ready)).1
    · rw [(others other own).1]
      exact inv.returned other ((others other own).2.2.1 ▸ ready)
  released other lost := by
    rw [nextId]
    by_cases own : other = id
    · subst own
      refine ⟨known.elim (fun known => known) fun same => ?_, isOver⟩
      exact (inv.released other (same.2 ▸ lost)).1
    · rw [(others other own).1]
      exact inv.released other ((others other own).2.2.2 ▸ lost)
  canceled other polled finished := by
    by_cases own : other = id
    · subst own
      exact canceled polled
    · rw [(others other own).1] at finished
      rw [(others other own).2.2.2]
      exact inv.canceled other (polling other polled) finished
  handles other member := by
    rw [nextId]
    exact handles other member

/-- The slots of a dropped executor are gone before any user code runs. -/
theorem empty_of_user (inv : Placed e) (nested : Nested e.closed e.executors e.stack)
    (user : e.userMode = true) (free : strong e.executors e.stack = 0) :
    e.slots = OrderedMap.empty := by
  rcases nested.ended free with closed | ⟨rest, top⟩
  · exact (inv.emptied closed).resolve_right (by simp [clearing_of_user user])
  · simp [userMode, top] at user

theorem finished_of_user (inv : Placed e) (closed : e.closed = true) (user : e.userMode = true)
    {id : Nat} (known : id < e.nextId) : e.finished id = true := by
  by_contra unfinished
  have empty := (inv.emptied closed).resolve_right (by simp [clearing_of_user user])
  refine (inv.present id known (by simpa using unfinished)).elim (fun some => some ?_) ?_
  · rw [empty, OrderedMap.get?_empty]
  · simp [canceling_of_user user]

/-- The future of a task being polled is in the hands of `run`, and nowhere else. -/
theorem of_poll (inv : Placed e) {id : Nat} {rest : List Frame} (top : e.stack = .poll id :: rest) :
    id < e.nextId ∧ (e.slots.get? id == some true) = false ∧ onStack id rest = 0 ∧
      e.drops id = 0 := by
  -- the poll holds the one future there is
  have one := inv.conserved id
  simp only [held, top, onStack_cons, Frame.futures, List.count_cons_self, List.count_nil] at one
  have bound := Bool.toNat_le (decide (id < e.nextId))
  have given : (decide (id < e.nextId)).toNat = 1 := by omega
  refine ⟨by simpa using given, ?_, by omega, by omega⟩
  cases occupied : e.slots.get? id == some true with
  | false => rfl
  | true =>
    rw [occupied, Bool.toNat_true] at one
    omega

/-- A future in its slot is not being polled. -/
theorem not_polling (inv : Placed e) {id : Nat} (present : e.slots.get? id = some true) :
    ¬ e.Polling id := by
  intro polled
  -- it would be there twice
  have one := inv.conserved id
  have two := onStack_pos polled
  have bound := Bool.toNat_le (decide (id < e.nextId))
  simp only [held, present, beq_self_eq_true, Bool.toNat_true] at one
  omega

/-- A new task gets a slot with its future; its id was not given out before. -/
private theorem spawn (inv : Placed e) (opened : e.closed = false)
    (idle : ∀ id, e.canceling id = false) : Placed e.spawn := by
  have fresh : e.spawn.finished e.nextId = false := by
    simp [finished, Executor.spawn]
  have kept : ∀ id, id ≠ e.nextId → e.spawn.finished id = e.finished id ∧
      e.spawn.slots.get? id = e.slots.get? id := by
    intro id other
    have same : e.spawn.headers id = e.headers id := Function.update_of_ne other _ _
    exact ⟨by rw [finished, same, finished], OrderedMap.get?_insert_of_ne _ _ other⟩
  constructor
  case conserved =>
    intro id
    have before := inv.conserved id
    simp only [held] at before
    simp only [held, Executor.spawn, onStack_cons, Frame.futures, List.count_nil]
    by_cases own : id = e.nextId
    · subst own
      simp at before ⊢
      omega
    · have earlier : id < e.nextId + 1 ↔ id < e.nextId := by omega
      simpa [OrderedMap.get?_insert_of_ne _ _ own, earlier] using before
  case unfinished =>
    intro id slot found
    by_cases own : id = e.nextId
    · rw [own, fresh]
    · rw [(kept id own).2] at found
      rw [(kept id own).1, inv.unfinished id slot found]
  case present =>
    intro id known unfinished
    left
    by_cases own : id = e.nextId
    · simp [Executor.spawn, own]
    · have known : id < e.nextId + 1 := known
      rw [(kept id own).1] at unfinished
      rw [(kept id own).2]
      exact (inv.present id (by omega) unfinished).resolve_right (by simp [idle])
  case emptied => exact fun isOver => by simp [Executor.spawn, opened] at isOver
  case returned =>
    intro id ready
    obtain ⟨known, isOver⟩ := inv.returned id ready
    exact ⟨Nat.lt_succ_of_lt known, by rw [(kept id (by omega)).1, isOver]⟩
  case released =>
    intro id gone
    obtain ⟨known, isOver⟩ := inv.released id gone
    exact ⟨Nat.lt_succ_of_lt known, by rw [(kept id (by omega)).1, isOver]⟩
  case canceled =>
    intro id polled isOver
    have polled : .poll id ∈ e.stack := by simpa [Polling, Executor.spawn] using polled
    by_cases own : id = e.nextId
    · rw [own, fresh] at isOver
      cases isOver
    · exact inv.canceled id polled ((kept id own).1 ▸ isOver)
  case handles => exact fun id member => Nat.lt_succ_of_lt (inv.handles id member)

end Placed

/-- Every step keeps the futures in their places. -/
theorem Placed.moves {e e' : Executor} {act : Act} {ev : Event} (inv : Placed e)
    (nested : Nested e.closed e.executors e.stack) (moved : Moves e act e' ev) : Placed e' := by
  have known := inv.handles
  cases moved with
  | wakeThread | cloneExecutor =>
    exact inv.kept rfl (fun _ => rfl) rfl rfl (fun _ => rfl) (fun _ => rfl) inv.emptied
      (fun _ same => same) (fun _ => Or.inl) known
  | detach =>
    exact inv.kept rfl (fun _ => rfl) rfl rfl (fun _ => rfl) (fun _ => rfl) inv.emptied
      (fun _ same => same) (fun _ => Or.inl)
      fun id member => known id (List.mem_of_mem_erase member)
  | @stepThread index call found =>
    have same := (Executor.scheduled e call).untouched
    refine inv.kept same.nextId same.finished same.returned same.released (fun id => ?_)
      (fun id => ?_) (fun isOver => ?_) (fun id => ?_) (fun id polled => Or.inl ?_) ?_
    · simp only [same.slots]
    · simp only [held, same.slots, same.stack, same.drops]
    · simp only [clearing, same.slots, same.stack]
      exact inv.emptied (same.closed ▸ isOver)
    · simp only [canceling, same.stack]
      exact fun task => task
    · simpa only [Polling, same.stack] using polled
    · simpa only [same.handles] using known
  | spawn user alive =>
    -- the handle is all that comes on top of the new task
    have inv := inv.spawn (nested.alive alive).1 (canceling_of_user user)
    refine inv.kept rfl (fun _ => rfl) rfl rfl (fun _ => rfl) (fun _ => rfl) inv.emptied
      (fun _ same => same) (fun _ => Or.inl) ?_
    simpa [Executor.spawn] using fun id member => Nat.lt_succ_of_lt (known id member)
  | wake user | processTasks user =>
    refine inv.restacked rfl (fun _ => rfl) rfl rfl rfl rfl rfl (clearing_of_user user)
      (canceling_of_user user) ?_ ?_
    · simp [held, Frame.futures]
    · simp [Polling]
  | blockOn user alive =>
    refine Placed.spawn (inv.restacked rfl (fun _ => rfl) rfl rfl rfl rfl rfl
      (clearing_of_user user) (canceling_of_user user) (fun id => ?_) fun id => ?_)
      (nested.alive alive).1 fun _ => rfl
    · simp [held, Frame.futures]
    · simp [Polling]
  | dropExecutor user =>
    refine inv.restacked rfl (fun _ => rfl) rfl rfl rfl rfl rfl (clearing_of_user user)
      (canceling_of_user user) ?_ ?_
    · intro id
      simp only [held, onStack_release]
      rfl
    · exact fun id polled => mem_release polled (by simp)
  | dropHandleReturn top =>
    refine inv.restacked rfl (fun _ => rfl) rfl rfl rfl rfl rfl (by simp [clearing, top])
      (by simp [canceling, top]) ?_ ?_
    · intro id
      simp only [held, onStack_release]
      simp [top, Frame.futures, release]
    · intro id polled
      have below := mem_release polled (by simp)
      simp [Polling, top, below]
  | dropReturn top | processed top | skip top | check top | blockedOn top | deadlock top
  | hasTasks top | drain top | canceledAll top | shutDown top =>
    refine inv.restacked rfl (fun _ => rfl) rfl rfl rfl rfl rfl (by simp [clearing, top])
      (by simp [canceling, top]) ?_ ?_
    · simp [held, top, Frame.futures]
    · simp [Polling, top]
  | @schedule call rest top =>
    have same := (Executor.scheduled e call).untouched
    refine inv.restacked same.nextId same.finished same.returned same.released same.slots
      same.closed same.handles (by simp [clearing, top]) (by simp [canceling, top]) ?_ ?_
    · intro id
      simp only [held, onStack_next, same.slots, same.drops, top]
      simp [Frame.futures]
    · intro id polled
      cases next : (e.scheduleStep call).2 <;> simp_all [Polling]
  | @stale id batch rest top =>
    refine inv.restacked rfl (e.finished_dequeue id · batch rest) rfl rfl rfl rfl rfl
      (by simp [clearing, top]) (by simp [canceling, top]) ?_ ?_
    · simp [held, dequeue, top, Frame.futures]
    · simp [Polling, dequeue, top]
  | close top =>
    refine inv.kept rfl (fun _ => rfl) rfl rfl (fun _ => rfl) (fun id => ?_)
      (fun _ => Or.inr rfl) (fun id => ?_) (fun id polled => Or.inl ?_) known
    · simp [held, top, Frame.futures]
    · simp [canceling, top]
    · simpa [Polling, top] using polled
  | @pollPending id rest slot top found unfinished =>
    -- the future goes back from the poll into its slot
    obtain ⟨-, taken, -, -⟩ := inv.of_poll top
    refine inv.kept rfl (fun _ => rfl) rfl rfl (fun other => ?_) (fun other => ?_)
      (fun isOver => ?_) (fun other => ?_) (fun other polled => Or.inl ?_) known
    · by_cases own : other = id
      · simp [own, found]
      · simp [OrderedMap.get?_insert_of_ne _ _ own]
    · by_cases own : other = id
      · simp [held, top, Frame.futures, own, taken]
      · simp [held, top, Frame.futures, OrderedMap.get?_insert_of_ne _ _ own, Ne.symm own]
    · have opened := (nested.open_of_poll (show .poll id ∈ e.stack by simp [top])).1
      simp [opened] at isOver
    · simp [canceling, top]
    · simp only [Polling, top, List.mem_cons] at polled ⊢
      tauto
  | @pollCanceled _ _ top | @pollPanic _ _ _ _ top =>
    refine inv.restacked rfl (fun _ => rfl) rfl rfl rfl rfl rfl (by simp [clearing, top])
      (by simp [canceling, top]) ?_ ?_
    · intro other
      rw [held_dropFuture]
      simp only [held, top, onStack_cons, Frame.futures]
      omega
    · simp only [Polling, dropFuture, top, List.mem_cons]
      tauto
  | unwinds top =>
    refine inv.restacked rfl (fun _ => rfl) rfl rfl rfl rfl rfl (by simp [clearing, top])
      (by simp [canceling, top]) ?_ ?_
    · simp [held, top, Frame.futures, onStack_unwind]
    · intro other polled
      have below := mem_unwind polled
      simp [Polling, top, below]
  | @run id batch rest top present =>
    -- the future goes from its slot into the hands of the poll
    have unfinished := inv.unfinished id true present
    refine inv.kept rfl (e.finished_dequeue id · batch rest) rfl rfl (fun other => ?_)
      (fun other => ?_) (fun isOver => ?_) (fun other => ?_) (fun other polled => ?_) known
    · by_cases own : other = id
      · simp [own, present]
      · simp [OrderedMap.get?_insert_of_ne _ _ own]
    · by_cases own : other = id
      · simp [held, top, Frame.futures, own, present, dequeue]
      · simp [held, top, Frame.futures, OrderedMap.get?_insert_of_ne _ _ own, Ne.symm own, dequeue]
    · exact (inv.emptied isOver).elim (fun empty => by simp [empty] at present)
        (by simp [clearing, top])
    · simp [canceling, top]
    · by_cases own : other = id
      · exact Or.inr (own ▸ unfinished)
      · left
        simpa [Polling, top, own] using polled
  | @dropSlot task others rest top =>
    refine inv.restacked rfl (fun _ => rfl) rfl rfl rfl rfl rfl (by simp [clearing, top])
      (by simp [canceling, top]) ?_ ?_
    · intro other
      rw [held_dropFuture]
      simp only [held, top, onStack_cons, Frame.futures, List.count_cons, List.count_nil]
      omega
    · simp [Polling, dropFuture, top]
  | @dropFinished id user member idle =>
    -- a finished task has no slot, and an executor that nobody holds has none at all
    have gone : e.slots.get? id = none := by
      rcases idle with isOver | free
      · apply Option.eq_none_iff_forall_ne_some.mpr
        intro slot found
        rw [inv.unfinished id slot found] at isOver
        cases isOver
      · rw [inv.empty_of_user nested user free, OrderedMap.get?_empty]
    refine inv.ended id rfl (by simp) gone (fun other differs => ?_) (Or.inl (known id member))
      (fun _ => rfl) inv.emptied (fun _ _ same => same) (fun _ same => same) (fun _ => ?_)
      fun other kept => known other (List.mem_of_mem_erase kept)
    · exact ⟨by simp [differs], rfl, rfl, by simp [cancelHandle, differs]⟩
    · simp [cancelHandle]
  | @dropPolled id user member unfinished upgraded taken =>
    have opened := (nested.open_of_strong upgraded).1
    refine inv.ended id rfl ?_ (OrderedMap.get?_erase_self ..) (fun other differs => ?_)
      (Or.inl (known id member)) (fun other => ?_) (fun isOver => ?_) (fun _ _ same => same)
      (fun _ same => same) (fun _ => ?_) fun other kept => known other (List.mem_of_mem_erase kept)
    · exact (e.finished_cancelHandle id id).trans (if_pos rfl)
    · exact ⟨(e.finished_cancelHandle id other).trans (if_neg differs),
        OrderedMap.get?_erase_of_ne _ differs, rfl, by simp [cancelHandle, differs]⟩
    · by_cases own : other = id
      · simp [held, cancelHandle, own, taken]
      · simp [held, cancelHandle, OrderedMap.get?_erase_of_ne _ own]
    · simp [cancelHandle, opened] at isOver
    · simp [cancelHandle]
  | @dropPending id user member unfinished upgraded present =>
    have opened := (nested.open_of_strong upgraded).1
    refine inv.ended id rfl ?_ (OrderedMap.get?_erase_self ..) (fun other differs => ?_)
      (Or.inl (known id member)) (fun other => ?_) (fun isOver => ?_) (fun other _ => ?_)
      (fun _ polled => ?_) (fun _ => ?_) fun other kept => known other (List.mem_of_mem_erase kept)
    · exact (e.finished_cancelHandle id id).trans (if_pos rfl)
    · exact ⟨(e.finished_cancelHandle id other).trans (if_neg differs),
        OrderedMap.get?_erase_of_ne _ differs, rfl, by simp [cancelHandle, dropFuture, differs]⟩
    · by_cases own : other = id
      · simp [held, cancelHandle, dropFuture, Frame.futures, own, present]
        omega
      · simp [held, cancelHandle, dropFuture, Frame.futures, OrderedMap.get?_erase_of_ne _ own, own]
    · simp [cancelHandle, dropFuture, opened] at isOver
    · simp [canceling_of_user user]
    · simpa [Polling, dropFuture, cancelHandle] using polled
    · simp [cancelHandle, dropFuture]
  | @pollReady id rest top =>
    -- the slot goes, and the future with the poll that returns
    obtain ⟨spawned, taken, alone, -⟩ := inv.of_poll top
    have opened := (nested.open_of_poll (show .poll id ∈ e.stack by simp [top])).1
    refine inv.ended id rfl ?_ (OrderedMap.get?_erase_self ..) (fun other differs => ?_)
      (Or.inl spawned) (fun other => ?_) (fun isOver => ?_) (fun other _ => ?_)
      (fun other polled => ?_) (fun polled => ?_) known
    · simp [finished, dropFuture]
    · exact ⟨by simp [finished, dropFuture, differs], OrderedMap.get?_erase_of_ne _ differs,
        by simp [dropFuture, differs], rfl⟩
    · by_cases own : other = id
      · simp [held, dropFuture, top, Frame.futures, own, taken]
        omega
      · simp [held, dropFuture, top, Frame.futures, OrderedMap.get?_erase_of_ne _ own, own,
          Ne.symm own]
    · simp [dropFuture, opened] at isOver
    · simp [canceling, top]
    · simp only [Polling, dropFuture, top, List.mem_cons] at polled ⊢
      tauto
    · -- a second poll of the task would hold a second future
      have below : .poll id ∈ rest := by simpa [Polling, dropFuture] using polled
      exact absurd alone (onStack_pos below).ne'
  | @cancel task others futures rest top =>
    have isOver : e.closed = true := by
      rw [top] at nested
      exact nested.closed_of_stage (by simp)
    have empty : e.slots = OrderedMap.empty :=
      (inv.emptied isOver).resolve_right (by simp [clearing, top])
    refine inv.ended task rfl ?_ (by simp [empty]) (fun other differs => ?_)
      (Or.inr ⟨rfl, rfl⟩) (fun other => ?_) (fun isOver => Or.inl empty) (fun other differs => ?_)
      (fun other polled => ?_) (fun polled => ?_) known
    · simp [finished]
    · exact ⟨by simp [finished, differs], rfl, rfl, rfl⟩
    · simp [held, top, Frame.futures]
    · simp [canceling, top, differs]
    · simpa [Polling, top] using polled
    · have below : .poll task ∈ e.stack := by simpa [Polling, top] using polled
      have stage := (nested.open_of_poll below).2 (.cancel (task :: others) futures)
      exact absurd (by simp [top]) stage
  | @clearInbox rest top =>
    exact {
      conserved := fun task => by
        rw [held_clearInbox top]
        exact inv.conserved task
      unfinished := fun id slot found => by simp at found
      present := fun id spawned unfinished => by
        -- every task that had a slot is going to be canceled
        have occupied :=
          (inv.present id spawned unfinished).resolve_right (by simp [canceling, top])
        have listed := (e.slots.mem_keys_iff id).mpr (Option.ne_none_iff_exists'.mp occupied)
        exact Or.inr (by simpa [canceling] using listed)
      emptied := fun _ => Or.inl rfl
      returned := inv.returned
      released := inv.released
      canceled := fun id polled isOver =>
        inv.canceled id (by simpa [Polling, top] using polled) isOver
      handles := known }

theorem placed_of_run {ts : List (Machine.Transition Executor Act Event)} {e : Executor}
    (run : machine.Run ts e) : Placed e := by
  apply run.relative
  · rintro _ rfl
    exact ⟨fun _ => rfl, nofun, nofun, nofun, nofun, nofun, nofun, nofun⟩
  · intro _ _ _ _ _ prior inv taken
    exact inv.moves (nested_of_run prior) (step_cases taken)

end Executor

end Eneste
