import Eneste.Executor.Moves

/-!
# The stack of calls

What can stand under what on the executor's thread, and which of it keeps the executor
alive. Only the innermost frame is in the middle of a piece of the executor's own code.
-/

namespace Eneste

/-- A frame that waits for the frame above it to return. -/
def Frame.resting : Frame → Bool
  | .schedule _ => false
  | .process checked _ => !checked
  | .poll _ | .dropFuture _ _ => true
  | .blockOn _ checked => !checked
  | .shutdown (.dropSlots _) => true
  | .shutdown _ => false

/-- The user code in `run`: a poll, or the destructor when the poll has ended. -/
def Frame.inRun : Frame → Bool
  | .poll _ | .dropFuture _ .completed | .dropFuture _ .leftover | .dropFuture _ .unwound => true
  | _ => false

/-- `run` is called by `process_tasks`. -/
def Seated : List Frame → Prop
  | [] => True
  | frame :: rest =>
    (frame.inRun = true → ∃ batch more, rest = .process false batch :: more) ∧ Seated rest

theorem Seated.borrows {stack : List Frame} {id : Nat} (seated : Seated stack)
    (polled : .poll id ∈ stack) : ∃ frame ∈ stack, frame.borrows = true := by
  induction stack with
  | nil => cases polled
  | cons frame rest ih =>
    rcases List.mem_cons.mp polled with rfl | below
    · obtain ⟨batch, more, rfl⟩ := seated.1 rfl
      exact ⟨.process false batch, by simp, rfl⟩
    · obtain ⟨other, member, borrows⟩ := ih seated.2 below
      exact ⟨other, List.mem_cons_of_mem _ member, borrows⟩

namespace Executor

theorem sum_release (f : Frame → Nat) (none : f (.shutdown .close) = 0) (e : Executor)
    (executors : Nat) (stack : List Frame) :
    ((e.release executors stack).stack.map f).sum = (stack.map f).sum := by
  unfold release
  dsimp only
  split
  · simp [none]
  · rfl

theorem mem_release {e : Executor} {executors : Nat} {stack : List Frame} {frame : Frame}
    (member : frame ∈ (e.release executors stack).stack) (other : frame ≠ .shutdown .close) :
    frame ∈ stack := by
  unfold release at member
  dsimp only at member
  split at member
  · exact (List.mem_cons.mp member).resolve_left other
  · exact member

theorem mem_stack_release {e : Executor} {executors : Nat} {stack : List Frame} {frame : Frame}
    (member : frame ∈ stack) : frame ∈ (e.release executors stack).stack := by
  unfold release
  dsimp only
  split
  · exact List.mem_cons_of_mem _ member
  · exact member

theorem sum_unwind (f : Frame → Nat) (none : ∀ id checked, f (.blockOn id checked) = 0)
    (rest : List Frame) : ((unwind rest).map f).sum = (rest.map f).sum := by
  unfold unwind
  split
  · simp [none]
  · rfl

theorem mem_unwind {rest : List Frame} {frame : Frame} (member : frame ∈ unwind rest) :
    frame ∈ rest := by
  unfold unwind at member
  split at member
  · exact List.mem_cons_of_mem _ member
  · exact member

theorem mem_unwind_of_ne {rest : List Frame} {frame : Frame} (member : frame ∈ rest)
    (other : ∀ id checked, frame ≠ .blockOn id checked) : frame ∈ unwind rest := by
  unfold unwind
  split
  · exact (List.mem_cons.mp member).resolve_left (other _ _)
  · exact member

theorem sum_next (f : Frame → Nat) (p : Call → Bool)
    (calls : ∀ call, f (.schedule call) = [call].countP p) (next : Option Call)
    (rest : List Frame) : (((next.map Frame.schedule).toList ++ rest).map f).sum =
      next.toList.countP p + (rest.map f).sum := by
  cases next <;> simp [calls]

/-- The stack and what keeps the executor alive, in any reachable state. -/
structure Nested (closed : Bool) (executors : Nat) (stack : List Frame) : Prop where
  resting : ∀ frame ∈ stack.tail, frame.resting = true
  seated : Seated stack
  borrowed : ∀ frame ∈ stack, frame.borrows = true → executors ≠ 0
  /-- The executor is dropped once nobody holds it. -/
  gone : closed = true → strong executors stack = 0
  leaving : ∀ stage, .shutdown stage ∈ stack →
    strong executors stack = 0 ∧ (stage = .close ∨ closed = true)
  /-- It is dropped as soon as nobody holds it. -/
  ended : strong executors stack = 0 → closed = true ∨ ∃ rest, stack = .shutdown .close :: rest

namespace Nested

variable {closed : Bool} {executors : Nat} {stack rest : List Frame} {frame : Frame}

theorem strong_cons (frame : Frame) : strong executors (frame :: rest) =
    strong executors rest + frame.upgrades.toNat := by
  cases upgraded : frame.upgrades <;> simp [strong, upgraded, Nat.add_assoc]

/-- While an `Executor` lives, the state is neither dropped nor being dropped. -/
theorem open_of_strong (inv : Nested closed executors stack)
    (held : strong executors stack ≠ 0) :
    closed = false ∧ ∀ stage, .shutdown stage ∉ stack := by
  refine ⟨?_, fun stage member => held (inv.leaving stage member).1⟩
  cases isOver : closed with
  | true => exact absurd (inv.gone isOver) held
  | false => rfl

/-- User code in `run` is called by the `process_tasks` below it. -/
theorem seat (inv : Nested closed executors stack) (top : stack = frame :: rest)
    (inRun : frame.inRun = true) : ∃ batch more, rest = .process false batch :: more := by
  have seated := inv.seated
  rw [top] at seated
  exact seated.1 inRun

theorem alive (inv : Nested closed executors stack) (alive : executors ≠ 0) :
    closed = false ∧ ∀ stage, .shutdown stage ∉ stack :=
  inv.open_of_strong (by unfold strong; omega)

theorem pop (inv : Nested closed executors (frame :: rest)) (plain : frame.upgrades = false)
    (other : frame ≠ .shutdown .close) : Nested closed executors rest where
  resting other member := inv.resting other (List.mem_of_mem_tail member)
  seated := inv.seated.2
  borrowed other member := inv.borrowed other (List.mem_cons_of_mem _ member)
  gone isOver := by simpa [strong_cons, plain] using inv.gone isOver
  leaving stage member := by
    simpa [strong_cons, plain] using inv.leaving stage (List.mem_cons_of_mem _ member)
  ended empty := by
    rcases inv.ended (by simpa [strong_cons, plain] using empty) with isOver | ⟨more, top⟩
    · exact Or.inl isOver
    · exact absurd (List.cons.inj top).1 other

theorem push (inv : Nested closed executors rest) (resting : ∀ below ∈ rest, below.resting = true)
    (plain : frame.upgrades = false) (other : ∀ stage, frame ≠ .shutdown stage)
    (seat : frame.inRun = true → ∃ batch more, rest = .process false batch :: more)
    (borrows : frame.borrows = true → executors ≠ 0) :
    Nested closed executors (frame :: rest) where
  resting := resting
  seated := ⟨seat, inv.seated⟩
  borrowed := by
    simp only [List.mem_cons, forall_eq_or_imp]
    exact ⟨borrows, inv.borrowed⟩
  gone isOver := by simpa [strong_cons, plain] using inv.gone isOver
  leaving stage member := by
    rcases List.mem_cons.mp member with new | old
    · exact absurd new.symm (other stage)
    · simpa [strong_cons, plain] using inv.leaving stage old
  ended empty := by
    rcases inv.ended (by simpa [strong_cons, plain] using empty) with isOver | ⟨more, rfl⟩
    · exact Or.inl isOver
    · -- no frame is pushed in the middle of the executor's own code
      cases resting (.shutdown .close) (by simp)

theorem plain_of_borrows (borrows : frame.borrows = true) : frame.upgrades = false ∧
    (∀ stage, frame ≠ .shutdown stage) ∧ frame.inRun = false := by
  cases frame with
  | process checked batch => exact ⟨rfl, nofun, rfl⟩
  | blockOn id checked => exact ⟨rfl, nofun, rfl⟩
  | _ => cases borrows

/-- `process_tasks` and `block_on` go on. -/
theorem turn {next : Frame} (inv : Nested closed executors (frame :: rest))
    (before : frame.borrows = true) (after : next.borrows = true) :
    Nested closed executors (next :: rest) := by
  obtain ⟨light, other, -⟩ := plain_of_borrows before
  obtain ⟨light', other', unpolled⟩ := plain_of_borrows after
  exact (inv.pop light (other _)).push inv.resting light' other'
    (fun polled => absurd polled (by simp [unpolled])) fun _ => inv.borrowed frame (by simp) before

/-- The last strong reference may be gone. -/
theorem release {e : Executor} (free : ∀ below ∈ stack, below.resting = true)
    (seated : Seated stack) (borrowed : ∀ frame ∈ stack, frame.borrows = true → executors ≠ 0)
    (opened : e.closed = false ∧ ∀ stage, .shutdown stage ∉ stack) :
    Nested e.closed (e.release executors stack).executors (e.release executors stack).stack := by
  unfold Executor.release
  dsimp only
  split
  next empty =>
    have same : strong executors (.shutdown .close :: stack) = 0 := by
      rw [strong_cons, empty]
      rfl
    exact {
      resting := free
      seated := ⟨nofun, seated⟩
      borrowed := by simpa [Frame.borrows] using borrowed
      gone := fun _ => same
      leaving := fun stage member => ⟨same, (List.mem_cons.mp member).elim
        (fun new => Or.inl (Frame.shutdown.inj new)) fun old => absurd old (opened.2 stage)⟩
      ended := fun _ => Or.inr ⟨stack, rfl⟩ }
  next held =>
    exact {
      resting := fun frame member => free frame (List.mem_of_mem_tail member)
      seated := seated
      borrowed := borrowed
      gone := fun isOver => by simp [opened.1] at isOver
      leaving := fun stage member => absurd member (opened.2 stage)
      ended := fun empty => absurd empty held }

/-- `ExcutorTask::drop` upgrades its reference before it drops the future. -/
theorem upgrade {id : Nat} (inv : Nested closed executors stack)
    (free : ∀ below ∈ stack, below.resting = true) (held : strong executors stack ≠ 0) :
    Nested closed executors (.dropFuture id .handle :: stack) where
  resting := free
  seated := ⟨nofun, inv.seated⟩
  borrowed := by simpa [Frame.borrows] using inv.borrowed
  gone isOver := by simp [(inv.open_of_strong held).1] at isOver
  leaving stage member := by
    rcases List.mem_cons.mp member with new | old
    · cases new
    · exact absurd old ((inv.open_of_strong held).2 stage)
  ended empty := by simp [strong_cons, Frame.upgrades] at empty

/-- `ExecutorState::drop` goes on. -/
theorem goOn {stage : Shutdown} (inv : Nested closed executors (.shutdown stage :: rest))
    (next : Shutdown) : Nested true executors (.shutdown next :: rest) where
  resting := inv.resting
  seated := ⟨nofun, inv.seated.2⟩
  borrowed := by simpa [Frame.borrows] using inv.borrowed
  gone _ := (inv.leaving stage (by simp)).1
  leaving _ _ := ⟨(inv.leaving stage (by simp)).1, Or.inr rfl⟩
  ended _ := Or.inl rfl

theorem closed_of_stage {stage : Shutdown} (inv : Nested closed executors (.shutdown stage :: rest))
    (later : stage ≠ .close) : closed = true :=
  (inv.leaving stage List.mem_cons_self).2.resolve_left later

end Nested

/-- User code is called with every frame at rest. -/
theorem resting_of_user {e : Executor} (inv : Nested e.closed e.executors e.stack)
    (user : e.userMode = true) : ∀ frame ∈ e.stack, frame.resting = true := by
  have below := inv.resting
  unfold userMode at user
  split at user
  next top => simp [top]
  next top =>
    rw [top] at below ⊢
    simpa [Frame.resting] using below
  next top =>
    rw [top] at below ⊢
    simpa [Frame.resting] using below
  next => cases user

theorem Nested.moves {e e' : Executor} {act : Act} {ev : Event}
    (inv : Nested e.closed e.executors e.stack) (moved : Moves e act e' ev) :
    Nested e'.closed e'.executors e'.stack := by
  have below := inv.resting
  cases moved with
  | wakeThread | dropFinished | dropPolled | detach => exact inv
  | @stepThread index call found =>
    have same := (Executor.scheduled e call).untouched
    simpa only [same.closed, same.executors, same.stack] using inv
  | spawn user alive | wake user known =>
    exact inv.push (resting_of_user inv user) rfl nofun nofun nofun
  | dropPending user held unfinished upgraded =>
    exact inv.upgrade (resting_of_user inv user) upgraded
  | processTasks user alive =>
    exact inv.push (resting_of_user inv user) rfl nofun nofun fun _ => alive
  | blockOn user alive =>
    have free := resting_of_user inv user
    -- the loop waits under the `schedule` of the task it spawns
    have waiting : Nested e.closed e.executors (.blockOn e.nextId false :: e.stack) :=
      inv.push free rfl nofun nofun fun _ => alive
    exact waiting.push (by simpa [Frame.resting] using free) rfl nofun nofun nofun
  | cloneExecutor user alive =>
    have opened := inv.alive alive
    exact {
      resting := inv.resting
      seated := inv.seated
      borrowed := fun _ _ _ => Nat.succ_ne_zero _
      gone := fun isOver => by simp [opened.1] at isOver
      leaving := fun stage member => absurd member (opened.2 stage)
      ended := fun empty => absurd empty (by simp only [strong]; omega) }
  | dropExecutor user alive free =>
    refine Nested.release (resting_of_user inv user) inv.seated (fun frame member borrows => ?_)
      (inv.alive alive)
    -- a borrowed `Executor` cannot be the last one to go
    rcases free with more | free
    · omega
    · rw [free frame member] at borrows
      cases borrows
  | pollPending top | processed top | blockedOn top | deadlock top | shutDown top =>
    rw [top] at inv
    exact inv.pop rfl nofun
  | @dropReturn id site rest top other plain =>
    rw [top] at inv
    refine inv.pop ?_ nofun
    cases site with
    | handle => exact absurd rfl other
    | _ => rfl
  | pollReady top | pollCanceled top | pollPanic top =>
    rw [top] at inv below
    -- the destructor takes the seat of the poll
    exact (inv.pop rfl nofun).push below rfl nofun (fun _ => inv.seated.1 rfl) nofun
  | skip top | check top | stale top | hasTasks top =>
    rw [top] at inv
    exact inv.turn rfl rfl
  | unwinds top =>
    rw [top] at inv
    have left := (inv.pop rfl nofun).pop rfl nofun
    -- a `block_on` that called `process_tasks` unwinds with it
    unfold unwind
    split
    · exact left.pop rfl nofun
    · exact left
  | dropHandleReturn top =>
    rw [top] at inv
    -- until here the frame itself held a strong reference
    have held := inv.open_of_strong (by simp [strong_cons, Frame.upgrades])
    exact Nested.release inv.resting inv.seated.2
      (fun frame member => inv.borrowed frame (List.mem_cons_of_mem _ member))
      ⟨held.1, fun stage member => held.2 stage (List.mem_cons_of_mem _ member)⟩
  | @schedule call rest top =>
    have same := (Executor.scheduled e call).untouched
    rw [top] at inv
    -- the call either returns or stays on top
    have left := inv.pop rfl nofun
    simp only [same.closed, same.executors]
    cases (e.scheduleStep call).2 with
    | none => exact left
    | some next => exact left.push inv.resting rfl nofun nofun nofun
  | @run id batch rest top =>
    rw [top] at inv
    -- the poll sits on the `process_tasks` that runs it
    refine Nested.push (inv.turn rfl rfl) ?_ rfl nofun (fun _ => ⟨batch, rest, rfl⟩) nofun
    simpa [Frame.resting] using inv.resting
  | @drain id rest top =>
    rw [top] at inv
    refine Nested.push (inv.turn rfl rfl) ?_ rfl nofun nofun fun _ =>
      inv.borrowed _ List.mem_cons_self rfl
    simpa [Frame.resting] using inv.resting
  | close top =>
    rw [top] at inv
    exact inv.goOn _
  | clearInbox top | cancel top | canceledAll top =>
    rw [top] at inv
    simpa only [inv.closed_of_stage nofun] using inv.goOn _
  | @dropSlot task others rest top =>
    rw [top] at inv
    have left := inv.goOn (.dropSlots others)
    have isOver : e.closed = true := inv.closed_of_stage nofun
    simp only [dropFuture, isOver]
    refine left.push ?_ rfl nofun nofun nofun
    simpa [Frame.resting] using inv.resting

theorem nested_of_run {ts : List (Machine.Transition Executor Act Event)} {e : Executor}
    (run : machine.Run ts e) : Nested e.closed e.executors e.stack := by
  apply run.relative (P := fun e => Nested e.closed e.executors e.stack)
  · rintro _ rfl
    exact ⟨nofun, trivial, nofun, nofun, nofun, nofun⟩
  · intro _ _ _ _ _ _ inv taken
    exact inv.moves (step_cases taken)

end Executor

end Eneste
