import Eneste.Executor.Calls

/-!
# Calls of tasks

Polls, destructors and the calls of `schedule` they make run on top of a call of
`process_tasks`. They do not see what is below them or in the inbox: with anything else
there their steps are the same.
-/

namespace Eneste

/-- A frame of a call that a task makes, or of a poll or destructor of its own, that returns
to what is below it. -/
def Frame.light : Frame → Bool
  | .schedule _ | .poll _ => true
  | .dropFuture _ site => site != .unwound
  | _ => false

theorem Frame.plain_of_light {frame : Frame} (light : frame.light = true) :
    frame.borrows = false ∧ ∀ stage, frame ≠ .shutdown stage := by
  cases frame with
  | schedule | poll | dropFuture => exact ⟨rfl, nofun⟩
  | _ => cases light

namespace Executor

open Header Machine

/-- The call drives the queue. -/
def Act.drives : Act → Bool
  | .processTasks _ | .blockOn => true
  | _ => false

/-- A step of another thread. -/
def Act.foreign : Act → Bool
  | .wakeThread _ | .stepThread _ => true
  | _ => false

/-- The same with other calls below `frames` and more entries before the others. -/
def onto (e : Executor) (front : List Nat) (frames below : List Frame) : Executor :=
  { e with inbox := front ++ e.inbox, stack := frames ++ below }

variable {e e' : Executor} {act : Act} {ev : Event}

/-! ### What `ExcutorTask::drop` does -/

variable {id : Nat}

theorem dropHandle_of_finished (isOver : e.finished id = true) :
    e.dropHandle id = (e.cancelHandle id, .quiet) := by
  have isOver : isFinished (e.headers id) = true := isOver
  simp only [dropHandle, isOver, ite_true]
  rfl

theorem dropHandle_of_polled (unfinished : e.finished id = false)
    (upgraded : strong e.executors e.stack ≠ 0) (absent : e.slots.get? id ≠ some true) :
    e.dropHandle id = ({ e.cancelHandle id with slots := e.slots.erase id }, .quiet) := by
  have unfinished : isFinished (e.headers id) = false := unfinished
  simp only [dropHandle, unfinished, upgraded, absent, Bool.false_eq_true, ite_false]
  rfl

theorem dropHandle_of_pending (unfinished : e.finished id = false)
    (upgraded : strong e.executors e.stack ≠ 0) (present : e.slots.get? id = some true) :
    e.dropHandle id =
      ({ e.cancelHandle id with slots := e.slots.erase id }.dropFuture id .handle,
        .dropped id) := by
  have unfinished : isFinished (e.headers id) = false := unfinished
  simp only [dropHandle, unfinished, upgraded, present, Bool.false_eq_true, ite_false, ite_true]
  rfl

theorem release_of_alive {executors : Nat} (alive : executors ≠ 0) (stack : List Frame) :
    e.release executors stack = { e with executors := executors, stack := stack } := by
  have held : strong executors stack ≠ 0 := by
    unfold strong
    omega
  simp only [release, held, ite_false]

/-- `schedule` has nothing to do with the stack, and pushes behind all entries. -/
theorem scheduleStep_onto (e : Executor) (front : List Nat) (frames below : List Frame)
    (call : Call) : (e.onto front frames below).scheduleStep call =
      ((e.scheduleStep call).1.onto front frames below, (e.scheduleStep call).2) := by
  have same : ∀ j, (e.onto front frames below).finished j = e.finished j := fun _ => rfl
  unfold scheduleStep
  cases call.pc with
  | loadState => cases isOver : e.finished call.id <;> simp only [same, isOver] <;> rfl
  | loadClosed => cases closed : e.closed <;> simp [closed, onto, logCall]
  | fetchOr =>
    cases set : Header.isQueued (e.headers call.id) <;> simp [set, onto, logCall]
  | push => simp [onto]
  | notify => rfl

/-- The step turns the calls `frames` above `below` into `frames'`, and so it does with
anything else below and in front of the entries. -/
structure Above (below frames : List Frame) (e : Executor) (act : Act) (ev : Event)
    (frames' : List Frame) (e' : Executor) : Prop where
  alive : e'.executors ≠ 0
  light : ∀ g ∈ frames', g.light = true
  stack : e'.stack = frames' ++ below
  same : act.foreign = false → ∀ front below', below'.any Frame.borrows = true →
    (e.onto front frames below').step act = some (e'.onto front frames' below', ev)

/-- Calls of tasks stay above a call that borrows the executor. -/
theorem Moves.above {f : Frame} {fs below : List Frame} (moved : Moves e act e' ev)
    (top : e.stack = f :: fs ++ below) (light : ∀ g ∈ f :: fs, g.light = true)
    (alive : e.executors ≠ 0) (held : below.any Frame.borrows = true) (tame : act.drives = false)
    (calm : act ≠ .pollPanic) : ∃ frames, Above below (f :: fs) e act ev frames e' := by
  have user_onto : ∀ front below', (e.onto front (f :: fs) below').userMode = e.userMode := by
    intro front below'
    unfold userMode
    rw [top]
    cases f <;> rfl
  have deep := List.forall_mem_cons.mp light
  have strong_ne : ∀ stack, strong e.executors stack ≠ 0 := by
    intro stack
    unfold strong
    omega
  cases moved with
  | pollPanic => exact absurd rfl calm
  | processTasks | blockOn => cases tame
  | wakeThread => exact ⟨f :: fs, alive, light, top, nofun⟩
  | @stepThread index call found =>
    have same := (Executor.scheduled e call).untouched
    exact ⟨f :: fs, same.executors ▸ alive, light, same.stack.trans top, nofun⟩
  | spawn user =>
    refine ⟨_ :: f :: fs, alive, List.forall_mem_cons.mpr ⟨?_, light⟩, congrArg (List.cons _) top,
      fun _ front below' _ => ?_⟩
    · rfl
    · have alive' : (e.onto front (f :: fs) below').executors ≠ 0 := alive
      simp only [step, user_onto, user, bne_iff_ne.mpr alive', Bool.and_self, ite_true]
      rfl
  | wake user known =>
    refine ⟨_ :: f :: fs, alive, List.forall_mem_cons.mpr ⟨?_, light⟩, congrArg (List.cons _) top,
      fun _ front below' _ => ?_⟩
    · rfl
    · have known' : decide (_ < (e.onto front (f :: fs) below').nextId) = true :=
        decide_eq_true known
      simp only [step, user_onto, user, known', Bool.and_self, ite_true]
      rfl
  | @dropFinished id user member idle =>
    have isOver := idle.resolve_right (strong_ne _)
    refine ⟨f :: fs, alive, light, top, fun _ front below' _ => ?_⟩
    have held : decide (id ∈ (e.onto front (f :: fs) below').handles) = true :=
      decide_eq_true member
    have dropped := dropHandle_of_finished (e := e.onto front (f :: fs) below') isOver
    simp only [step, user_onto, user, held, Bool.and_self, ite_true, dropped]
    rfl
  | @dropPolled id user member unfinished upgraded absent =>
    refine ⟨f :: fs, alive, light, top, fun _ front below' _ => ?_⟩
    have held : decide (id ∈ (e.onto front (f :: fs) below').handles) = true :=
      decide_eq_true member
    have dropped := dropHandle_of_polled (e := e.onto front (f :: fs) below') unfinished
      (strong_ne _) absent
    simp only [step, user_onto, user, held, Bool.and_self, ite_true, dropped]
    rfl
  | @dropPending id user member unfinished upgraded present =>
    refine ⟨_ :: f :: fs, alive, List.forall_mem_cons.mpr ⟨?_, light⟩, congrArg (List.cons _) top,
      fun _ front below' _ => ?_⟩
    · rfl
    · have held : decide (id ∈ (e.onto front (f :: fs) below').handles) = true :=
        decide_eq_true member
      have dropped := dropHandle_of_pending (e := e.onto front (f :: fs) below') unfinished
        (strong_ne _) present
      simp only [step, user_onto, user, held, Bool.and_self, ite_true, dropped]
      rfl
  | detach user member =>
    refine ⟨f :: fs, alive, light, top, fun _ front below' _ => ?_⟩
    have held : decide (_ ∈ (e.onto front (f :: fs) below').handles) = true := decide_eq_true member
    simp only [step, user_onto, user, held, Bool.and_self, ite_true]
    rfl
  | cloneExecutor user =>
    refine ⟨f :: fs, Nat.succ_ne_zero _, light, top, fun _ front below' _ => ?_⟩
    have alive' : (e.onto front (f :: fs) below').executors ≠ 0 := alive
    simp only [step, user_onto, user, bne_iff_ne.mpr alive', Bool.and_self, ite_true]
    rfl
  | dropExecutor user _ free =>
    have many : e.executors ≠ 1 := by
      apply free.resolve_right
      intro unborrowed
      obtain ⟨frame, member, borrows⟩ := List.any_eq_true.mp held
      have none := unborrowed frame (by rw [top]; exact List.mem_append_right _ member)
      exact Bool.noConfusion (none.symm.trans borrows)
    have more : e.executors - 1 ≠ 0 := by omega
    rw [release_of_alive more]
    refine ⟨f :: fs, more, light, top, fun _ front below' held' => ?_⟩
    have alive' : (e.onto front (f :: fs) below').executors ≠ 0 := alive
    have many' : (e.onto front (f :: fs) below').executors ≠ 1 := many
    simp only [step, user_onto, user, bne_iff_ne.mpr alive', bne_iff_ne.mpr many', Bool.and_self,
      Bool.true_or, ite_true]
    exact congrArg some (congrArg (·, Event.quiet) (release_of_alive more _))
  | @pollReady id rest here =>
    obtain ⟨rfl, rfl⟩ := List.cons.inj (top.symm.trans here)
    exact ⟨_ :: fs, alive, List.forall_mem_cons.mpr ⟨rfl, deep.2⟩, rfl, fun _ _ _ _ => rfl⟩
  | @pollPending id rest slot here present unfinished =>
    obtain ⟨rfl, rfl⟩ := List.cons.inj (top.symm.trans here)
    refine ⟨fs, alive, deep.2, rfl, fun _ front below' _ => ?_⟩
    have kept : ((e.slots.get? id).isSome && !e.finished id) = true := by simp [present, unfinished]
    exact if_pos kept
  | @pollCanceled id rest here gone =>
    obtain ⟨rfl, rfl⟩ := List.cons.inj (top.symm.trans here)
    refine ⟨_ :: fs, alive, List.forall_mem_cons.mpr ⟨rfl, deep.2⟩, rfl, fun _ front below' _ => ?_⟩
    have lost : ((e.slots.get? id).isSome && !e.finished id) ≠ true := by
      rcases gone with none | isOver
      · simp [none]
      · simp [isOver]
    exact if_neg lost
  | unwinds here =>
    obtain ⟨rfl, -⟩ := List.cons.inj (top.symm.trans here)
    cases deep.1
  | @dropReturn id site rest here other =>
    obtain ⟨rfl, rfl⟩ := List.cons.inj (top.symm.trans here)
    refine ⟨fs, alive, deep.2, rfl, fun _ front below' _ => ?_⟩
    cases site with
    | handle => exact absurd rfl other
    | unwound => cases deep.1
    | _ => rfl
  | @dropHandleReturn id rest here =>
    obtain ⟨rfl, rfl⟩ := List.cons.inj (top.symm.trans here)
    rw [release_of_alive alive]
    refine ⟨fs, alive, deep.2, rfl, fun _ front below' _ => ?_⟩
    exact congrArg some (congrArg (·, Event.quiet) (release_of_alive alive _))
  | @schedule call rest here =>
    obtain ⟨rfl, rfl⟩ := List.cons.inj (top.symm.trans here)
    have same := (Executor.scheduled e call).untouched
    refine ⟨((e.scheduleStep call).2.map Frame.schedule).toList ++ fs, same.executors ▸ alive, ?_,
      (List.append_assoc _ _ _).symm, fun _ front below' _ => ?_⟩
    · cases (e.scheduleStep call).2 with
      | none => exact deep.2
      | some next => exact List.forall_mem_cons.mpr ⟨rfl, deep.2⟩
    · simp only [step, advance, onto, List.cons_append]
      have stepped := scheduleStep_onto e front (.schedule call :: fs) below' call
      simp only [onto, List.cons_append] at stepped
      rw [stepped]
      cases (e.scheduleStep call).2 <;> rfl
  | processed here | skip here | check here | run here | stale here | blockedOn here | deadlock here
  | hasTasks here | drain here | close here | clearInbox here | cancel here | canceledAll here
  | dropSlot here | shutDown here =>
    obtain ⟨rfl, -⟩ := List.cons.inj (top.symm.trans here)
    cases deep.1

end Executor

end Eneste
