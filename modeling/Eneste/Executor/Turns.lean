import Eneste.Executor.Above
import Eneste.Executor.Wakes

/-!
# The turns of a call

One call of `process_tasks` drains entries from the front of the inbox and takes them in
order, whatever the tasks schedule, spawn and cancel meanwhile, as long as they do not
call `process_tasks` themselves.
-/

namespace Eneste

/-- The entry that the next operation of the call pushes. -/
def Call.entry (call : Call) : Option Nat := if call.pc = .push then some call.id else none

namespace Executor

open Header Machine

variable {e e' : Executor} {act : Act} {ev : Event}

/-! ### Turns and entries -/

/-- The entry whose turn the step takes: it is passed over, or its task is run. -/
def turn (t : Transition Executor Act Event) : Option Nat :=
  match t.act, t.before.stack with
  | .advance, .process false (id :: _) :: _ => if t.before.finished id then some id else none
  | .advance, .process true (id :: _) :: _ => some id
  | _, _ => none

/-- The entry that the step pushes. -/
def entered (t : Transition Executor Act Event) : Option Nat :=
  match t.act, t.before.stack with
  | .advance, .schedule call :: _ => call.entry
  | .stepThread index, _ => t.before.threads[index]?.bind Call.entry
  | _, _ => none

theorem Scheduled.entry {call : Call} {next : Option Call} (done : Scheduled e call e' next) :
    e'.inbox = e.inbox ++ call.entry.toList := by
  cases done with
  | pushed here => simp [Call.entry, here]
  | finished here | loaded here | closed here | opened here | already here | won here
  | notified here => simp [Call.entry, here, logCall, enqueue]

/-- While a call of `process_tasks` goes on, entries are only added at the end. -/
theorem Moves.inbox {top : Frame} {rest : List Frame} (moved : Moves e act e' ev)
    (here : e.stack = top :: rest)
    (inside : top.light = true ∨ ∃ checked batch, top = .process checked batch)
    (tame : act.drives = false) :
    e'.inbox = e.inbox ++ (Executor.entered ⟨e, act, ev, e'⟩).toList := by
  cases moved with
  | processTasks | blockOn => cases tame
  | @stepThread index call found =>
    have pushed := (Executor.scheduled e call).entry
    simpa [Executor.entered, found] using pushed
  | @schedule call rest top =>
    have pushed := (Executor.scheduled e call).entry
    simpa [Executor.entered, top] using pushed
  | drain top | clearInbox top =>
    obtain ⟨rfl, -⟩ := List.cons.inj (here.symm.trans top)
    rcases inside with light | ⟨_, _, process⟩
    · cases light
    · cases process
  | processed top | skip top | check top | run top | stale top | blockedOn top | deadlock top
  | hasTasks top | close top | cancel top | canceledAll top | dropSlot top | shutDown top =>
    simp [Executor.entered, top, dequeue, dropFuture]
  | _ => exact (List.append_nil _).symm

theorem turn_of_light {t : Transition Executor Act Event} {f : Frame} {rest : List Frame}
    (top : t.before.stack = f :: rest) (light : f.light = true) : turn t = none := by
  unfold turn
  rw [top]
  cases f with
  | schedule | poll | dropFuture => cases t.act <;> rfl
  | _ => cases light

/-! ### One call of `process_tasks` -/

/-- The call on top of `base` has taken `handled` of the entries it drained, and goes on with
calls of tasks above it; or it has returned, having taken all of them. -/
def Serving (base : List Frame) (drained handled : List Nat) (e : Executor) : Prop :=
  (∃ frames checked batch, (∀ g ∈ frames, g.light = true) ∧
    e.stack = frames ++ .process checked batch :: base ∧ handled ++ batch = drained) ∨
  e.stack = base ∧ handled = drained

theorem Serving.moves {base : List Frame} {drained handled : List Nat}
    (serving : Serving base drained handled e) (inside : base.length < e.stack.length)
    (moved : Moves e act e' ev) (alive : e.executors ≠ 0) (tame : act.drives = false)
    (calm : act ≠ .pollPanic) :
    Serving base drained (handled ++ (turn ⟨e, act, ev, e'⟩).toList) e' := by
  rcases serving with ⟨frames, checked, batch, light, top, split⟩ | ⟨top, -⟩
  · cases frames with
    | cons f fs =>
      obtain ⟨frames, above⟩ := moved.above top light alive (by simp [Frame.borrows]) tame calm
      have none := turn_of_light (t := ⟨e, act, ev, e'⟩) top (light f (by simp))
      rw [none, Option.toList_none, List.append_nil]
      exact Or.inl ⟨frames, checked, batch, above.light, above.stack, split⟩
    | nil =>
      rw [List.nil_append] at top
      have busy : e.userMode = false := by simp [userMode, top]
      cases moved with
      | pollPanic => exact absurd rfl calm
      | processTasks | blockOn => cases tame
      | wakeThread => exact Or.inl ⟨[], checked, batch, light, top, by simpa [turn] using split⟩
      | @stepThread index call found =>
        have same := (Executor.scheduled e call).untouched
        exact Or.inl ⟨[], checked, batch, light, same.stack.trans top, by simpa [turn] using split⟩
      | spawn user | wake user | dropFinished user | dropPolled user | dropPending user
      | detach user | cloneExecutor user | dropExecutor user =>
        exact Bool.noConfusion (busy.symm.trans user)
      | pollReady here | pollPending here | pollCanceled here | unwinds here | dropReturn here
      | dropHandleReturn here | schedule here | blockedOn here | deadlock here | hasTasks here
      | drain here | close here | clearInbox here | cancel here | canceledAll here | dropSlot here
      | shutDown here => cases top.symm.trans here
      | processed here =>
        cases top.symm.trans here
        exact Or.inr ⟨rfl, by simpa [turn, top] using split⟩
      | @skip id batch rest here isOver =>
        cases top.symm.trans here
        exact Or.inl ⟨[], false, batch, light, rfl, by simpa [turn, top, isOver] using split⟩
      | @check id batch rest here unfinished =>
        cases top.symm.trans here
        exact Or.inl ⟨[], true, id :: batch, light, rfl,
          by simpa [turn, top, unfinished] using split⟩
      | @run id batch rest here present =>
        cases top.symm.trans here
        refine Or.inl ⟨[.poll id], false, batch, ?_, rfl, by simpa [turn, top] using split⟩
        simp [Frame.light]
      | @stale id batch rest here absent =>
        cases top.symm.trans here
        exact Or.inl ⟨[], false, batch, light, rfl, by simpa [turn, top] using split⟩
  · rw [top] at inside
    exact absurd inside (lt_irrefl _)

/-- The step calls `process_tasks`, which drains `n` entries and is to return to `base`. -/
inductive Drains (t : Transition Executor Act Event) : Nat → List Frame → Prop
  | call {count} (act : t.act = .processTasks count) :
      Drains t (min count t.before.inbox.length) t.before.stack
  | blockOn {id rest} (act : t.act = .advance) (top : t.before.stack = .blockOn id true :: rest) :
      Drains t t.before.inbox.length (.blockOn id false :: rest)

variable {before later : List (Transition Executor Act Event)}
  {t : Transition Executor Act Event} {n : Nat} {base : List Frame}

theorem Drains.after (drains : Drains t n base)
    (taken : machine.step t.before t.act = some (t.after, t.out)) :
    t.after.stack = .process false (t.before.inbox.take n) :: base ∧
      t.after.inbox = t.before.inbox.drop n := by
  generalize t.after = after at taken
  cases drains with
  | call act =>
    simp only [act, machine, step] at taken
    split at taken
    · simp only [Option.some.injEq, Prod.mk.injEq] at taken
      obtain ⟨rfl, -⟩ := taken
      exact ⟨rfl, rfl⟩
    · cases taken
  | blockOn act top =>
    simp only [act, machine, step, advance, top, Option.some.injEq, Prod.mk.injEq] at taken
    obtain ⟨rfl, -⟩ := taken
    simp

/-- What the call has done by any later step, and what it leaves in the inbox. -/
theorem serving_since (run : orderly.Run (before ++ t :: later) e) (drains : Drains t n base)
    (inside : ∀ u ∈ later, u.act.drives = false ∧ base.length < u.before.stack.length) :
    Serving base (t.before.inbox.take n) (later.filterMap turn) e ∧
      e.inbox = t.before.inbox.drop n ++ later.filterMap entered := by
  refine run.since (P := fun us e =>
    (∀ u ∈ us, u.act.drives = false ∧ base.length < u.before.stack.length) →
      Serving base (t.before.inbox.take n) (us.filterMap turn) e ∧
        e.inbox = t.before.inbox.drop n ++ us.filterMap entered) ?_ ?_ inside
  · intro prior taken _
    obtain ⟨stack, inbox⟩ := drains.after (Machine.restrict_step taken).2
    refine ⟨Or.inl ⟨[], false, t.before.inbox.take n, nofun, stack, rfl⟩, ?_⟩
    rw [inbox]
    exact (List.append_nil _).symm
  · intro us u prior before taken inside
    have here := inside u (by simp)
    obtain ⟨serving, inbox⟩ := before fun v member => inside v (by simp [member])
    obtain ⟨moved, calm, -⟩ := orderly_step taken
    obtain ⟨frames, checked, batch, light, top, split⟩ := serving.resolve_right fun returned => by
      rw [returned.1] at here
      exact lt_irrefl _ here.2
    have alive := (nested_of_run prior.of_restrict).borrowed (.process checked batch)
      (by rw [top]; exact List.mem_append_right _ List.mem_cons_self) rfl
    have pushed : u.after.inbox = u.before.inbox ++ (entered u).toList := by
      cases frames with
      | nil => exact moved.inbox top (Or.inr ⟨checked, batch, rfl⟩) here.1
      | cons f fs => exact moved.inbox top (Or.inl (light f (by simp))) here.1
    have served := serving.moves here.2 moved alive here.1 calm
    simp only [List.filterMap_append, ← List.append_assoc, ← inbox]
    constructor
    · cases taken : turn u <;> simpa [taken] using served
    · cases came : entered u <;> simp [pushed, came]

/-! ### Every entry in its turn -/

theorem turn_eq_some {id : Nat} (took : turn t = some id) : t.act = .advance ∧
    ((∃ batch rest, t.before.stack = .process false (id :: batch) :: rest ∧
      t.before.finished id = true) ∨
    ∃ batch rest, t.before.stack = .process true (id :: batch) :: rest) := by
  unfold turn at took
  split at took
  next other batch rest act top =>
    split at took
    next isOver =>
      cases took
      exact ⟨act, Or.inl ⟨batch, rest, top, isOver⟩⟩
    next => cases took
  next other batch rest act top =>
    cases took
    exact ⟨act, Or.inr ⟨batch, rest, top⟩⟩
  next => cases took

/-- In its turn a task is polled unless it has finished. -/
theorem began_iff_of_turn {id : Nat} (placed : Placed t.before) (timely : NoneStale t.before)
    (taken : machine.step t.before t.act = some (t.after, t.out)) (took : turn t = some id) :
    t.out = .began id ↔ t.before.finished id = false := by
  obtain ⟨act, ⟨batch, rest, top, isOver⟩ | ⟨batch, rest, top⟩⟩ := turn_eq_some took
  · simp only [act, machine, step, advance, top, isOver, ite_true, Option.some.injEq,
      Prod.mk.injEq] at taken
    simp [← taken.2, isOver]
  · simp only [act, machine, step, advance, top, run, Option.some.injEq] at taken
    split at taken
    next present =>
      have began := (Prod.mk.inj taken).2
      exact iff_of_true began.symm (placed.unfinished id true present)
    next absent =>
      have silent := (Prod.mk.inj taken).2
      apply iff_of_false (by simp [← silent])
      intro unfinished
      exact absent (timely id batch rest top unfinished)

theorem Moves.turn_of_began {id : Nat} (moved : Moves e act e' ev) (began : ev = .began id) :
    turn ⟨e, act, ev, e'⟩ = some id := by
  cases moved with
  | run top =>
    cases began
    simp [turn, top]
  | _ => cases began

/-- A task that has finished is finished in every later state. -/
theorem finished_since (run : machine.Run (before ++ t :: later) e) {id : Nat}
    (known : id < t.before.nextId) (isOver : t.before.finished id = true) :
    e.finished id = true := by
  have kept : id < e.nextId ∧ e.finished id = true := by
    apply run.since (P := fun _ e => id < e.nextId ∧ e.finished id = true)
    · intro _ taken
      have moved := step_cases taken
      exact ⟨known.trans_le moved.nextId, moved.finished known isOver⟩
    · rintro _ _ _ ⟨known, isOver⟩ taken
      have moved := step_cases taken
      exact ⟨known.trans_le moved.nextId, moved.finished known isOver⟩
  exact kept.2

/-- An unfinished task has one entry at most. -/
theorem entry_once (tokens : TokenInv e) (alive : e.closed = false) {id : Nat}
    (unfinished : e.finished id = false) : e.inbox.count id ≤ 1 := by
  have even := tokens.balanced alive id unfinished
  have bit := Bool.toNat_le (e.isQueued id)
  unfold Executor.tokens owed at even
  omega

/-- What one call of `process_tasks` that drains `n` entries does. -/
structure FifoCall (t : Transition Executor Act Event)
    (later : List (Transition Executor Act Event)) (e : Executor) (n : Nat) : Prop where
  removed : t.after.inbox = t.before.inbox.drop n
  handled : later.filterMap turn = t.before.inbox.take n
  polled : ∀ u ∈ later, ∀ id, turn u = some id →
    (u.out = .began id ↔ u.before.finished id = false)
  only : ∀ u ∈ later, ∀ id, u.out = .began id → turn u = some id
  once : ∀ id, (later.countP fun u => decide (u.out = .began id)) ≤ 1
  left : e.inbox = t.before.inbox.drop n ++ later.filterMap entered

theorem fifoCall_of_run (run : orderly.Run (before ++ t :: later) e) (drains : Drains t n base)
    (inside : ∀ u ∈ later, u.act.drives = false ∧ base.length < u.before.stack.length)
    (returned : e.stack = base) : FifoCall t later e n := by
  obtain ⟨prior, entering, -⟩ := run.upTo.of_append
  have all := prior.of_restrict
  obtain ⟨legal, entering⟩ := Machine.restrict_step entering
  obtain ⟨stack, removed⟩ := drains.after entering
  obtain ⟨serving, left⟩ := serving_since run drains inside
  have handled : later.filterMap turn = t.before.inbox.take n := by
    refine (serving.resolve_left ?_).2
    rintro ⟨frames, checked, batch, -, top, -⟩
    have lengths := congrArg List.length (returned.symm.trans top)
    simp only [List.length_append, List.length_cons] at lengths
    omega
  have steps : ∀ u ∈ later, (∃ ts, orderly.Run ts u.before) ∧
      machine.step u.before u.act = some (u.after, u.out) := by
    intro u member
    obtain ⟨earlier, stepped⟩ := run.step_of_mem (List.mem_append_right _ (.tail _ member))
    exact ⟨earlier, (Machine.restrict_step stepped).2⟩
  have polled : ∀ u ∈ later, ∀ id, turn u = some id →
      (u.out = .began id ↔ u.before.finished id = false) := by
    intro u member id took
    obtain ⟨⟨ts, before⟩, taken⟩ := steps u member
    have timely := noneStale (tokenInv_of_run before.of_restrict) (placed_of_run before.of_restrict)
      (taken_of_run (fun _ => rfl) before) (flat_of_run before).1
    exact began_iff_of_turn (placed_of_run before.of_restrict) timely taken took
  have only : ∀ u ∈ later, ∀ id, u.out = .began id → turn u = some id :=
    fun u member id began => (step_cases (steps u member).2).turn_of_began began
  refine ⟨removed, handled, polled, only, fun id => ?_, left⟩
  -- each poll takes a turn, so there are no more polls than entries
  have most : (later.countP fun u => decide (u.out = .began id)) ≤ t.before.inbox.count id := by
    have turns : (later.countP fun u => decide (u.out = .began id)) ≤
        (later.filterMap turn).count id := by
      rw [List.count, List.countP_filterMap]
      apply List.countP_mono_left
      intro u member began
      simp [only u member id (by simpa using began)]
    rw [handled] at turns
    exact turns.trans ((List.take_sublist n _).count_le id)
  by_cases none : ∀ u ∈ later, u.out ≠ .began id
  · rw [List.countP_eq_zero.mpr fun u member => by simpa using none u member]
    exact Nat.zero_le 1
  · push Not at none
    obtain ⟨u, member, began⟩ := none
    have some : 0 < later.countP fun u => decide (u.out = .began id) :=
      List.countP_pos_iff.mpr ⟨u, member, decide_eq_true began⟩
    have unfinished := (polled u member id (only u member id began)).mp began
    obtain ⟨mid, others, rfl⟩ := List.append_of_mem member
    have tokens := tokenInv_of_run all
    have known : id < t.before.nextId := by
      by_contra unused
      have fresh := tokens.fresh id (Nat.not_lt.mp unused)
      unfold Executor.tokens at fresh
      omega
    rw [← List.cons_append, ← List.append_assoc] at run
    have early := run.upTo.of_append.1.of_restrict
    refine most.trans (entry_once tokens ?_ ?_)
    · have after := nested_of_run (all.next entering)
      have alive := after.borrowed _ (by rw [stack]; exact List.mem_cons_self) rfl
      exact (step_cases entering).closed (after.alive alive).1
    · exact Bool.eq_false_iff.mpr fun isOver =>
        Bool.noConfusion (unfinished.symm.trans (finished_since early known isOver))

end Executor

end Eneste
