import Eneste.Executor.Turns

/-!
# Batch sizes

A caller splits the queue at points of its choosing, by the counts it passes to
`process_tasks`: the entries of a batch are out of the inbox while they wait for their
turn. `Merged` puts a batch back in front of the inbox. What is left is an executor that
runs its first entry whenever nothing else is running, and has no batches.
-/

namespace Eneste.Executor

open Machine

variable {σ : Type} {e e' m : Executor} {act : Act} {ev : Event}

/-! ### Tasks and their driver -/

/-- A call that tasks make, or a way for them to return, that neither drives the queue nor
panics. -/
def Act.ofTask : Act → Bool
  | .wakeThread _ | .stepThread _ | .processTasks _ | .blockOn | .pollPanic | .advance => false
  | _ => true

/-- The code of the tasks: what the code in a frame does next with the memory that all of it
shares, and what it makes of that memory. -/
structure Program (σ : Type) where
  act : σ → Frame → Act
  next : σ → Frame → σ

/-- The innermost call goes on. -/
def Program.step (P : Program σ) (frame : Frame) (e : Executor) (s : σ) :
    Option ((Executor × σ) × Event) :=
  match frame with
  | .poll _ | .dropFuture _ _ =>
    if (P.act s frame).ofTask then
      (e.step (P.act s frame)).map fun r => ((r.1, P.next s frame), r.2)
    else none
  | _ => (e.step .advance).map fun r => ((r.1, s), r.2)

/-- `process_tasks` is called with the counts, one after the other. -/
def drive (P : Program σ) (e : Executor) (s : σ) (counts : List Nat) :
    Machine ((Executor × σ) × List Nat) Unit Event where
  init x := x = ((e, s), counts)
  step x _ :=
    match x.1.1.stack, x.2 with
    | [], [] => none
    | [], count :: rest =>
      (x.1.1.step (.processTasks count)).map fun r => (((r.1, x.1.2), rest), r.2)
    | frame :: _, rest => (P.step frame x.1.1 x.1.2).map fun r => ((r.1, rest), r.2)

/-- The polls of a run, in order. -/
def began : Event → Option Nat
  | .began id => some id
  | _ => none

/-! ### Without batches -/

/-- The first entry is taken, and its task is run unless it has finished. -/
def takeFirst (e : Executor) : Option (Executor × Event) :=
  match e.inbox with
  | [] => none
  | id :: rest =>
    if e.finished id then some ({ e with inbox := rest }, .quiet)
    else some ({ e with inbox := rest }.run id [] [])

/-- Entries are run from the inbox for as long as there are any. -/
def unbatched (P : Program σ) (e : Executor) (s : σ) : Machine (Executor × σ) Unit Event where
  init x := x = (e.onto [] [] [.process false []], s)
  step x _ :=
    match x.1.stack with
    | [] => none
    | .process _ _ :: _ => x.1.takeFirst.map fun r => ((r.1, x.2), r.2)
    | frame :: _ => P.step frame x.1 x.2

/-- The state with its batch put back. -/
inductive Merged (e : Executor) : Executor → Prop
  | idle (top : e.stack = []) : Merged e (e.onto [] [] [.process false []])
  | busy {frames checked batch} (top : e.stack = frames ++ [.process checked batch])
      (light : ∀ g ∈ frames, g.light = true) (alive : e.executors ≠ 0)
      (ready : checked = true → frames = [] ∧ ∃ id rest, batch = id :: rest ∧
        e.finished id = false) :
      Merged e (e.onto batch frames [.process false []])

theorem Act.ofTask_tame (own : act.ofTask = true) :
    act.drives = false ∧ act ≠ .pollPanic ∧ act.foreign = false := by
  cases act with
  | wakeThread | stepThread | processTasks | blockOn | pollPanic | advance => cases own
  | _ => exact ⟨rfl, nofun, rfl⟩

section

variable {id : Nat} {rest : List Nat}

theorem takeFirst_of_finished (first : e.inbox = id :: rest) (isOver : e.finished id = true) :
    e.takeFirst = some ({ e with inbox := rest }, .quiet) := by
  simp only [takeFirst, first, isOver, ite_true]

theorem takeFirst_of_present (first : e.inbox = id :: rest) (unfinished : e.finished id = false)
    (present : e.slots.get? id = some true) :
    e.takeFirst = some ({ e.dequeue id [] [] with
      inbox := rest
      slots := e.slots.insert id false
      polls := Function.update e.polls id (e.polls id + 1)
      stack := [.poll id, .process false []] }, .began id) := by
  simp only [takeFirst, first, unfinished, run, present, Bool.false_eq_true, ite_false, ite_true]
  rfl

theorem takeFirst_of_absent (first : e.inbox = id :: rest) (unfinished : e.finished id = false)
    (absent : e.slots.get? id ≠ some true) :
    e.takeFirst = some ({ e.dequeue id [] [] with inbox := rest }, .quiet) := by
  simp only [takeFirst, first, unfinished, run, absent, Bool.false_eq_true, ite_false]
  rfl

end

/-- What the code of a task does does not depend on the executor. -/
theorem Program.step_act {P : Program σ} {f : Frame} {s s' : σ}
    (taken : P.step f e s = some ((e', s'), ev))
    (plain : f.borrows = false ∧ ∀ stage, f ≠ .shutdown stage) :
    ∃ act, act.drives = false ∧ act ≠ .pollPanic ∧ act.foreign = false ∧
      e.step act = some (e', ev) ∧
      ∀ m m', m.step act = some (m', ev) → P.step f m s = some ((m', s'), ev) := by
  have of_map : ∀ act next, (e.step act).map (fun r => ((r.1, next), r.2)) = some ((e', s'), ev) →
      e.step act = some (e', ev) ∧ ∀ m m' : Executor, m.step act = some (m', ev) →
        (m.step act).map (fun r => ((r.1, next), r.2)) = some ((m', s'), ev) := by
    intro act next mapped
    obtain ⟨r, stepped, same⟩ := Option.map_eq_some_iff.mp mapped
    cases same
    exact ⟨stepped, fun m m' other => by rw [other]; rfl⟩
  have user : ∀ act next, (if act.ofTask then (e.step act).map fun r => ((r.1, next), r.2)
        else none) = some ((e', s'), ev) →
      act.ofTask = true ∧ (e.step act).map (fun r => ((r.1, next), r.2)) = some ((e', s'), ev) := by
    intro act next taken
    split at taken
    next own => exact ⟨own, taken⟩
    next => cases taken
  cases f with
  | schedule call =>
    obtain ⟨stepped, others⟩ := of_map .advance s taken
    exact ⟨.advance, rfl, nofun, rfl, stepped, others⟩
  | poll id | dropFuture id site =>
    obtain ⟨own, mapped⟩ := user _ _ taken
    obtain ⟨stepped, others⟩ := of_map _ _ mapped
    obtain ⟨tame, calm, home⟩ := Act.ofTask_tame own
    exact ⟨_, tame, calm, home, stepped, fun m m' other => (if_pos own).trans (others m m' other)⟩
  | process | blockOn => cases plain.1
  | shutdown stage => exact absurd rfl (plain.2 stage)

theorem unbatched_step_light {P : Program σ} {e₀ : Executor} {s₀ s : σ} {f : Frame}
    {rest : List Frame} (top : m.stack = f :: rest) (light : f.light = true) :
    (unbatched P e₀ s₀).step (m, s) () = P.step f m s := by
  simp only [unbatched, top]
  cases f with
  | schedule | poll | dropFuture => rfl
  | _ => cases light

theorem unbatched_step_process {P : Program σ} {e₀ : Executor} {s₀ s : σ} {checked : Bool}
    {batch : List Nat} {rest : List Frame} (top : m.stack = .process checked batch :: rest) :
    (unbatched P e₀ s₀).step (m, s) () = m.takeFirst.map fun r => ((r.1, s), r.2) := by
  simp only [unbatched, top]

/-- Nothing is running on top of the batch. -/
theorem Merged.bare {checked : Bool} {batch : List Nat} (top : e.stack = [.process checked batch])
    (alive : e.executors ≠ 0)
    (ready : checked = true → ∃ id rest, batch = id :: rest ∧ e.finished id = false) :
    Merged e (e.onto batch [] [.process false []]) :=
  .busy top nofun alive fun set => ⟨rfl, ready set⟩

/-- `process_tasks` takes the entries of its batch off the front. -/
theorem Merged.process {e₁ : Executor} {count : Nat} (top : e.stack = [])
    (taken : e.step (.processTasks count) = some (e₁, ev)) :
    Merged e₁ (e.onto [] [] [.process false []]) ∧ ev = .quiet := by
  cases step_cases taken with
  | processTasks user alive =>
    have merged := Merged.bare (e := { e with
      inbox := e.inbox.drop (min count e.inbox.length)
      stack := .process false (e.inbox.take (min count e.inbox.length)) :: e.stack })
      (congrArg (List.cons _) top) alive nofun
    simp only [onto, List.take_append_drop, List.nil_append] at merged ⊢
    exact ⟨merged, trivial⟩

/-- A step with batches is one without them, or changes nothing but where the entries are. -/
theorem Merged.step {P : Program σ} {e₀ : Executor} {s₀ s s' : σ} {cs counts counts' : List Nat}
    (merged : Merged e m)
    (taken : (drive P e₀ s₀ cs).step ((e, s), counts) () = some (((e', s'), counts'), ev)) :
    (Merged e' m ∧ s' = s ∧ ev = .quiet) ∨
      ∃ m', (unbatched P e₀ s₀).step (m, s) () = some ((m', s'), ev) ∧ Merged e' m' := by
  cases merged with
  | idle top =>
    cases counts with
    | nil => simp [drive, top] at taken
    | cons count rest =>
      simp only [drive, top, Option.map_eq_some_iff, Prod.mk.injEq] at taken
      obtain ⟨⟨e₁, ev₁⟩, stepped, ⟨⟨rfl, rfl⟩, rfl⟩, rfl⟩ := taken
      obtain ⟨merged, quiet⟩ := Merged.process top stepped
      exact Or.inl ⟨merged, rfl, quiet⟩
  | @busy frames checked batch top light alive ready =>
    cases frames with
    | cons f fs =>
      -- a call of a task goes on, whatever is below it and in the inbox
      simp only [drive, top, List.cons_append, Option.map_eq_some_iff, Prod.mk.injEq] at taken
      obtain ⟨⟨⟨e₁, s₁⟩, ev₁⟩, stepped, ⟨⟨rfl, rfl⟩, rfl⟩, rfl⟩ := taken
      obtain ⟨act, tame, calm, home, stepped, others⟩ :=
        Program.step_act stepped (Frame.plain_of_light (light f List.mem_cons_self))
      obtain ⟨frames, above⟩ := (step_cases stepped).above top light alive rfl tame calm
      have merged := above.same home batch [.process false []] rfl
      have unchecked : checked = true → frames = [] ∧ ∃ id rest, batch = id :: rest ∧
          e'.finished id = false := fun set => absurd (ready set).1 (List.cons_ne_nil f fs)
      refine Or.inr ⟨e'.onto batch frames [.process false []], ?_,
        .busy above.stack above.light above.alive unchecked⟩
      rw [unbatched_step_light rfl (light f List.mem_cons_self)]
      exact others _ _ merged
    | nil =>
      -- the batch itself goes on
      simp only [drive, top, List.nil_append, Program.step, Option.map_eq_some_iff,
        Prod.mk.injEq] at taken
      obtain ⟨⟨⟨e₁, s₁⟩, ev₁⟩, ⟨⟨e₂, ev₂⟩, stepped, ⟨rfl, rfl⟩, rfl⟩, ⟨⟨rfl, rfl⟩, rfl⟩, rfl⟩ :=
        taken
      rw [unbatched_step_process rfl]
      cases step_cases stepped with
      | processed here =>
        cases top.symm.trans here
        exact Or.inl ⟨.idle rfl, rfl, rfl⟩
      | @skip id batch rest here isOver =>
        cases top.symm.trans here
        have first := takeFirst_of_finished (e := e.onto (id :: batch) [] [.process false []])
          rfl isOver
        exact Or.inr ⟨_, congrArg (Option.map _) first, .bare rfl alive nofun⟩
      | @check id batch rest here unfinished =>
        cases top.symm.trans here
        exact Or.inl ⟨.bare rfl alive fun _ => ⟨id, batch, rfl, unfinished⟩, rfl, rfl⟩
      | @run id batch rest here present =>
        cases top.symm.trans here
        obtain ⟨-, _, _, same, unfinished⟩ := ready rfl
        cases same
        have first := takeFirst_of_present (e := e.onto (id :: batch) [] [.process false []])
          rfl unfinished present
        have light : ∀ g ∈ [Frame.poll id], g.light = true := by simp [Frame.light]
        exact Or.inr ⟨_, congrArg (Option.map _) first, .busy rfl light alive nofun⟩
      | @stale id batch rest here absent =>
        cases top.symm.trans here
        obtain ⟨-, _, _, same, unfinished⟩ := ready rfl
        cases same
        have first := takeFirst_of_absent (e := e.onto (id :: batch) [] [.process false []])
          rfl unfinished absent
        exact Or.inr ⟨_, congrArg (Option.map _) first, .bare rfl alive nofun⟩
      | schedule here | blockedOn here | deadlock here | hasTasks here | drain here | close here
      | clearInbox here | cancel here | canceledAll here | dropSlot here | shutDown here =>
        cases top.symm.trans here

/-! ### Two sequences of counts -/

variable {P : Program σ} {e₀ : Executor} {s₀ : σ} {counts counts' : List Nat}
  {ts us : List (Transition ((Executor × σ) × List Nat) Unit Event)}
  {x y : (Executor × σ) × List Nat}

/-- What a run with batches polls, one without them polls. -/
theorem unbatched_of_drive (idle : e₀.stack = []) (run : (drive P e₀ s₀ counts).Run ts x) :
    ∃ vs u, (unbatched P e₀ s₀).Run vs u ∧
      vs.filterMap (fun t => began t.out) = ts.filterMap (fun t => began t.out) := by
  have shown : ∃ vs u, (unbatched P e₀ s₀).Run vs u ∧ (Merged x.1.1 u.1 ∧ u.2 = x.1.2) ∧
      vs.filterMap (fun t => began t.out) = ts.filterMap (fun t => began t.out) := by
    apply run.observed fun x (u : Executor × σ) => Merged x.1.1 u.1 ∧ u.2 = x.1.2
    · intro x starts
      cases starts
      exact ⟨_, rfl, .idle idle, rfl⟩
    · rintro ⟨⟨e, s⟩, counts⟩ ⟨m, r⟩ ⟨⟩ ⟨⟨e', s'⟩, counts'⟩ ev ⟨merged, same⟩ taken
      cases same
      rcases merged.step taken with ⟨merged, rfl, rfl⟩ | ⟨m', step, merged⟩
      · exact Or.inl ⟨⟨merged, rfl⟩, rfl⟩
      · exact Or.inr ⟨(), (m', s'), ev, step, ⟨merged, rfl⟩, rfl⟩
  obtain ⟨vs, u, run, -, same⟩ := shown
  exact ⟨vs, u, run, same⟩

/-- The counts decide how far a run gets, not what it polls. -/
theorem polls_comparable (idle : e₀.stack = []) (run : (drive P e₀ s₀ counts).Run ts x)
    (run' : (drive P e₀ s₀ counts').Run us y) :
    ts.filterMap (fun t => began t.out) <+: us.filterMap (fun t => began t.out) ∨
      us.filterMap (fun t => began t.out) <+: ts.filterMap (fun t => began t.out) := by
  obtain ⟨vs, u, first, same⟩ := unbatched_of_drive idle run
  obtain ⟨ws, w, second, same'⟩ := unbatched_of_drive idle run'
  have single : ∀ u w, (unbatched P e₀ s₀).init u → (unbatched P e₀ s₀).init w → u = w :=
    fun _ _ one other => one.trans other.symm
  rw [← same, ← same']
  exact (first.prefix_or_prefix single second).imp (fun short => short.filterMap _)
    fun short => short.filterMap _

theorem Program.step_orderly {f : Frame} {s s' : σ} (taken : P.step f e s = some ((e', s'), ev)) :
    ∃ act, orderly.step e act = some (e', ev) := by
  cases f with
  | schedule | poll | dropFuture =>
    obtain ⟨act, tame, calm, -, stepped, -⟩ := Program.step_act taken ⟨rfl, nofun⟩
    refine ⟨act, ?_⟩
    cases act with
    | processTasks | blockOn => cases tame
    | pollPanic => exact absurd rfl calm
    | _ => exact stepped
  | _ =>
    -- the executor's own code
    obtain ⟨r, stepped, same⟩ := Option.map_eq_some_iff.mp taken
    cases same
    exact ⟨.advance, stepped⟩

/-- `process_tasks` is called from outside the tasks here, so it finds none being polled. -/
theorem orderly_of_drive {before : List (Transition Executor Act Event)}
    (prior : orderly.Run before e₀) (run : (drive P e₀ s₀ counts).Run ts x) :
    ∃ later, orderly.Run (before ++ later) x.1.1 ∧
      later.filterMap (fun t => began t.out) = ts.filterMap (fun t => began t.out) := by
  induction run with
  | start starts =>
    cases starts
    exact ⟨[], by simpa using prior, rfl⟩
  | @next ts x u x' ev _ taken ih =>
    obtain ⟨later, run, same⟩ := ih
    have stepped : ∃ act, orderly.step x.1.1 act = some (x'.1.1, ev) := by
      obtain ⟨⟨e, s⟩, counts⟩ := x
      simp only [drive] at taken
      split at taken
      next => cases taken
      next count rest top _ =>
        obtain ⟨r, stepped, same⟩ := Option.map_eq_some_iff.mp taken
        cases same
        have outside : (!e.stack.any Frame.isPoll) = true := by
          rw [show e.stack = [] from top]
          rfl
        exact ⟨.processTasks count, (if_pos outside).trans stepped⟩
      next =>
        obtain ⟨⟨⟨e₁, s₁⟩, ev₁⟩, stepped, same⟩ := Option.map_eq_some_iff.mp taken
        cases same
        exact Program.step_orderly stepped
    obtain ⟨act, stepped⟩ := stepped
    have extended := run.next stepped
    rw [List.append_assoc] at extended
    exact ⟨_, extended, by simp [same, List.filterMap_cons]⟩

/-- One call takes the first entries in turn and leaves the others before the new ones;
how the entries were split among calls does not show in the polls; and whoever calls
`process_tasks` so is one of the callers that the first part speaks of. -/
theorem fifo_whatever_the_batches :
    (∀ {before later : List (Transition Executor Act Event)} {t : Transition Executor Act Event}
      {e : Executor} {n : Nat} {base : List Frame}, orderly.Run (before ++ t :: later) e →
      Drains t n base →
      (∀ u ∈ later, u.act.drives = false ∧ base.length < u.before.stack.length) →
      e.stack = base → FifoCall t later e n) ∧
    (∀ {σ : Type} {P : Program σ} {e₀ : Executor} {s₀ : σ} {counts counts' : List Nat}
      {ts us : List (Transition ((Executor × σ) × List Nat) Unit Event)}
      {x y : (Executor × σ) × List Nat}, e₀.stack = [] → (drive P e₀ s₀ counts).Run ts x →
      (drive P e₀ s₀ counts').Run us y →
      ts.filterMap (fun t => began t.out) <+: us.filterMap (fun t => began t.out) ∨
        us.filterMap (fun t => began t.out) <+: ts.filterMap (fun t => began t.out)) ∧
    ∀ {σ : Type} {P : Program σ} {e₀ : Executor} {s₀ : σ} {counts : List Nat}
      {ts : List (Transition ((Executor × σ) × List Nat) Unit Event)}
      {x : (Executor × σ) × List Nat} {before : List (Transition Executor Act Event)},
      orderly.Run before e₀ → (drive P e₀ s₀ counts).Run ts x →
      ∃ later, orderly.Run (before ++ later) x.1.1 ∧
        later.filterMap (fun t => began t.out) = ts.filterMap (fun t => began t.out) :=
  ⟨fifoCall_of_run, polls_comparable, orderly_of_drive⟩

/-- The code of tasks that wake themselves and yield, for ever. -/
def yielding : Program Bool where
  act woken
    | .poll id => if woken then .pollPending else .wake id
    | _ => .dropReturn
  next woken
    | .poll _ => !woken
    | _ => woken

/-- The first of two tasks wakes itself and cancels the other; and two that yield are
polled in turn, one or two at a time. -/
theorem round_robin_whatever_the_batches :
    (∃ before, ∃ t : Transition Executor Act Event, ∃ later e,
      orderly.Run (before ++ t :: later) e ∧
      before.map Transition.act = [.spawn, .advance, .advance, .advance, .advance, .advance,
        .spawn, .advance, .advance, .advance, .advance, .advance] ∧
      t.act = .processTasks 5 ∧
      later.map Transition.act = [.advance, .advance, .wake 0, .advance, .advance, .advance,
        .advance, .advance, .dropHandle 1, .dropReturn, .pollPending, .advance, .advance] ∧
      t.before.inbox = [0, 1] ∧ FifoCall t later e 2 ∧ e.inbox = [0]) ∧
    ∃ before e₀, orderly.Run before e₀ ∧ e₀.inbox = [0, 1] ∧ ∃ ts us x y,
      (drive yielding e₀ false [1, 1, 1]).Run ts x ∧ (drive yielding e₀ false [2, 2]).Run us y ∧
      ts.filterMap (fun t => began t.out) = [0, 1, 0] ∧
      us.filterMap (fun t => began t.out) = [0, 1, 0, 1] ∧
      (∃ later, orderly.Run (before ++ later) x.1.1 ∧
        later.filterMap (fun t => began t.out) = ts.filterMap (fun t => began t.out)) ∧
      (ts.filterMap (fun t => began t.out) <+: us.filterMap (fun t => began t.out) ∨
        us.filterMap (fun t => began t.out) <+: ts.filterMap (fun t => began t.out)) := by
  constructor
  · obtain ⟨before, t, later, e, run, first, calls, rest, both, whole, top, inside, idle, left⟩ :=
      Machine.exists_run_at (m := orderly)
        (P := fun _ t later e => t.before.inbox = [0, 1] ∧ min 5 t.before.inbox.length = 2 ∧
          t.before.stack.isEmpty = true ∧
          (∀ u ∈ later, u.act.drives = false ∧ 0 < u.before.stack.length) ∧
          e.stack.isEmpty = true ∧ e.inbox = [0])
        [.spawn, .advance, .advance, .advance, .advance, .advance,
          .spawn, .advance, .advance, .advance, .advance, .advance]
        (.processTasks 5) [.advance, .advance, .wake 0, .advance, .advance, .advance,
          .advance, .advance, .dropHandle 1, .dropReturn, .pollPending, .advance, .advance]
        rfl (by decide)
    have drains := Drains.call calls
    rw [whole, List.isEmpty_iff.mp top] at drains
    refine ⟨before, t, later, e, run, first, calls, rest, both, ?_, left⟩
    exact fifo_whatever_the_batches.1 run drains inside (List.isEmpty_iff.mp idle)
  · obtain ⟨before, e₀, run, -, two, idle, one, many⟩ := Machine.exists_run (m := orderly)
      (P := fun _ e₀ => e₀.inbox = [0, 1] ∧ e₀.stack.isEmpty = true ∧
        (∃ out ∈ (drive yielding e₀ false [1, 1, 1]).exec ((e₀, false), [1, 1, 1])
          (List.replicate 33 ()), out.1.filterMap (fun t => began t.out) = [0, 1, 0]) ∧
        ∃ out ∈ (drive yielding e₀ false [2, 2]).exec ((e₀, false), [2, 2])
          (List.replicate 40 ()), out.1.filterMap (fun t => began t.out) = [0, 1, 0, 1])
      [.spawn, .advance, .advance, .advance, .advance, .advance,
        .spawn, .advance, .advance, .advance, .advance, .advance] rfl (by decide)
    obtain ⟨ts, x, first, -, polls⟩ := Machine.exists_run (m := drive yielding e₀ false [1, 1, 1])
      (P := fun ts _ => ts.filterMap (fun t => began t.out) = [0, 1, 0]) _ rfl one
    obtain ⟨us, y, second, -, more⟩ := Machine.exists_run (m := drive yielding e₀ false [2, 2])
      (P := fun us _ => us.filterMap (fun t => began t.out) = [0, 1, 0, 1]) _ rfl many
    refine ⟨before, e₀, run, two, ts, us, x, y, first, second, polls, more, ?_, ?_⟩
    · exact fifo_whatever_the_batches.2.2 run first
    · exact fifo_whatever_the_batches.2.1 (List.isEmpty_iff.mp idle) first second

end Eneste.Executor
