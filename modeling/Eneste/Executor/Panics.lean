import Eneste.Executor.Places
import Eneste.Executor.Tokens

/-!
# Polls that panic

`process_tasks` keeps the entries it has drained in a local vector. If a poll panics,
unwinding drops the future in `run` and then the rest of the entries; the `QUEUED` flags they
stand for stay set. Until its destructor returns, the future may still cancel their tasks.
-/

namespace Eneste.Executor

/-- Unfinished and queued with no entry anywhere, nor a scheduler that is about to push
one. -/
structure Stranded (e : Executor) (id : Nat) : Prop where
  unfinished : e.finished id = false
  queued : e.isQueued id = true
  nowhere : e.tokens id = 0

/-- While the executor lives, every unfinished task that is queued has its entry. -/
def NoneStranded (e : Executor) : Prop := e.closed = false → ∀ id, ¬ Stranded e id

/-- The step unwinds a `process_tasks` that has yet to run an unfinished task: the
destructor of the future whose poll has panicked returns. -/
def strands (e : Executor) (act : Act) : Bool :=
  match act, e.stack with
  | .dropReturn, .dropFuture _ .unwound :: .process _ batch :: _ =>
    batch.any fun id => !e.finished id
  | _, _ => false

variable {e e' : Executor} {act : Act} {ev : Event}

/-- The stranded tasks are those whose entries were dropped. -/
theorem TokenInv.stranded_iff (inv : TokenInv e) (alive : e.closed = false) (id : Nat) :
    Stranded e id ↔ e.finished id = false ∧ id ∈ e.lost := by
  constructor
  · rintro ⟨unfinished, queued, nowhere⟩
    have even := inv.balanced alive id unfinished
    rw [owed, queued, nowhere, Nat.zero_add, Bool.toNat_true] at even
    exact ⟨unfinished, List.count_pos_iff.mp (by omega)⟩
  · rintro ⟨unfinished, dropped⟩
    -- the flag owes a single token, and that one was dropped
    have even := inv.balanced alive id unfinished
    have most := Bool.toNat_le (e.isQueued id)
    have one := List.count_pos_iff.mpr dropped
    unfold owed at even
    refine ⟨unfinished, ?_, by omega⟩
    cases queued : e.isQueued id with
    | true => rfl
    | false =>
      rw [queued, Bool.toNat_false] at even
      omega

theorem TokenInv.noneStranded_iff (inv : TokenInv e) :
    NoneStranded e ↔ (e.closed = false → ∀ id ∈ e.lost, e.finished id = true) := by
  refine forall_congr' fun alive => forall_congr' fun id => ?_
  rw [inv.stranded_iff alive]
  cases e.finished id <;> simp

/-! ### Unwinding -/

theorem Unwinding.alive {batch : List Nat} (unwinding : Unwinding e batch)
    (nested : Nested e.closed e.executors e.stack) : e.closed = false := by
  obtain ⟨id, checked, rest, top⟩ := unwinding
  exact (nested.alive (nested.borrowed (.process checked batch) (by simp [top]) rfl)).1

/-- What unwinding a `process_tasks` does to the flags and entries. -/
theorem Moves.unwinding {batch : List Nat} (moved : Moves e .dropReturn e' ev)
    (unwinding : Unwinding e batch) :
    e'.lost = e.lost ++ batch ∧ e'.closed = e.closed ∧ e'.finished = e.finished := by
  obtain ⟨id, checked, rest, top⟩ := unwinding
  cases moved with
  | unwinds here =>
    cases top.symm.trans here
    exact ⟨rfl, rfl, rfl⟩
  | dropReturn here other plain =>
    cases top.symm.trans here
    exact absurd rfl (plain rfl checked batch rest)
  | dropHandleReturn here => cases top.symm.trans here

/-- It strands the unfinished tasks of the rest of the batch. -/
theorem stranded_of_unwinding {batch : List Nat} (inv : TokenInv e) (after : TokenInv e')
    (nested : Nested e.closed e.executors e.stack) (unwinding : Unwinding e batch)
    (moved : Moves e .dropReturn e' ev) (j : Nat) :
    Stranded e' j ↔ Stranded e j ∨ e.finished j = false ∧ j ∈ batch := by
  obtain ⟨lost, closed, finished⟩ := moved.unwinding unwinding
  have alive := unwinding.alive nested
  rw [after.stranded_iff (closed.trans alive), inv.stranded_iff alive, lost, finished,
    List.mem_append, and_or_left]

/-- The panic itself strands nobody: `process_tasks` still has its batch. -/
theorem stranded_of_panic (inv : TokenInv e) (after : TokenInv e')
    (nested : Nested e.closed e.executors e.stack) (moved : Moves e .pollPanic e' ev) (j : Nat) :
    Stranded e' j ↔ Stranded e j := by
  cases moved with
  | @pollPanic id checked batch rest top =>
    have alive := (nested.open_of_poll (show .poll id ∈ e.stack by simp [top])).1
    rw [after.stranded_iff alive, inv.stranded_iff alive]
    rfl

theorem strands_iff : e.strands act = true ↔
    act = .dropReturn ∧ ∃ batch, Unwinding e batch ∧ ∃ id ∈ batch, e.finished id = false := by
  constructor
  · intro strands
    unfold Executor.strands at strands
    split at strands
    next id checked batch rest top =>
      exact ⟨rfl, batch, ⟨id, checked, rest, top⟩, by simpa using strands⟩
    next => cases strands
  · rintro ⟨rfl, batch, ⟨id, checked, rest, top⟩, left⟩
    simpa [Executor.strands, top] using left

/-- One step leaves nobody stranded exactly if it does not unwind such a `process_tasks`. -/
theorem NoneStranded.step_iff (inv : TokenInv e) (after : TokenInv e')
    (nested : Nested e.closed e.executors e.stack) (safe : NoneStranded e)
    (moved : Moves e act e' ev) : NoneStranded e' ↔ e.strands act = false := by
  rw [Bool.eq_false_iff, Ne, strands_iff]
  constructor
  · rintro safe' ⟨rfl, batch, unwinding, id, member, unfinished⟩
    have alive := unwinding.alive nested
    exact safe' ((moved.unwinding unwinding).2.1.trans alive) id
      ((stranded_of_unwinding inv after nested unwinding moved id).mpr
        (Or.inr ⟨unfinished, member⟩))
  · intro spared
    refine after.noneStranded_iff.mpr fun alive' id dropped => ?_
    have alive := moved.closed alive'
    have before := inv.noneStranded_iff.mp safe alive
    -- a task whose entry was dropped before has finished, and stays finished
    have stays : id ∈ e.lost → e'.finished id = true := by
      intro old
      have known : id < e.nextId := by
        by_contra unused
        have none := inv.fresh id (by omega)
        have one := List.count_pos_iff.mpr old
        omega
      exact moved.finished known (before id old)
    rcases moved.lost with same | ⟨rfl, batch, unwinding⟩
    · exact stays (same ▸ dropped)
    · obtain ⟨lost, -, finished⟩ := moved.unwinding unwinding
      rw [lost] at dropped
      rcases List.mem_append.mp dropped with old | new
      · exact stays old
      · rw [finished]
        by_contra unfinished
        exact spared ⟨rfl, batch, unwinding, id, new, by simpa using unfinished⟩

/-- Queued tasks keep their entries exactly as long as no panic unwinds a `process_tasks`
with an unfinished task left in its batch; the future of the task that panicked is dropped
before, and the unwinding strands just those tasks. When nothing is running, a task that is
not stranded is in the inbox or can be queued again. -/
theorem panics_strand_iff {ts : List (Machine.Transition Executor Act Event)}
    (run : machine.Run ts e) :
    ((NoneStranded e ∧ ∀ t ∈ ts, NoneStranded t.before) ↔
      ∀ t ∈ ts, t.before.strands t.act = false) ∧
    (∀ t ∈ ts, t.act = .pollPanic → (∀ j, Stranded t.after j ↔ Stranded t.before j) ∧
      ∃ id batch rest, t.before.stack = .poll id :: .process false batch :: rest ∧
        t.after.stack = .dropFuture id .unwound :: .process false batch :: rest) ∧
    (∀ t ∈ ts, t.act = .dropReturn → ∀ id below, t.before.stack = .dropFuture id .unwound :: below →
      ∃ batch rest, below = .process false batch :: rest ∧
        ∀ j, Stranded t.after j ↔
          Stranded t.before j ∨ t.before.finished j = false ∧ j ∈ batch) ∧
    (e.closed = false → e.stack = [] → e.threads = [] → ∀ j, e.finished j = false →
      ¬ Stranded e j → j ∈ e.inbox ∨ e.isQueued j = false) := by
  refine ⟨?_, ?_, ?_, ?_⟩
  · refine run.safe_iff_guard (fun e => ∃ ts, machine.Run ts e) NoneStranded
      (fun e act => e.strands act = false) (fun ts _ prior => ⟨ts, prior⟩) ?_ ?_
    · rintro _ rfl
      exact (tokenInv_of_run (.start rfl)).noneStranded_iff.mpr fun _ => nofun
    · rintro e act e' ev ⟨ts, prior⟩ safe stepped
      exact safe.step_iff (tokenInv_of_run prior) (tokenInv_of_run (prior.next stepped))
        (nested_of_run prior) (step_cases stepped)
  · intro t member panic
    obtain ⟨⟨earlier, prior⟩, stepped⟩ := run.step_of_mem member
    have after := tokenInv_of_run (prior.next stepped)
    have nested := nested_of_run prior
    have moved := step_cases stepped
    rw [panic] at moved
    refine ⟨stranded_of_panic (tokenInv_of_run prior) after nested moved, ?_⟩
    generalize t.after = e' at moved
    generalize t.out = ev at moved
    cases moved with
    | @pollPanic id checked batch rest top =>
      obtain ⟨_, _, same⟩ := nested.seat top rfl
      cases same
      exact ⟨id, batch, rest, top, rfl⟩
  · intro t member returns id below top
    obtain ⟨⟨earlier, prior⟩, stepped⟩ := run.step_of_mem member
    have after := tokenInv_of_run (prior.next stepped)
    have nested := nested_of_run prior
    have moved := step_cases stepped
    rw [returns] at moved
    -- the destructor returns to the `run` that unwinds
    obtain ⟨batch, rest, rfl⟩ := nested.seat top rfl
    exact ⟨batch, rest, rfl, stranded_of_unwinding (tokenInv_of_run prior) after nested
      ⟨id, false, rest, top⟩ moved⟩
  · intro alive idle quiet j unfinished free
    cases queued : e.isQueued j with
    | false => exact .inr rfl
    | true =>
      left
      have some : e.tokens j ≠ 0 := fun nowhere => free ⟨unfinished, queued, nowhere⟩
      simp only [tokens, idle, quiet, List.map_nil, List.sum_nil, List.countP_nil,
        Nat.add_zero] at some
      exact List.count_pos_iff.mp (Nat.pos_of_ne_zero some)

/-- The first of two tasks panics in its first poll. The second one is neither in the inbox
nor can a wake put it there. -/
theorem panic_strands_neighbour : ∃ ts e, machine.Run ts e ∧
    ts.map Machine.Transition.act = [.spawn, .advance, .advance, .advance, .advance, .advance,
      .spawn, .advance, .advance, .advance, .advance, .advance, .processTasks 10, .advance,
      .advance, .pollPanic, .dropReturn, .wake 1, .advance, .advance, .advance] ∧
    e.closed = false ∧ e.stack = [] ∧ e.threads = [] ∧ e.inbox = [] ∧ e.polls 1 = 0 ∧
    Stranded e 1 := by
  obtain ⟨ts, e, run, acts, alive, idle, quiet, empty, unpolled, unfinished, queued, nowhere⟩ :=
    Machine.exists_run (m := machine)
    (P := fun _ e => e.closed = false ∧ e.stack.isEmpty = true ∧ e.threads.isEmpty = true ∧
      e.inbox = [] ∧ e.polls 1 = 0 ∧ e.finished 1 = false ∧ e.isQueued 1 = true ∧ e.tokens 1 = 0)
    [.spawn, .advance, .advance, .advance, .advance, .advance,
      .spawn, .advance, .advance, .advance, .advance, .advance, .processTasks 10, .advance,
      .advance, .pollPanic, .dropReturn, .wake 1, .advance, .advance, .advance] rfl (by decide)
  exact ⟨ts, e, run, acts, alive, List.isEmpty_iff.mp idle, List.isEmpty_iff.mp quiet, empty,
    unpolled, unfinished, queued, nowhere⟩

/-- The first of three tasks wakes itself, the second one panics, and its destructor cancels
the third one, whose entry is still in the batch. -/
theorem canceled_rest_not_stranded : ∃ ts e, machine.Run ts e ∧
    ts.map Machine.Transition.act = [.spawn, .advance, .advance, .advance, .advance, .advance,
      .spawn, .advance, .advance, .advance, .advance, .advance,
      .spawn, .advance, .advance, .advance, .advance, .advance, .processTasks 3, .advance,
      .advance, .wake 0, .advance, .advance, .advance, .advance, .advance, .pollPending,
      .advance, .advance, .pollPanic, .dropHandle 2, .dropReturn, .dropReturn] ∧
    e.lost = [2] ∧ NoneStranded e ∧ 0 ∈ e.inbox := by
  obtain ⟨ts, e, run, acts, spared, lost, alive, idle, quiet, unfinished, queued⟩ :=
    Machine.exists_run (m := machine)
    (P := fun ts e => (∀ t ∈ ts, t.before.strands t.act = false) ∧ e.lost = [2] ∧
      e.closed = false ∧ e.stack.isEmpty = true ∧ e.threads.isEmpty = true ∧
      e.finished 0 = false ∧ e.isQueued 0 = true)
    [.spawn, .advance, .advance, .advance, .advance, .advance,
      .spawn, .advance, .advance, .advance, .advance, .advance,
      .spawn, .advance, .advance, .advance, .advance, .advance, .processTasks 3, .advance,
      .advance, .wake 0, .advance, .advance, .advance, .advance, .advance, .pollPending,
      .advance, .advance, .pollPanic, .dropHandle 2, .dropReturn, .dropReturn] rfl (by decide)
  obtain ⟨exact, -, -, settled⟩ := panics_strand_iff run
  have safe := (exact.mpr spared).1
  refine ⟨ts, e, run, acts, lost, safe, ?_⟩
  refine (settled alive (List.isEmpty_iff.mp idle) (List.isEmpty_iff.mp quiet) 0 unfinished
    (safe alive 0)).resolve_right ?_
  simp [queued]

end Eneste.Executor
