import Eneste.Library.Loop
import Eneste.Library.Machine
import Eneste.Event.Basic

/-!
# The listener future

`Listener` of `emitter.rs` feeds the items of a stream to a callback until either has had
enough. The stream and the callback are any functions that work on the rest of the
program; what they answered is kept as a history that no code reads.
-/

namespace Eneste

variable {W T σ : Type}

structure Listener (T σ : Type) where
  /-- The stream, what the callback captured, and whatever else they have access to. -/
  world : σ
  done : Bool
  /-- The answers of `poll_next`. -/
  answers : List (Poll (Option T))
  /-- The calls of the callback, with what it returned. -/
  calls : List (T × Bool)

namespace Listener

/-- `Listener::new`. -/
def new (world : σ) : Listener T σ := ⟨world, false, [], []⟩

section

variable (pollNext : W → σ → Poll (Option T) × σ) (map : T → σ → Bool × σ)

/-- One turn of the loop. -/
def turn (waker : W) (l : Listener T σ) : LoopTurn (Listener T σ) (Poll Unit) :=
  if l.done then .done (.ready ()) l
  else
    let (answer, world) := pollNext waker l.world
    let l := { l with world := world, answers := l.answers ++ [answer] }
    match answer with
    | .ready (some data) =>
      let (more, world) := map data l.world
      let l := { l with world := world, calls := l.calls ++ [(data, more)] }
      .again (if more then l else { l with done := true })
    | .ready none => .again { l with done := true }
    | .pending => .done .pending l

/-- `poll`, with as many turns as it may take. -/
def poll (waker : W) (turns : Nat) (l : Listener T σ) : Option (Poll Unit × Listener T σ) :=
  LoopTurn.loop (fun l => some (turn pollNext map waker l)) turns l

/-- A listener and the poll that is going on. -/
structure Polls (W T σ : Type) where
  listener : Listener T σ
  polling : Option W

inductive Act (W σ : Type) where
  | poll (waker : W)
  /-- The poll goes round its loop once. -/
  | turn
  /-- Between two polls the rest of the program does something. -/
  | elsewhere (world : σ)

/-- A poll that is called, or one turn of it; the output is what the poll returns. -/
def step (p : Polls W T σ) : Act W σ → Option (Polls W T σ × Option (Poll Unit))
  | .poll waker => if p.polling.isSome then none else some ({ p with polling := some waker }, none)
  | .turn =>
    match p.polling with
    | none => none
    | some waker =>
      match turn pollNext map waker p.listener with
      | .again l => some ({ p with listener := l }, none)
      | .done result l => some (⟨l, none⟩, some result)
  | .elsewhere world =>
    if p.polling.isSome then none
    else some ({ p with listener := { p.listener with world := world } }, none)

def machine : Machine (Polls W T σ) (Act W σ) (Option (Poll Unit)) where
  init p := ∃ world, p = ⟨new world, none⟩
  step := step pollNext map

end

/-! ### What a turn can do -/

/-- The item of an answer. -/
def item : Poll (Option T) → Option T
  | .ready (some data) => some data
  | _ => none

/-- The callback has returned `false` or the stream `None`. -/
def Ended (l : Listener T σ) : Prop :=
  (∃ call ∈ l.calls, call.2 = false) ∨ .ready none ∈ l.answers

section

variable {pollNext : W → σ → Poll (Option T) × σ} {map : T → σ → Bool × σ}
  {waker : W} {l l' : Listener T σ}

/-- A turn finds the listener done, or it asks the stream once. -/
inductive Turned (pollNext : W → σ → Poll (Option T) × σ) (map : T → σ → Bool × σ) (waker : W)
    (l : Listener T σ) : LoopTurn (Listener T σ) (Poll Unit) → Prop
  | finished (done : l.done = true) : Turned pollNext map waker l (.done (.ready ()) l)
  | kept {data between after} (undone : l.done = false)
      (asked : pollNext waker l.world = (.ready (some data), between))
      (called : map data between = (true, after)) :
      Turned pollNext map waker l
        (.again ⟨after, false, l.answers ++ [.ready (some data)], l.calls ++ [(data, true)]⟩)
  | refused {data between after} (undone : l.done = false)
      (asked : pollNext waker l.world = (.ready (some data), between))
      (called : map data between = (false, after)) :
      Turned pollNext map waker l
        (.again ⟨after, true, l.answers ++ [.ready (some data)], l.calls ++ [(data, false)]⟩)
  | exhausted {after} (undone : l.done = false)
      (asked : pollNext waker l.world = (.ready none, after)) :
      Turned pollNext map waker l (.again ⟨after, true, l.answers ++ [.ready none], l.calls⟩)
  | idle {after} (undone : l.done = false) (asked : pollNext waker l.world = (.pending, after)) :
      Turned pollNext map waker l
        (.done .pending ⟨after, false, l.answers ++ [.pending], l.calls⟩)

theorem turned (pollNext : W → σ → Poll (Option T) × σ) (map : T → σ → Bool × σ) (waker : W)
    (l : Listener T σ) : Turned pollNext map waker l (turn pollNext map waker l) := by
  obtain ⟨world, done, answers, calls⟩ := l
  cases done with
  | true => exact .finished rfl
  | false =>
    rcases asked : pollNext waker world with ⟨(_ | data) | _, between⟩
    · simp only [turn, asked, Bool.false_eq_true, ite_false]
      exact .exhausted rfl asked
    · rcases called : map data between with ⟨_ | _, after⟩
      · simp only [turn, asked, called, Bool.false_eq_true, ite_false]
        exact .refused rfl asked called
      · simp only [turn, asked, called, Bool.false_eq_true, ite_false, ite_true]
        exact .kept rfl asked called
    · simp only [turn, asked, Bool.false_eq_true, ite_false]
      exact .idle rfl asked

/-- A turn that leaves this listener, and returns or not. -/
def leaving (l : Listener T σ) : Option (Poll Unit) → LoopTurn (Listener T σ) (Poll Unit)
  | none => .again l
  | some result => .done result l

/-- A step takes a turn of the poll that is going on, or only touches the world. -/
private theorem step_cases {p p' : Polls W T σ} {act : Act W σ} {out : Option (Poll Unit)}
    (taken : step pollNext map p act = some (p', out)) :
    (act ≠ .turn ∧ out = none ∧ ∃ world, p'.listener = { p.listener with world := world }) ∨
      (act = .turn ∧ ∃ waker, Turned pollNext map waker p.listener (leaving p'.listener out)) := by
  cases act with
  | poll waker =>
    simp only [step] at taken
    split at taken
    · cases taken
    · cases taken
      exact .inl ⟨by simp, rfl, _, rfl⟩
  | elsewhere world =>
    simp only [step] at taken
    split at taken
    · cases taken
    · cases taken
      exact .inl ⟨by simp, rfl, _, rfl⟩
  | turn =>
    simp only [step] at taken
    split at taken
    · cases taken
    next waker polling =>
      have spec := turned pollNext map waker p.listener
      split at taken
      next l next =>
        rw [next] at spec
        cases taken
        exact .inr ⟨rfl, waker, spec⟩
      next result l next =>
        rw [next] at spec
        cases taken
        exact .inr ⟨rfl, waker, spec⟩

/-- The callback was called with the items in order, and wanted more after all but the last. -/
structure Inv (l : Listener T σ) : Prop where
  ordered : l.calls.map Prod.fst = l.answers.filterMap item
  wanted : ∀ call ∈ l.calls.dropLast, call.2 = true
  done : l.done = true ↔ l.Ended

namespace Inv

theorem new (world : σ) : (new world : Listener T σ).Inv where
  ordered := rfl
  wanted := by simp [Listener.new]
  done := by simp [Listener.new, Ended]

/-- A listener that is not done has wanted more each time and was given more. -/
private theorem undone (inv : l.Inv) (undone : l.done = false) :
    (∀ call ∈ l.calls, call.2 = true) ∧ (¬∃ call ∈ l.calls, call.2 = false) ∧
      .ready none ∉ l.answers := by
  have going : ¬l.Ended := fun ended => by simp [inv.done.mpr ended] at undone
  simp only [Ended, not_or] at going
  exact ⟨by simpa using going.1, going.1, going.2⟩

/-- Any turn keeps the books, whether the loop goes on after it or returns. -/
theorem turn {out : Option (Poll Unit)} (inv : l.Inv)
    (turned : Turned pollNext map waker l (leaving l' out)) : l'.Inv := by
  generalize next : leaving l' out = turn at turned
  cases turned with
  | finished =>
    cases out <;> cases next
    exact inv
  | kept undone =>
    obtain ⟨wanted, still, going⟩ := inv.undone undone
    cases out <;> cases next
    constructor
    · simp [inv.ordered, item]
    · simpa using wanted
    · simpa [Ended, going, -Prod.exists] using still
  | refused undone =>
    obtain ⟨wanted, -, -⟩ := inv.undone undone
    cases out <;> cases next
    constructor
    · simp [inv.ordered, item]
    · simpa using wanted
    · simp [Ended]
  | exhausted =>
    cases out <;> cases next
    refine ⟨?_, inv.wanted, ?_⟩
    · simp [inv.ordered, item]
    · simp [Ended]
  | idle undone =>
    obtain ⟨-, still, going⟩ := inv.undone undone
    cases out <;> cases next
    refine ⟨?_, inv.wanted, ?_⟩
    · simp [inv.ordered, item]
    · simpa [Ended, going, -Prod.exists] using still

theorem step {p p' : Polls W T σ} {act : Act W σ} {out : Option (Poll Unit)}
    (inv : p.listener.Inv) (taken : step pollNext map p act = some (p', out)) :
    p'.listener.Inv := by
  rcases step_cases taken with ⟨-, -, world, same⟩ | ⟨-, waker, turned⟩
  · rw [same]
    exact ⟨inv.ordered, inv.wanted, inv.done⟩
  · exact inv.turn turned

end Inv

theorem inv_of_run {ts : List (Machine.Transition (Polls W T σ) (Act W σ) (Option (Poll Unit)))}
    {p : Polls W T σ} (run : (machine pollNext map).Run ts p) : p.listener.Inv := by
  apply run.history (P := fun _ p => p.listener.Inv)
  · rintro _ ⟨world, rfl⟩
    exact .new world
  · exact fun _ p act p' out inv taken => inv.step taken

/-! ### When a poll ends -/

section

variable (pollNext map waker)

/-- The stream has an item and the callback wants more after it. -/
def keepOne (world : σ) : Option σ :=
  match pollNext waker world with
  | (.ready (some data), world) =>
    match map data world with
    | (true, world) => some world
    | (false, _) => none
  | _ => none

/-- That many times in a row. -/
def keep : Nat → σ → Option σ
  | 0, world => some world
  | n + 1, world => (keepOne pollNext map waker world).bind (keep n)

end

theorem keep_succ {world after : σ} (kept : keepOne pollNext map waker world = some after)
    (n : Nat) : keep pollNext map waker (n + 1) world = keep pollNext map waker n after := by
  simp [keep, kept]

theorem keep_one {world : σ} (stops : keepOne pollNext map waker world = none) :
    keep pollNext map waker 1 world = none := by
  simp [keep, stops]

/-- A poll that returns found the listener done, or an item was the last one kept. -/
private theorem stops_of_poll {turns : Nat} {result : Poll Unit × Listener T σ}
    (returned : poll pollNext map waker turns l = some result) :
    l.done = true ∨ ∃ n, keep pollNext map waker n l.world = none := by
  induction turns generalizing l with
  | zero => cases returned
  | succ turns ih =>
    have spec := turned pollNext map waker l
    generalize next : Listener.turn pollNext map waker l = turn at spec
    cases spec with
    | finished done => exact .inl done
    | @kept data between after undone asked called =>
      have kept : keepOne pollNext map waker l.world = some after := by
        simp [keepOne, asked, called]
      rw [poll, LoopTurn.loop_again (congrArg some next)] at returned
      rcases ih returned with done | ⟨n, stops⟩
      · cases done
      · exact .inr ⟨n + 1, (keep_succ kept n).trans stops⟩
    | refused undone asked called =>
      exact .inr ⟨1, keep_one (by simp [keepOne, asked, called])⟩
    | exhausted undone asked => exact .inr ⟨1, keep_one (by simp [keepOne, asked])⟩
    | idle undone asked => exact .inr ⟨1, keep_one (by simp [keepOne, asked])⟩

private theorem poll_of_done (done : l.done = true) :
    poll pollNext map waker 1 l = some (.ready (), l) :=
  LoopTurn.loop_done (by simp [Listener.turn, done]) 0

/-- While items are kept the loop goes round, once more when it notices that it is done. -/
private theorem poll_of_stops {n : Nat} (stops : keep pollNext map waker n l.world = none) :
    ∃ turns result, poll pollNext map waker turns l = some result := by
  induction n generalizing l with
  | zero => cases stops
  | succ n ih =>
    have spec := turned pollNext map waker l
    generalize next : Listener.turn pollNext map waker l = turn at spec
    cases spec with
    | finished done => exact ⟨1, _, poll_of_done done⟩
    | @kept data between after undone asked called =>
      have kept : keepOne pollNext map waker l.world = some after := by
        simp [keepOne, asked, called]
      rw [keep_succ kept] at stops
      obtain ⟨turns, result, returned⟩ := ih (l := ⟨_, _, _, _⟩) stops
      exact ⟨turns + 1, result, (LoopTurn.loop_again (congrArg some next) turns).trans returned⟩
    | refused =>
      exact ⟨2, _, (LoopTurn.loop_again (congrArg some next) 1).trans (poll_of_done rfl)⟩
    | exhausted =>
      exact ⟨2, _, (LoopTurn.loop_again (congrArg some next) 1).trans (poll_of_done rfl)⟩
    | idle => exact ⟨1, _, LoopTurn.loop_done (congrArg some next) 0⟩

theorem poll_returns_iff (l : Listener T σ) :
    (∃ turns result, poll pollNext map waker turns l = some result) ↔
      l.done = true ∨ ∃ n, keep pollNext map waker n l.world = none := by
  constructor
  · rintro ⟨turns, result, returned⟩
    exact stops_of_poll returned
  · rintro (done | ⟨n, stops⟩)
    · exact ⟨1, _, poll_of_done done⟩
    · exact poll_of_stops stops

/-! ### What a poll returns -/

/-- A poll returns at the turn that finds the listener done, or that the stream answers
`Pending`. -/
private theorem returns_iff {p p' : Polls W T σ} {act : Act W σ} {out : Option (Poll Unit)}
    (inv : p.listener.Inv) (taken : step pollNext map p act = some (p', out)) :
    (out = some (.ready ()) ↔ act = .turn ∧ p.listener.Ended) ∧
      (out = some .pending ↔
        act = .turn ∧ p'.listener.answers = p.listener.answers ++ [Poll.pending]) := by
  rcases step_cases taken with ⟨other, silent, -⟩ | ⟨rfl, waker, turned⟩
  · simp [other, silent]
  · obtain ⟨l', polling⟩ := p'
    rw [← inv.done]
    generalize next : leaving l' out = turn at turned
    cases turned with
    | finished done =>
      cases out <;> cases next
      simp [done]
    | kept undone =>
      cases out <;> cases next
      simp [undone]
    | refused undone =>
      cases out <;> cases next
      simp [undone]
    | exhausted undone =>
      cases out <;> cases next
      simp [undone]
    | idle undone =>
      cases out <;> cases next
      simp [undone]

/-- Once done the listener asks for nothing any more. -/
private theorem step_of_ended {p p' : Polls W T σ} {act : Act W σ} {out : Option (Poll Unit)}
    (inv : p.listener.Inv) (ended : p.listener.Ended)
    (taken : step pollNext map p act = some (p', out)) :
    p'.listener.answers = p.listener.answers ∧ p'.listener.calls = p.listener.calls := by
  rcases step_cases taken with ⟨-, -, world, same⟩ | ⟨-, waker, turned⟩
  · simp [same]
  · obtain ⟨l', polling⟩ := p'
    have done := inv.done.mpr ended
    generalize next : leaving l' out = turn at turned
    cases turned with
    | finished =>
      cases out <;> cases next
      exact ⟨rfl, rfl⟩
    | kept undone => simp [done] at undone
    | refused undone => simp [done] at undone
    | exhausted undone => simp [done] at undone
    | idle undone => simp [done] at undone

/-- The callback gets the items in order up to the first it refuses, a poll returns `Ready`
exactly when the callback or the stream has had enough, and otherwise `Pending` with the
stream; nothing is asked for afterwards. A poll ends unless it keeps items for ever. -/
theorem processes_prefix
    {ts : List (Machine.Transition (Polls W T σ) (Act W σ) (Option (Poll Unit)))}
    {p : Polls W T σ} (run : (machine pollNext map).Run ts p) :
    (p.listener.calls.map Prod.fst = p.listener.answers.filterMap item ∧
        ∀ call ∈ p.listener.calls.dropLast, call.2 = true) ∧
      (∀ t ∈ ts,
        (t.out = some (.ready ()) ↔ t.act = .turn ∧ t.before.listener.Ended) ∧
        (t.out = some .pending ↔ t.act = .turn ∧
          t.after.listener.answers = t.before.listener.answers ++ [Poll.pending])) ∧
      (∀ before (t : Machine.Transition (Polls W T σ) (Act W σ) (Option (Poll Unit))) later,
        ts = before ++ t :: later → t.out = some (.ready ()) →
        p.listener.answers = t.before.listener.answers ∧
          p.listener.calls = t.before.listener.calls) ∧
      ∀ waker, (∃ turns result, poll pollNext map waker turns p.listener = some result) ↔
        p.listener.Ended ∨ ∃ n, keep pollNext map waker n p.listener.world = none := by
  have inv := inv_of_run run
  refine ⟨⟨inv.ordered, inv.wanted⟩, ?_, ?_, ?_⟩
  · intro t member
    obtain ⟨⟨earlier, prior⟩, taken⟩ := run.step_of_mem member
    exact returns_iff (inv_of_run prior) taken
  · rintro before t later rfl ready
    -- from the poll that returned on, the answers stay what they were
    have since : p.listener.Ended ∧ p.listener.answers = t.before.listener.answers ∧
        p.listener.calls = t.before.listener.calls := by
      refine run.since (P := fun _ p => p.listener.Ended ∧
        p.listener.answers = t.before.listener.answers ∧
          p.listener.calls = t.before.listener.calls) ?_ ?_
      · intro prior taken
        obtain ⟨-, ended⟩ := (returns_iff (inv_of_run prior) taken).1.mp ready
        obtain ⟨answers, calls⟩ := step_of_ended (inv_of_run prior) ended taken
        exact ⟨by simpa [Ended, answers, calls] using ended, answers, calls⟩
      · rintro us u prior ⟨ended, answers, calls⟩ taken
        obtain ⟨answers', calls'⟩ := step_of_ended (inv_of_run prior) ended taken
        exact ⟨by simpa [Ended, answers', calls'] using ended, answers'.trans answers,
          calls'.trans calls⟩
    exact since.2
  · intro waker
    rw [poll_returns_iff, inv.done]

end

/-- A stream that answers from a script and is over after it, and a callback that keeps the
sum of its items and stops above five. -/
def scripted (_ : Unit) : List (Poll (Option Nat)) × Nat →
    Poll (Option Nat) × List (Poll (Option Nat)) × Nat
  | (answer :: script, sum) => (answer, script, sum)
  | ([], sum) => (.ready none, [], sum)

def summing (data : Nat) : List (Poll (Option Nat)) × Nat →
    Bool × List (Poll (Option Nat)) × Nat
  | (script, sum) => (decide (sum + data ≤ 5), script, sum + data)

theorem processes_until_refused :
    ∃ ts p, (machine scripted summing).Run ts p ∧
      ts.map Machine.Transition.act = [.poll (), .turn, .turn,
        .elsewhere ([.ready (some 3), .ready (some 4)], 2), .poll (), .turn, .turn, .turn,
        .poll (), .turn] ∧
      ts.map Machine.Transition.out = [none, none, some .pending, none, none, none, none,
        some (.ready ()), none, some (.ready ())] ∧
      p.listener.calls = [(2, true), (3, true), (4, false)] ∧
      p.listener.calls.map Prod.fst = p.listener.answers.filterMap item ∧
      ∃ turns result, poll scripted summing () turns p.listener = some result := by
  obtain ⟨ts, p, run, acts, outs, calls⟩ := Machine.exists_run (m := machine scripted summing)
    (s := ⟨new ([.ready (some 2), .pending], 0), none⟩)
    (P := fun ts p => ts.map Machine.Transition.out = [none, none, some .pending, none, none,
        none, none, some (.ready ()), none, some (.ready ())] ∧
      p.listener.calls = [(2, true), (3, true), (4, false)])
    [.poll (), .turn, .turn, .elsewhere ([.ready (some 3), .ready (some 4)], 2), .poll (),
      .turn, .turn, .turn, .poll (), .turn] ⟨_, rfl⟩ ⟨_, rfl, rfl, rfl⟩
  obtain ⟨⟨ordered, -⟩, -, -, ends⟩ := processes_prefix run
  exact ⟨ts, p, run, acts, outs, calls, ordered,
    (ends ()).mpr (.inl (.inl ⟨(4, false), by simp [calls], rfl⟩))⟩

end Listener

end Eneste
