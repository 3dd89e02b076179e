import Eneste.WaitGroup.WaitGroup
import Eneste.Event.Waiters

/-!
# Waiting is exact

A started wait has the only listener of the event. Every dropped ticket leaves it
notified, so that at zero tickets it is, however many drops and polls came before; and a
poll that finds tickets left has consumed what notified it.
-/

namespace Eneste

variable {W : Type}

/-- `notify(1)` reaches a listener that has the event for itself. -/
theorem EventListener.notify_sole [Usize] {inner : Inner W Unit} (wf : inner.WF) {id : Nat}
    (sole : ∀ j, j ∈ inner.listeners.keys ↔ j = id) :
    EventListener.isNotified id (Event.notify (.usize 1) inner) = true := by
  obtain ⟨⟨old, value⟩, found⟩ := (OrderedMap.mem_keys_iff _ _).mp ((sole id).mpr rfl)
  rw [isNotified_notify_one]
  cases value with
  | some => exact .inl (by simp [isNotified, found, ListenerEntry.isNotified])
  | none =>
    refine .inr ⟨?_, ?_⟩
    · -- nobody else is there to be counted
      by_contra some
      obtain ⟨j, entry, held, notified⟩ :=
        (OrderedMap.count_pos_iff _ ListenerEntry.isNotified).mp
          (wf.counted ▸ Nat.pos_of_ne_zero some)
      obtain rfl := (sole j).mp ((OrderedMap.mem_keys_iff _ _).mpr ⟨entry, held⟩)
      cases found.symm.trans held
      cases notified
    · have waits : id ∈ inner.waiting := (inner.mem_waiting id).mpr ⟨_, found, rfl⟩
      cases waiting : inner.waiting with
      | nil => simp [waiting] at waits
      | cons first rest =>
        obtain ⟨entry, held, _⟩ := (inner.mem_waiting first).mp (by simp [waiting])
        rw [(sole first).mp ((OrderedMap.mem_keys_iff _ _).mpr ⟨entry, held⟩), List.head?_cons]

namespace WaitGroup

/-! ### What a poll does -/

section

variable {g : WaitGroup W} (waker : W) {id : Nat} {old : Option W}

theorem pollEvents_asleep {event : Inner W Unit} (opened : event.closed = false)
    (found : event.listeners.get? id = some ⟨old, none⟩) :
    g.pollEvents waker event (.listening id) =
      some ({ g with
        event := event.await id waker
        waiting := some (.next (.listening id)) }, .pending) := by
  have polled := streamPoll_asleep true waker found
  rw [opened] at polled
  have turn : waitTurn g.tickets waker (event, .listening id) =
      some (.done .pending (event.await id waker, .listening id)) := by
    simp only [waitTurn, polled]
    rfl
  rw [pollEvents, LoopTurn.loop_done turn]

/-- A notified wait that finds no ticket left is done. -/
theorem pollEvents_done {event : Inner W Unit} (none_left : g.tickets = 0)
    (found : event.listeners.get? id = some ⟨old, some ()⟩) :
    g.pollEvents waker event (.listening id) =
      some ({ g with event := event.consume id, waiting := some .completed }, .ready ()) := by
  have turn : waitTurn g.tickets waker (event, .listening id) =
      some (.done (.ready ()) (event.consume id, .next)) := by
    simp only [waitTurn, streamPoll_notified true waker found, none_left, ite_true]
  rw [pollEvents, LoopTurn.loop_done turn]
  rfl

/-- A notified wait that finds tickets left listens again. -/
theorem pollEvents_again {event : Inner W Unit} (opened : event.closed = false)
    (some_left : g.tickets ≠ 0) (found : event.listeners.get? id = some ⟨old, some ()⟩) :
    g.pollEvents waker event (.listening id) =
      some ({ g with
        event := (event.consume id).register waker
        waiting := some (.next (.listening event.nextId)) }, .pending) := by
  have turn : waitTurn g.tickets waker (event, .listening id) =
      some (.again (event.consume id, .next)) := by
    simp only [waitTurn, streamPoll_notified true waker found, some_left, ite_false]
  have again := streamPoll_next true waker (event.consume id)
  have still : (event.consume id).closed = false := opened
  have last : waitTurn g.tickets waker (event.consume id, .next) =
      some (.done .pending ((event.consume id).register waker, .listening event.nextId)) := by
    simp only [waitTurn, again, still, ite_true, Bool.false_eq_true, ite_false]
    rfl
  rw [pollEvents, LoopTurn.loop_again turn, LoopTurn.loop_done last]

end

/-! ### The invariant -/

/-- The listener of the wait that is started. -/
def listener (g : WaitGroup W) : Option Nat :=
  match g.waiting with
  | some (.next events) => events.listener
  | _ => none

theorem listener_of_next {g : WaitGroup W} {id : Nat}
    (suspended : g.waiting = some (.next (.listening id))) : g.listener = some id := by
  rw [listener, suspended]
  rfl

structure Inv (g : WaitGroup W) : Prop where
  wf : g.event.WF
  counts : g.tickets = g.live.card
  named : ∀ k ∈ g.live, k < g.created
  opened : g.alive = true → g.event.closed = false
  lent : g.waiting ≠ none → g.alive = true
  suspended : ∀ events, g.waiting = some (.next events) → ∃ id, events = .listening id
  sole : ∀ j, j ∈ g.event.listeners.keys ↔ g.listener = some j
  notified : g.tickets = 0 → ∀ id, g.listener = some id →
    EventListener.isNotified id g.event = true

variable {g g' : WaitGroup W} {waker : W}

/-- The outcomes of a poll. -/
inductive Polled (g : WaitGroup W) (waker : W) : WaitGroup W → Poll Unit → Prop
  | skips (unstarted : g.waiting = some .unstarted) (empty : g.tickets = 0) :
      Polled g waker { g with waiting := some .completed } (.ready ())
  | starts (unstarted : g.waiting = some .unstarted) (tickets : g.tickets ≠ 0) :
      Polled g waker { g with
        event := g.event.register waker
        waiting := some (.next (.listening g.event.nextId)) } .pending
  | waits {id old} (listens : g.waiting = some (.next (.listening id))) (tickets : g.tickets ≠ 0)
      (found : g.event.listeners.get? id = some ⟨old, none⟩) :
      Polled g waker { g with
        event := g.event.await id waker
        waiting := some (.next (.listening id)) } .pending
  | rearms {id old} (listens : g.waiting = some (.next (.listening id)))
      (tickets : g.tickets ≠ 0) (found : g.event.listeners.get? id = some ⟨old, some ()⟩) :
      Polled g waker { g with
        event := (g.event.consume id).register waker
        waiting := some (.next (.listening g.event.nextId)) } .pending
  | completes {id old} (listens : g.waiting = some (.next (.listening id)))
      (empty : g.tickets = 0) (found : g.event.listeners.get? id = some ⟨old, some ()⟩) :
      Polled g waker { g with event := g.event.consume id, waiting := some .completed }
        (.ready ())

/-- A future that has not completed can be polled, with one of the outcomes. -/
theorem Inv.poll_total (inv : g.Inv) (waker : W) (live : g.waiting ≠ none)
    (running : g.waiting ≠ some .completed) :
    ∃ g' r, g.poll waker = some (g', r) ∧ Polled g waker g' r := by
  have opened := inv.opened (inv.lent live)
  unfold poll
  split
  next unstarted =>
    by_cases empty : g.tickets = 0
    · exact ⟨_, _, by simp [isEmpty, empty], .skips unstarted empty⟩
    · have found : g.event.listen.2.listeners.get? g.event.nextId = some ⟨none, none⟩ := by
        simp [Inner.listen]
      have still : g.event.listen.2.closed = false := opened
      have polled := pollEvents_asleep (g := g) waker still found
      refine ⟨_, _, ?_, .starts unstarted empty⟩
      simp only [isEmpty, beq_iff_eq, empty, ite_false]
      exact polled.trans (by simp [Inner.await, Inner.listen, Inner.register])
  next events listens =>
    obtain ⟨id, rfl⟩ := inv.suspended events listens
    have listener := listener_of_next listens
    obtain ⟨⟨old, value⟩, found⟩ := (OrderedMap.mem_keys_iff _ _).mp ((inv.sole id).mpr listener)
    cases value with
    | none =>
      -- with no ticket left it would be notified
      have tickets : g.tickets ≠ 0 := by
        intro empty
        have notified := inv.notified empty id listener
        simp [EventListener.isNotified, found, ListenerEntry.isNotified] at notified
      exact ⟨_, _, pollEvents_asleep waker opened found, .waits listens tickets found⟩
    | some =>
      by_cases empty : g.tickets = 0
      · exact ⟨_, _, pollEvents_done waker empty found, .completes listens empty found⟩
      · exact ⟨_, _, pollEvents_again waker opened empty found, .rearms listens empty found⟩
  next completed => exact absurd completed running
  next gone => exact absurd gone live

theorem Inv.poll_spec {r : Poll Unit} (inv : g.Inv) (taken : g.poll waker = some (g', r)) :
    Polled g waker g' r := by
  have live : g.waiting ≠ none := by
    intro gone
    simp [poll, gone] at taken
  have running : g.waiting ≠ some .completed := by
    intro completed
    simp [poll, completed] at taken
  obtain ⟨_, _, same, polled⟩ := inv.poll_total waker live running
  cases taken.symm.trans same
  exact polled

namespace Inv

theorem new : (WaitGroup.new : WaitGroup W).Inv where
  wf := Inner.WF.new
  counts := rfl
  named := by simp [WaitGroup.new]
  opened _ := rfl
  lent := by simp [WaitGroup.new]
  suspended := by simp [WaitGroup.new]
  sole := by simp [WaitGroup.new, listener, Event.new, OrderedMap.empty, OrderedMap.keys]
  notified _ _ listens := by cases listens

theorem add (inv : g.Inv) : g.add.Inv := by
  have fresh : g.created ∉ g.live := fun member => absurd (inv.named _ member) (lt_irrefl _)
  refine ⟨inv.wf, ?_, fun k member => ?_, inv.opened, inv.lent, inv.suspended, inv.sole,
    fun empty => by simp [WaitGroup.add] at empty⟩
  · simp [WaitGroup.add, Finset.card_insert_of_notMem fresh, inv.counts]
  · rcases Finset.mem_insert.mp member with rfl | old
    · exact Nat.lt_succ_self _
    · exact (inv.named k old).trans (Nat.lt_succ_self _)

/-- Nobody is left who could listen. -/
private theorem release (inv : g.Inv) : (WaitGroup.release g).Inv := by
  unfold WaitGroup.release
  split
  · exact inv
  next gone =>
    simp only [Bool.or_eq_true, decide_eq_true_eq, not_or, Bool.not_eq_true] at gone
    have idle : g.listener = none := by
      have nobody : g.waiting = none := by
        by_contra some
        exact Bool.false_ne_true (gone.1.symm.trans (inv.lent some))
      rw [listener, nobody]
    refine ⟨inv.wf.close, inv.counts, inv.named, fun alive => ?_, inv.lent, inv.suspended,
      fun j => ?_, fun _ id listens => ?_⟩
    · exact absurd (gone.1.symm.trans alive) Bool.false_ne_true
    · rw [Event.keys_drop]
      exact inv.sole j
    · exact absurd (idle.symm.trans listens) (by simp)

theorem dropTicket [Usize] {k : Nat} (inv : g.Inv) (member : k ∈ g.live)
    (taken : g.dropTicket k = some g') : g'.Inv := by
  unfold WaitGroup.dropTicket at taken
  split at taken
  · cases taken
  · cases taken
    apply release
    refine ⟨inv.wf.notify (.usize 1), ?_,
      fun j still => inv.named j (Finset.mem_of_mem_erase still),
      fun alive => (Event.closed_notify _ _).trans (inv.opened alive), inv.lent, inv.suspended,
      fun j => ?_, fun _ id listens => ?_⟩
    · rw [Finset.card_erase_of_mem member, inv.counts]
    · rw [Event.keys_notify]
      exact inv.sole j
    · apply EventListener.notify_sole inv.wf
      intro j
      rw [inv.sole j, show g.listener = some id from listens, Option.some.injEq, eq_comm]

theorem polled {r : Poll Unit} (inv : g.Inv) (polled : Polled g waker g' r) : g'.Inv := by
  have alive : ∀ {wait}, g.waiting = some wait → g.alive = true := fun live =>
    inv.lent (by simp [live])
  cases polled with
  | skips unstarted =>
    have idle : g.listener = none := by rw [listener, unstarted]
    refine ⟨inv.wf, inv.counts, inv.named, inv.opened, fun _ => alive unstarted, by simp,
      fun j => ?_, fun _ _ listens => by cases listens⟩
    rw [inv.sole j, idle]
    rfl
  | starts unstarted tickets =>
    have idle : g.listener = none := by rw [listener, unstarted]
    refine ⟨inv.wf.register waker, inv.counts, inv.named, inv.opened, fun _ => alive unstarted,
      by simp, fun j => ?_, fun empty => absurd empty tickets⟩
    apply (OrderedMap.mem_keys_insert _ _ _ _).trans
    rw [inv.sole j, idle]
    simp [listener, StreamState.listener, eq_comm]
  | @waits id _ suspended tickets found =>
    refine ⟨inv.wf.await id waker found rfl, inv.counts, inv.named, inv.opened,
      fun _ => alive suspended, by simp, fun j => ?_, fun empty => absurd empty tickets⟩
    apply (OrderedMap.mem_keys_insert _ _ _ _).trans
    rw [inv.sole j, listener_of_next suspended]
    simp [listener, StreamState.listener, eq_comm]
  | @rearms id _ suspended tickets found =>
    refine ⟨(inv.wf.consume id found rfl).register waker, inv.counts, inv.named, inv.opened,
      fun _ => alive suspended, by simp, fun j => ?_, fun empty => absurd empty tickets⟩
    apply (OrderedMap.mem_keys_insert _ _ _ _).trans
    rw [Inner.consume, OrderedMap.mem_keys_erase, inv.sole j, listener_of_next suspended]
    simp only [listener, StreamState.listener, Option.some.injEq]
    exact ⟨fun h => h.elim Eq.symm fun h => absurd h.2.symm h.1, fun h => .inl h.symm⟩
  | @completes id _ suspended empty found =>
    refine ⟨inv.wf.consume id found rfl, inv.counts, inv.named, inv.opened,
      fun _ => alive suspended, by simp, fun j => ?_, fun _ _ listens => by cases listens⟩
    rw [Inner.consume, OrderedMap.mem_keys_erase, inv.sole j, listener_of_next suspended]
    simp only [listener, Option.some.injEq, reduceCtorEq, iff_false, not_and]
    exact fun differs same => differs same.symm

theorem dropWait (inv : g.Inv) : g.dropWait.Inv := by
  unfold WaitGroup.dropWait
  split
  next events suspended =>
    obtain ⟨id, rfl⟩ := inv.suspended events suspended
    refine ⟨inv.wf.drop id, inv.counts, inv.named,
      fun alive => (StreamState.closed_drop _ _).trans (inv.opened alive), by simp, by simp,
      fun j => ?_, fun _ _ listens => by cases listens⟩
    simp only [StreamState.drop, StreamState.listener]
    rw [EventListener.keys_drop inv.wf, OrderedMap.mem_keys_erase, inv.sole j,
      listener_of_next suspended]
    simp only [listener, Option.some.injEq, reduceCtorEq, iff_false, not_and]
    exact fun differs same => differs same.symm
  next other =>
    have idle : g.listener = none := by
      unfold listener
      split
      next events suspended => exact absurd suspended (other events)
      next => rfl
    refine ⟨inv.wf, inv.counts, inv.named, inv.opened, by simp, by simp, fun j => ?_,
      fun _ _ listens => by cases listens⟩
    rw [inv.sole j, idle]
    rfl

theorem step [Usize] {op : Op W} {r : Res} (inv : g.Inv) (taken : g.step op = some (g', r)) :
    g'.Inv := by
  cases op with
  | add =>
    simp only [WaitGroup.step] at taken
    split at taken
    · cases taken
      exact inv.add
    · cases taken
  | wait =>
    simp only [WaitGroup.step] at taken
    split at taken
    next free =>
      cases taken
      have idle : g.listener = none := by rw [listener, free.2]
      refine ⟨inv.wf, inv.counts, inv.named, inv.opened, fun _ => free.1, by simp, fun j => ?_,
        fun _ _ listens => by cases listens⟩
      rw [inv.sole j, idle]
      rfl
    · cases taken
  | poll waker =>
    simp only [WaitGroup.step] at taken
    split at taken
    · cases taken
    next polled =>
      cases taken
      exact inv.polled (inv.poll_spec polled)
  | dropWait =>
    simp only [WaitGroup.step] at taken
    split at taken
    · cases taken
      exact inv.dropWait
    · cases taken
  | dropTicket k =>
    simp only [WaitGroup.step] at taken
    split at taken
    next member =>
      split at taken
      · cases taken
      next dropped =>
        cases taken
        exact inv.dropTicket member dropped
    · cases taken
  | dropGroup =>
    simp only [WaitGroup.step] at taken
    split at taken
    next free =>
      cases taken
      apply release
      exact ⟨inv.wf, inv.counts, inv.named, by simp, fun lent => absurd free.2 lent,
        inv.suspended, inv.sole, inv.notified⟩
    · cases taken

theorem of_run [Usize] {ts} (run : machine.Run ts g) : g.Inv := by
  refine run.invariant ?_ fun _ _ _ _ inv taken => inv.step taken
  rintro _ rfl
  exact Inv.new

end Inv

/-! ### The waker of a pending poll -/

/-- The wait is suspended, and the event tracks the waker of its last poll. -/
def Sleeping (p : Sleeper W) (g : WaitGroup W) : Prop :=
  g.waiting = some (.next (.listening p.listener)) ∧ g.event.Tracks p

/-- A poll that is pending leaves its waker with the event, and wakes nobody. -/
theorem Polled.sleeping (polled : Polled g waker g' .pending) :
    ∃ id, Sleeping ⟨id, waker, g.event.woken.length⟩ g' := by
  cases polled with
  | starts | rearms =>
    exact ⟨_, rfl, le_rfl, _, OrderedMap.get?_insert_self _ _ _, .inl ⟨rfl, rfl⟩⟩
  | waits => exact ⟨_, rfl, le_rfl, _, OrderedMap.get?_insert_self _ _ _, .inl ⟨rfl, rfl⟩⟩

/-- Meanwhile only tickets are dropped. -/
theorem Sleeping.step [Usize] {p : Sleeper W} {op : Op W} {r : Res} (sleeping : Sleeping p g)
    (inv : g.Inv) (others : ∀ waker, op ≠ .poll waker) (stays : op ≠ .dropWait)
    (taken : g.step op = some (g', r)) : Sleeping p g' := by
  obtain ⟨suspended, tracks⟩ := sleeping
  have alive : g.alive = true := inv.lent (by simp [suspended])
  cases op with
  | add | wait | dropGroup => simp [WaitGroup.step, suspended] at taken
  | poll waker => exact absurd rfl (others waker)
  | dropWait => exact absurd rfl stays
  | dropTicket k =>
    simp only [WaitGroup.step] at taken
    split at taken
    next member =>
      split at taken
      · cases taken
      next dropped =>
        cases taken
        unfold dropTicket at dropped
        split at dropped
        · cases dropped
        · cases dropped
          simp only [release, alive, Bool.true_or, ite_true]
          exact ⟨suspended, tracks.notify _⟩
    · cases taken

section

variable [Usize] {ts : List (Machine.Transition (WaitGroup W) (Op W) Res)}

/-- Waiting is over exactly when the counter, which counts the tickets that are alive, is
zero; and once it is, a wait whose last poll was pending has been woken. -/
theorem wait_exact (run : machine.Run ts g) :
    g.tickets = g.live.card ∧
    (∀ k ∈ g.live, g.dropTicket k ≠ none) ∧
    (∀ waker, g.waiting ≠ none → g.waiting ≠ some .completed →
      ∃ g' r, g.poll waker = some (g', r) ∧ (r = .ready () ↔ g.tickets = 0)) ∧
    (g.waiting ≠ none → g.step .add = none) ∧
    ∀ before (t : Machine.Transition (WaitGroup W) (Op W) Res) later waker,
      ts = before ++ t :: later → t.act = .poll waker → t.out = .polled .pending →
      (∀ u ∈ later, (∀ w, u.act ≠ .poll w) ∧ u.act ≠ .dropWait) → g.tickets = 0 →
      waker ∈ g.event.woken.drop t.before.event.woken.length := by
  have inv := Inv.of_run run
  refine ⟨inv.counts, fun k member => ?_, fun waker live running => ?_, fun lent => ?_, ?_⟩
  · have some_left : g.tickets ≠ 0 := by
      rw [inv.counts]
      exact Finset.card_ne_zero_of_mem member
    simp [dropTicket, some_left]
  · obtain ⟨g', r, taken, polled⟩ := inv.poll_total waker live running
    refine ⟨g', r, taken, ?_⟩
    cases polled with
    | skips _ empty | completes _ empty => simp [empty]
    | starts _ tickets | waits _ tickets | rearms _ tickets => simp [tickets]
  · simp [step, lent]
  · rintro before t later waker rfl act pending last empty
    have sleeping : ∃ id, Sleeping ⟨id, waker, t.before.event.woken.length⟩ g := by
      refine run.since (P := fun us g =>
        (∀ u ∈ us, (∀ w, u.act ≠ .poll w) ∧ u.act ≠ .dropWait) →
        ∃ id, Sleeping ⟨id, waker, t.before.event.woken.length⟩ g) ?_ ?_ last
      · intro prior taken _
        rw [act, pending] at taken
        simp only [machine, step] at taken
        split at taken
        · cases taken
        next after result polled =>
          obtain ⟨rfl, same⟩ := Prod.mk.inj (Option.some.inj taken)
          cases same
          exact ((Inv.of_run prior).poll_spec polled).sleeping
      · intro us u prior ih taken quiet
        obtain ⟨id, sleeping⟩ := ih fun v member => quiet v (List.mem_append_left _ member)
        obtain ⟨others, stays⟩ := quiet u (by simp)
        exact ⟨id, sleeping.step (Inv.of_run prior) others stays taken⟩
    obtain ⟨id, suspended, tracks⟩ := sleeping
    exact (tracks.roused (inv.notified empty id (listener_of_next suspended))).2

end

/-- Two of three tickets are dropped before the wait is polled again, and the last one
after: each drop notifies, and the last one wakes the wait. -/
theorem waits_for_three : ∃ ts, ∃ g : WaitGroup Nat, machine.Run ts g ∧
    ts.map Machine.Transition.act = [.add, .add, .add, .wait, .poll 7, .dropTicket 1,
      .dropTicket 0, .poll 8, .dropTicket 2] ∧
    g.tickets = 0 ∧ ∃ g' r, g.poll 9 = some (g', r) ∧ r = .ready () := by
  obtain ⟨ts, g, run, acts, empty, suspended⟩ := Machine.exists_run (m := machine (W := Nat))
    (P := fun _ g => g.tickets = 0 ∧ g.waiting = some (.next (.listening 1)))
    [.add, .add, .add, .wait, .poll 7, .dropTicket 1, .dropTicket 0, .poll 8, .dropTicket 2] rfl
    (by decide)
  obtain ⟨g', r, polled, exact⟩ := (wait_exact run).2.2.1 9 (by simp [suspended])
    (by simp [suspended])
  exact ⟨ts, g, run, acts, empty, g', r, polled, exact.mpr empty⟩

end WaitGroup

end Eneste
