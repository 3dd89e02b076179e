import Eneste.Cell.ObservableCell

/-!
# What an observer has read

An observer that sleeps should have read the cell's current value. `Misses` says which
calls of `set` go past a stream; along every run without one for a stream, its observer
is up to date whenever the stream returns `Pending`.
-/

namespace Eneste.ObservableCell

variable {W T : Type}

section

variable (c : ObservableCell W T)

def states (k : Nat) : Option StreamState := (c.streams.get? k).map Observer.state

/-- The observer has read the current value, or its stream will yield. -/
def UpToDate (k : Nat) : Prop :=
  ∀ s, c.streams.get? k = some s → s.state ≠ .done → ¬s.state.Unread c.event → s.read = c.value

/-- The value changes after the stream has yielded and before it is polled again. -/
def Misses [BEq T] (k : Nat) (op : Op W T) : Prop :=
  c.states k = some .next ∧ ∃ value, op = .set value ∧ (c.value != value) = true ∧ value ≠ c.value

structure Inv : Prop where
  streams : Streams c.event c.states
  opened : c.event.closed = false ↔ 0 < c.handles

end

variable {c c' : ObservableCell W T} {k : Nat}

/-- The other streams of a cell after one of them has changed. -/
private theorem states_insert {event : Inner W Unit} {created : Nat} {j : Nat} {s : Observer T} :
    ({ c with event := event, streams := c.streams.insert k s, created := created } :
      ObservableCell W T).states j = if j = k then some s.state else c.states j := by
  simp only [states, OrderedMap.get?_insert]
  split <;> rfl

private theorem states_erase {event : Inner W Unit} {j : Nat} :
    ({ c with event := event, streams := c.streams.erase k } : ObservableCell W T).states j =
      if j = k then none else c.states j := by
  simp only [states, OrderedMap.get?_erase]
  split <;> rfl

private theorem states_of_get? {s : Observer T} (live : c.streams.get? k = some s) :
    c.states k = some s.state := by
  rw [states, live, Option.map_some]

/-! ### What a call does -/

/-- All calls on handles need one. -/
inductive Stepped [BEq T] [Usize] (c : ObservableCell W T) :
    Op W T → ObservableCell W T → Res → Prop
  | set {value} (held : 0 < c.handles) : Stepped c (.set value) (c.set value) .done
  | subscribe (held : 0 < c.handles) : Stepped c .subscribe c.subscribe (.subscribed c.created)
  | pollNext {k waker c' r} (taken : c.pollNext k waker = some (c', r)) :
      Stepped c (.pollNext k waker) c' r
  | dropStream {k c' r} (taken : c.dropStream k = some (c', r)) : Stepped c (.dropStream k) c' r
  | upgrade (held : 0 < c.handles) :
      Stepped c .upgrade { c with handles := c.handles + 1 } .done
  | dropHandle (held : 0 < c.handles) : Stepped c .dropHandle c.dropHandle .done

theorem step_spec [BEq T] [Usize] {op : Op W T} {r : Res} (taken : c.step op = some (c', r)) :
    Stepped c op c' r := by
  cases op with
  | pollNext => exact .pollNext taken
  | dropStream => exact .dropStream taken
  | set | subscribe | upgrade | dropHandle =>
    simp only [step] at taken
    split at taken
    · cases taken
    next held =>
      cases taken
      constructor
      exact Nat.pos_of_ne_zero held

/-- A stream is polled: what it returns and what it leaves. -/
theorem pollNext_spec (inv : c.Inv) {waker : W} {r : Res}
    (taken : c.pollNext k waker = some (c', r)) :
    ∃ s result event state, c.streams.get? k = some s ∧ r = .polled result ∧
      StreamPolled c.alive waker c.event s.state result event state ∧
      c' = { c with
        event := event
        streams := c.streams.insert k ⟨state, c.readAfter s result⟩ } := by
  unfold pollNext at taken
  split at taken
  · cases taken
  next s live =>
    split at taken
    · cases taken
    next result event state polled =>
      cases taken
      refine ⟨s, result, event, state, live, rfl, ?_, rfl⟩
      refine streamPoll_spec c.alive waker (fun id listening => ?_) polled
      exact inv.streams.present k id (by rw [states_of_get? live, listening])

section

variable {op : Op W T} {r : Res}

/-! ### The invariant -/

namespace Inv

theorem new (value : T) : (ObservableCell.new value : ObservableCell W T).Inv where
  streams := Streams.new
  opened := by simp [ObservableCell.new, Event.new]

theorem subscribe (inv : c.Inv) : c.subscribe.Inv where
  streams := by
    apply inv.streams.subscribe
    · exact states_insert.trans (if_pos rfl)
    · exact fun j other => states_insert.trans (if_neg other)
  opened := inv.opened

theorem pollNext {waker : W} (inv : c.Inv) (taken : c.pollNext k waker = some (c', r)) :
    c'.Inv := by
  obtain ⟨s, result, event, state, live, rfl, polled, rfl⟩ := pollNext_spec inv taken
  constructor
  · apply inv.streams.poll (states_of_get? live) polled
    · exact states_insert.trans (if_pos rfl)
    · exact fun j other => states_insert.trans (if_neg other)
  · rw [polled.closed]
    exact inv.opened

theorem dropStream (inv : c.Inv) (taken : c.dropStream k = some (c', r)) : c'.Inv := by
  unfold ObservableCell.dropStream at taken
  split at taken
  · cases taken
  next s live =>
    cases taken
    constructor
    · apply inv.streams.drop (states_of_get? live)
      · exact states_erase.trans (if_pos rfl)
      · exact fun j other => states_erase.trans (if_neg other)
    · rw [s.state.closed_drop]
      exact inv.opened

theorem step [BEq T] [Usize] (inv : c.Inv) (taken : c.step op = some (c', r)) : c'.Inv := by
  cases step_spec taken with
  | set =>
    unfold ObservableCell.set
    split
    · have kept := inv.streams.notify (.usize Usize.max)
      exact ⟨kept, by rw [Event.closed_notify]; exact inv.opened⟩
    · exact inv
  | subscribe => exact inv.subscribe
  | pollNext taken => exact inv.pollNext taken
  | dropStream taken => exact inv.dropStream taken
  | upgrade held => exact ⟨inv.streams, by simp [inv.opened.mpr held]⟩
  | dropHandle held =>
    unfold ObservableCell.dropHandle
    split
    · exact ⟨inv.streams.close, by simp [Event.drop_eq]⟩
    · exact ⟨inv.streams, by simp only [inv.opened.mpr held, true_iff]; omega⟩

end Inv

/-! ### What the observer of one stream has read -/

namespace UpToDate

/-- Streams and value stay, and no notification gets lost. -/
private theorem keep {event : Inner W Unit} {handles : Nat} (current : c.UpToDate k)
    (kept : ∀ state : StreamState, state.Unread c.event → state.Unread event) :
    ({ c with event := event, handles := handles } : ObservableCell W T).UpToDate k :=
  fun s live going sleeps => current s live going fun unread => sleeps (kept s.state unread)

theorem set [BEq T] [Usize] {value : T} (current : c.UpToDate k) (inv : c.Inv)
    (seen : ¬c.Misses k (.set value)) : (c.set value).UpToDate k := by
  unfold ObservableCell.set
  split
  next changed =>
    intro s found going sleeps
    have live : c.streams.get? k = some s := found
    cases listening : s.state with
    | done => exact absurd listening going
    | listening id =>
      -- every stream that listens is notified
      refine absurd ?_ sleeps
      rw [listening]
      exact inv.streams.unread_notify rfl (by rw [states_of_get? live, listening])
    | next =>
      have before := current s live going (by simp [listening, StreamState.Unread])
      rw [before]
      by_contra differs
      exact seen ⟨by rw [states_of_get? live, listening], value, rfl, changed, Ne.symm differs⟩
  · exact current

theorem subscribe (current : c.UpToDate k) (inv : c.Inv) : c.subscribe.UpToDate k := by
  intro s live going sleeps
  simp only [ObservableCell.subscribe, OrderedMap.get?_insert] at live
  split at live
  · -- the new stream's observer has just read
    cases live
    rfl
  · apply current s live going
    rintro ⟨id, listening, notified⟩
    have other := inv.streams.listener_ne (k := k) (by rw [states_of_get? live, listening])
    refine sleeps ⟨id, listening, ?_⟩
    simpa [ObservableCell.subscribe, Inner.listen, EventListener.isNotified,
      OrderedMap.get?_insert_of_ne _ _ other] using notified

theorem pollNext {j : Nat} {waker : W} (current : c.UpToDate k) (inv : c.Inv)
    (taken : c.pollNext j waker = some (c', r)) : c'.UpToDate k := by
  obtain ⟨s, result, event, state, live, rfl, polled, rfl⟩ := pollNext_spec inv taken
  intro t found going sleeps
  rw [OrderedMap.get?_insert] at found
  split at found
  next same =>
    subst same
    cases found
    generalize started : s.state = before at polled
    cases polled with
    | yields => rfl
    | waits empty =>
      apply current s live (by simp [started])
      rintro ⟨id, listening, notified⟩
      cases started.symm.trans listening
      simp [EventListener.isNotified, empty, ListenerEntry.isNotified] at notified
    | rearms => exact current s live (by simp [started]) (by simp [started, StreamState.Unread])
    | closes | abandons | ends | ended => exact absurd rfl going
  next differs =>
    exact current t found going fun unread => sleeps
      (inv.streams.unread_poll (states_of_get? live) polled differs (states_of_get? found) unread)

theorem dropStream {j : Nat} (current : c.UpToDate k) (inv : c.Inv)
    (taken : c.dropStream j = some (c', r)) : c'.UpToDate k := by
  unfold ObservableCell.dropStream at taken
  split at taken
  · cases taken
  next s live =>
    cases taken
    intro t found going sleeps
    rw [OrderedMap.get?_erase] at found
    split at found
    · cases found
    next differs =>
      exact current t found going fun unread => sleeps
        (inv.streams.unread_drop (states_of_get? live) differs (states_of_get? found) unread)

/-- Every call keeps an observer up to date, except for a set that its stream misses. -/
theorem step [BEq T] [Usize] (current : c.UpToDate k) (inv : c.Inv) (seen : ¬c.Misses k op)
    (taken : c.step op = some (c', r)) : c'.UpToDate k := by
  cases step_spec taken with
  | set => exact current.set inv seen
  | subscribe => exact current.subscribe inv
  | pollNext taken => exact current.pollNext inv taken
  | dropStream taken => exact current.dropStream inv taken
  | upgrade => exact current.keep fun _ unread => unread
  | dropHandle =>
    unfold ObservableCell.dropHandle
    split
    · exact current.keep fun _ unread => Streams.unread_close.mpr unread
    · exact current.keep fun _ unread => unread

end UpToDate

/-- After a poll that returns `Pending` the stream listens, without a notification. -/
theorem current_of_pending {waker : W} (inv : c.Inv)
    (taken : c.pollNext k waker = some (c', .polled .pending)) (current : c'.UpToDate k) :
    ∃ s, c'.streams.get? k = some s ∧ s.read = c'.get := by
  obtain ⟨s, result, event, state, live, ⟨⟩, polled, rfl⟩ := pollNext_spec inv taken
  refine ⟨_, OrderedMap.get?_insert_self _ _ _, ?_⟩
  apply current _ (OrderedMap.get?_insert_self _ _ _)
  · generalize s.state = before at polled
    cases polled <;> simp
  · rintro ⟨id, rfl, notified⟩
    simp [EventListener.isNotified, polled.listens.2, ListenerEntry.isNotified] at notified

variable [BEq T] [Usize]

/-- A stream that has missed a set goes to sleep at its next poll. -/
theorem stale_of_misses (inv : c.Inv) (current : c.UpToDate k) (misses : c.Misses k op)
    (taken : c.step op = some (c', r)) (waker : W) :
    ∃ s c'', c'.step (.pollNext k waker) = some (c'', .polled .pending) ∧
      c''.streams.get? k = some s ∧ s.read ≠ c''.get := by
  obtain ⟨yielded, value, rfl, changed, differs⟩ := misses
  obtain ⟨⟨state, read⟩, live, rfl⟩ := Option.map_eq_some_iff.mp yielded
  have before : read = c.value := current _ live (by simp) (by simp [StreamState.Unread])
  cases step_spec taken with
  | set held =>
    have opened : (Event.notify (.usize Usize.max) c.event).closed = false := by
      rw [Event.closed_notify]
      exact inv.opened.mpr held
    have replaced : c.set value = { c with
        value := value, event := Event.notify (.usize Usize.max) c.event } := by
      rw [ObservableCell.set, get, if_pos changed]
    -- the stream registers a listener and waits, although it has not seen the new value
    have polled : (c.set value).step (.pollNext k waker) = some ({ c.set value with
        event := (c.set value).event.register waker
        streams := (c.set value).streams.insert k ⟨.listening (c.set value).event.nextId, read⟩ },
        .polled .pending) := by
      simp only [step, ObservableCell.pollNext, replaced, live, streamPoll_next, alive, held,
        opened, decide_true, Bool.true_or, ite_true, Bool.false_eq_true, ite_false, readAfter]
    refine ⟨_, _, polled, OrderedMap.get?_insert_self _ _ _, ?_⟩
    rw [before, replaced]
    exact differs.symm

/-- Along a run in which the stream misses no set, its observer is up to date whenever the
stream returns `Pending`; the first set it misses is not noticed at the next poll. -/
theorem pending_is_current {value : T} {ts} (run : (machine value).Run ts c)
    (seen : ∀ t ∈ ts, ¬t.before.Misses k t.act) :
    (∀ t ∈ ts, ∀ waker, t.act = .pollNext k waker → t.out = .polled .pending →
      ∃ s, t.after.streams.get? k = some s ∧ s.read = t.after.get) ∧
    ∀ op c' r waker, c.Misses k op → c.step op = some (c', r) →
      ∃ s c'', c'.step (.pollNext k waker) = some (c'', .polled .pending) ∧
        c''.streams.get? k = some s ∧ s.read ≠ c''.get := by
  have reached : (∀ t ∈ ts, ¬t.before.Misses k t.act) → (c.Inv ∧ c.UpToDate k) ∧
      ∀ t ∈ ts, ∀ waker, t.act = .pollNext k waker → t.out = .polled .pending →
        ∃ s, t.after.streams.get? k = some s ∧ s.read = t.after.get := by
    refine run.history (P := fun ts c => (∀ t ∈ ts, ¬t.before.Misses k t.act) →
      (c.Inv ∧ c.UpToDate k) ∧ ∀ t ∈ ts, ∀ waker, t.act = .pollNext k waker →
        t.out = .polled .pending → ∃ s, t.after.streams.get? k = some s ∧ s.read = t.after.get)
      ?_ ?_
    · rintro _ rfl _
      exact ⟨⟨Inv.new value, fun s live => by simp [ObservableCell.new] at live⟩, by simp⟩
    · intro ts c op c' r earlier taken seen
      simp only [List.mem_append, List.mem_singleton, or_imp, forall_and, forall_eq] at seen ⊢
      obtain ⟨⟨inv, current⟩, polls⟩ := earlier seen.1
      have now := current.step inv seen.2 taken
      refine ⟨⟨inv.step taken, now⟩, polls, ?_⟩
      rintro waker rfl rfl
      exact current_of_pending inv taken now
  obtain ⟨⟨inv, current⟩, polls⟩ := reached seen
  exact ⟨polls, fun _ _ _ waker misses taken => stale_of_misses inv current misses taken waker⟩

end

/-- The value changes after the stream has yielded: its next poll returns `Pending`, and the
observer has read the old value. -/
theorem change_missed : ∃ ts, ∃ c : ObservableCell Nat Nat, (machine 0).Run ts c ∧
    ts.map Machine.Transition.act =
      [.subscribe, .set 1, .pollNext 0 7, .set 2, .pollNext 0 7] ∧
    ∃ t ∈ ts, t.act = .pollNext 0 7 ∧ t.out = .polled .pending ∧
      ∃ s ∈ t.after.streams.get? 0, s.read = 1 ∧ t.after.get = 2 := by
  exact Machine.exists_run (m := machine (W := Nat) 0)
    (P := fun ts _ => ∃ t ∈ ts, t.act = .pollNext 0 7 ∧ t.out = .polled .pending ∧
      ∃ s ∈ t.after.streams.get? 0, s.read = 1 ∧ t.after.get = 2)
    [.subscribe, .set 1, .pollNext 0 7, .set 2, .pollNext 0 7] rfl (by decide)

/-- A stream that is polled again before the next change sees every one. -/
theorem changes_seen : ∃ ts, ∃ c : ObservableCell Nat Nat, (machine 0).Run ts c ∧
    ts.map Machine.Transition.act = [.subscribe, .set 1, .pollNext 0 7, .pollNext 0 7, .set 2,
      .pollNext 0 7, .pollNext 0 7] ∧
    ∃ t ∈ ts, t.act = .pollNext 0 7 ∧ t.out = .polled .pending ∧ t.after.get = 2 ∧
      ∃ s, t.after.streams.get? 0 = some s ∧ s.read = t.after.get := by
  obtain ⟨ts, c, run, acts, polls, t, member, act, out, value⟩ := Machine.exists_run
    (m := machine (W := Nat) 0)
    (P := fun ts _ => (∀ t ∈ ts, t.before.states 0 = some .next → t.act = .pollNext 0 7) ∧
      ∃ t ∈ ts, t.act = .pollNext 0 7 ∧ t.out = .polled .pending ∧ t.after.get = 2)
    [.subscribe, .set 1, .pollNext 0 7, .pollNext 0 7, .set 2, .pollNext 0 7, .pollNext 0 7]
    rfl (by decide)
  have seen : ∀ t ∈ ts, ¬t.before.Misses 0 t.act := by
    rintro t member ⟨yielded, value, set, _⟩
    rw [polls t member yielded] at set
    cases set
  exact ⟨ts, c, run, acts, t, member, act, out, value,
    (pending_is_current run seen).1 t member 7 act out⟩

end Eneste.ObservableCell
