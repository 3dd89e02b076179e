import Eneste.Emitter.Emitter
import Eneste.Event.Streams

/-!
# Mailboxes

What a subscriber of an emitter sees is a mailbox of its own with room for one value,
which keeps the first one. All subscribers share one map of listeners and its counter,
and listeners come and go with every yield: as long as no stream is dropped, nothing
of this shows.
-/

namespace Eneste

variable {W T : Type}

/-- A place for one value, which is open or not. -/
inductive Mailbox (T : Type) where
  | armed (stored : Option T)
  | disarmed
  deriving DecidableEq

namespace Mailbox

inductive Op (T : Type) where
  | emit (value : T)
  | poll
  deriving DecidableEq

def emit (value : T) : Mailbox T → Mailbox T
  | .armed none => .armed (some value)
  | mailbox => mailbox

def poll : Mailbox T → Mailbox T × Poll (Option T)
  | .armed (some value) => (.disarmed, .ready (some value))
  | .armed none | .disarmed => (.armed none, .pending)

/-- One operation, after some polls have been answered. -/
def next : Mailbox T × List (Poll (Option T)) → Op T → Mailbox T × List (Poll (Option T))
  | (mailbox, answers), .emit value => (mailbox.emit value, answers)
  | (mailbox, answers), .poll => (mailbox.poll.1, answers ++ [mailbox.poll.2])

/-- The mailbox after a subscription and some operations, and its answers to the polls. -/
def run (ops : List (Op T)) : Mailbox T × List (Poll (Option T)) :=
  ops.foldl next (.armed none, [])

theorem run_append (ops more : List (Op T)) : run (ops ++ more) = more.foldl next (run ops) :=
  List.foldl_append

end Mailbox

namespace Emitter

/-- The states of the streams, for `Streams`. -/
def states (m : Emitter W T) (k : Nat) : Option StreamState :=
  (m.streams.get? k).map Subscriber.state

/-- What is known of the streams however they are used. -/
structure Kept (m : Emitter W T) : Prop where
  streams : Streams m.event m.states
  named : ∀ k s, m.streams.get? k = some s → k < m.created
  opened : m.alive = true → m.event.closed = false

variable {m m' : Emitter W T}

theorem states_of_get? {k : Nat} {s : Subscriber T} (live : m.streams.get? k = some s) :
    m.states k = some s.state := by
  rw [states, live, Option.map_some]

/-- A poll of a stream is one of the outcomes of `streamPoll`. -/
theorem pollNext_spec {k : Nat} {waker : W} {r : Res T} (streams : Streams m.event m.states)
    (taken : m.pollNext k waker = some (m', r)) :
    ∃ s result event state, m.streams.get? k = some s ∧
      StreamPolled m.alive waker m.event s.state result event state ∧ r = .polled result ∧
      m' = { m with
        event := event
        streams := m.streams.insert k
          { s with state := state, received := s.received ++ yielded result } } := by
  unfold pollNext at taken
  split at taken
  · cases taken
  next s live =>
    split at taken
    · cases taken
    next result event state polled =>
      cases taken
      refine ⟨s, result, event, state, live, ?_, rfl, rfl⟩
      apply streamPoll_spec m.alive waker _ polled
      intro id listening
      exact streams.present k id (by rw [states_of_get? live, listening])

namespace Kept

theorem new : (Emitter.new : Emitter W T).Kept where
  streams := Streams.new
  named := by simp [Emitter.new]
  opened _ := rfl

/-- Whoever is replaced or added, names in use stay below the next one. -/
private theorem insert_named (kept : m.Kept) {k created : Nat} {s : Subscriber T}
    (known : k < created) (later : m.created ≤ created) :
    ∀ j t, (m.streams.insert k s).get? j = some t → j < created := by
  intro j t found
  rw [OrderedMap.get?_insert] at found
  split at found
  next same => exact same ▸ known
  next => exact (kept.named j t found).trans_le later

private theorem subscribe (kept : m.Kept) : m.subscribe.Kept where
  streams := by
    apply kept.streams.subscribe (k := m.created)
    · simp [states, Emitter.subscribe, Inner.listen]
    · intro j other
      simp [states, Emitter.subscribe, OrderedMap.get?_insert_of_ne _ _ other]
  named := kept.insert_named (Nat.lt_succ_self _) (Nat.le_succ _)
  opened := kept.opened

private theorem emit [Usize] (kept : m.Kept) (value : T) : (m.emit value).Kept where
  streams := kept.streams.notify ((Notification.usize Usize.max).with ⟨m.emitted.length, value⟩)
  named := kept.named
  opened alive := (Event.closed_notify _ _).trans (kept.opened alive)

private theorem pollNext {k : Nat} {waker : W} {r : Res T} (kept : m.Kept)
    (taken : m.pollNext k waker = some (m', r)) : m'.Kept := by
  obtain ⟨s, result, event, state, live, polled, _, rfl⟩ := pollNext_spec kept.streams taken
  refine ⟨?_, kept.insert_named (kept.named k s live) le_rfl,
    fun alive => polled.closed.trans (kept.opened alive)⟩
  apply kept.streams.poll (states_of_get? live) polled
  · simp [states]
  · intro j other
    simp [states, OrderedMap.get?_insert_of_ne _ _ other]

private theorem dropStream {k : Nat} {r : Res T} (kept : m.Kept)
    (taken : m.dropStream k = some (m', r)) : m'.Kept := by
  unfold Emitter.dropStream at taken
  split at taken
  · cases taken
  next s live =>
    cases taken
    have closed := s.state.closed_drop m.event
    refine ⟨?_, fun j t found => ?_, fun alive => closed.trans (kept.opened alive)⟩
    · apply kept.streams.drop (states_of_get? live)
      · simp [states]
      · intro j other
        simp [states, OrderedMap.get?_erase_of_ne _ other]
    · rw [OrderedMap.get?_erase] at found
      split at found
      · cases found
      · exact kept.named j t found

theorem step [Usize] {op : Op W T} {r : Res T} (kept : m.Kept)
    (taken : m.step op = some (m', r)) : m'.Kept := by
  cases op with
  | subscribe =>
    simp only [Emitter.step] at taken
    split at taken
    · cases taken
      exact kept.subscribe
    · cases taken
  | emit value =>
    simp only [Emitter.step] at taken
    split at taken
    · cases taken
      exact kept.emit value
    · cases taken
  | pollNext k waker => exact kept.pollNext taken
  | dropStream k => exact kept.dropStream taken
  | dropEmitter =>
    simp only [Emitter.step] at taken
    split at taken
    · cases taken
      exact ⟨kept.streams.close, kept.named, by simp⟩
    · cases taken

theorem of_run [Usize] {ts} (run : machine.Run ts m) : m.Kept := by
  refine run.invariant ?_ fun _ _ _ _ kept taken => kept.step taken
  rintro _ rfl
  exact Kept.new

end Kept

/-! ### The mailbox of a subscriber -/

/-- What the listener of a stream holds; a stream that has ended has no mailbox. -/
def mailboxOf (event : Inner W (Emission T)) (state : StreamState) : Option (Mailbox T) :=
  match state with
  | .listening _ => some (.armed ((state.stored event).map Emission.value))
  | .next => some .disarmed
  | .done => none

def mailbox (m : Emitter W T) (k : Nat) : Option (Mailbox T) :=
  (m.states k).bind (mailboxOf m.event)

/-- What some calls amount to for the mailbox of one stream. -/
def ops (k : Nat) (ts : List (Machine.Transition (Emitter W T) (Op W T) (Res T))) :
    List (Mailbox.Op T) :=
  ts.filterMap fun t =>
    match t.act with
    | .emit value => some (.emit value)
    | .pollNext stream _ => if stream = k then some .poll else none
    | _ => none

/-- An answer without the number of the emission. -/
def answer : Poll (Option (Emission T)) → Poll (Option T)
  | .ready result => .ready (result.map Emission.value)
  | .pending => .pending

/-- What the polls of one stream returned, in order. -/
def answers (k : Nat) (ts : List (Machine.Transition (Emitter W T) (Op W T) (Res T))) :
    List (Poll (Option T)) :=
  ts.filterMap fun t =>
    match t.act, t.out with
    | .pollNext stream _, .polled result => if stream = k then some (answer result) else none
    | _, _ => none

section

variable {k : Nat} {mb : Mailbox T}

/-- Only the state of the stream and its own entry matter. -/
private theorem mailbox_frame (same : m'.states k = m.states k)
    (entry : ∀ id, m.states k = some (.listening id) →
      m'.event.listeners.get? id = m.event.listeners.get? id) : m'.mailbox k = m.mailbox k := by
  rw [mailbox, mailbox, same]
  cases live : m.states k with
  | none => rfl
  | some state =>
    cases state with
    | listening id => simp [mailboxOf, StreamState.stored, StreamState.listener, entry id live]
    | next | done => rfl

/-- A new stream starts with an open mailbox. -/
private theorem mailbox_new [Usize] {op : Op W T} {r : Res T} (kept : m.Kept)
    (subscribes : r = .subscribed k) (taken : m.step op = some (m', r)) :
    m'.alive = true ∧ m'.mailbox k = some (.armed none) := by
  subst subscribes
  cases op with
  | subscribe =>
    simp only [step] at taken
    split at taken
    next alive =>
      cases taken
      refine ⟨alive, ?_⟩
      simp [mailbox, states, subscribe, mailboxOf, StreamState.stored, StreamState.listener,
        Inner.listen]
    next => cases taken
  | emit | dropEmitter =>
    simp only [step] at taken
    split at taken <;> cases taken
  | pollNext =>
    obtain ⟨_, _, _, _, _, _, polled, _⟩ := pollNext_spec kept.streams taken
    cases polled
  | dropStream =>
    simp only [step, dropStream] at taken
    split at taken <;> cases taken

private theorem mailbox_subscribe (kept : m.Kept) (here : m.mailbox k = some mb) :
    m.subscribe.mailbox k = some mb := by
  rw [← here]
  have old : k ≠ m.created := by
    rintro rfl
    cases live : m.streams.get? m.created with
    | none => simp [mailbox, states, live] at here
    | some s => exact absurd (kept.named _ s live) (lt_irrefl _)
  apply mailbox_frame
  · simp [states, subscribe, OrderedMap.get?_insert_of_ne _ _ old]
  · intro id listening
    exact OrderedMap.get?_insert_of_ne _ _ (kept.streams.listener_ne listening)

/-- An emission is stored by every mailbox that is armed and empty. -/
theorem mailbox_emit [Usize] (kept : m.Kept) (value : T) (here : m.mailbox k = some mb) :
    (m.emit value).mailbox k = some (mb.emit value) := by
  obtain ⟨state, live, holds⟩ := Option.bind_eq_some_iff.mp here
  have still : (m.emit value).states k = some state := live
  rw [mailbox, still, Option.bind_some]
  cases state with
  | next =>
    cases holds
    rfl
  | done => cases holds
  | listening id =>
    obtain ⟨entry, found⟩ := kept.streams.present k id live
    let emission := (Notification.usize Usize.max).with (⟨m.emitted.length, value⟩ : Emission T)
    have granted : (m.emit value).event = m.event.grant emission.tag m.event.waiting :=
      EventListener.notify_all kept.streams.wf (n := emission) rfl
    have waiting : id ∈ m.event.waiting ↔ entry.value = none := by
      simp [Inner.mem_waiting, found]
    have after : (StreamState.listening id).stored (m.emit value).event =
        if entry.value = none then some emission.tag else entry.value := by
      simp only [StreamState.stored, StreamState.listener, Option.bind_some, granted,
        Inner.get?_grant, waiting, found]
      split <;> simp
    have before : (StreamState.listening id).stored m.event = entry.value := by
      simp [StreamState.stored, StreamState.listener, found]
    simp only [mailboxOf, before, Option.some.injEq] at holds
    simp only [mailboxOf, after, ← holds]
    cases entry.value <;> rfl

/-- A poll of the stream is a poll of its mailbox. -/
private theorem mailbox_poll {event : Inner W (Emission T)} {state state' : StreamState}
    {waker : W} {result : Poll (Option (Emission T))} {event' : Inner W (Emission T)}
    (opened : event.closed = false) (holds : mailboxOf event state = some mb)
    (polled : StreamPolled true waker event state result event' state') :
    mailboxOf event' state' = some mb.poll.1 ∧ answer result = mb.poll.2 := by
  cases polled with
  | yields found =>
    simp only [mailboxOf, StreamState.stored, StreamState.listener, Option.bind_some, found,
      Option.some.injEq] at holds
    subst holds
    exact ⟨rfl, rfl⟩
  | waits found =>
    simp only [mailboxOf, StreamState.stored, StreamState.listener, Option.bind_some, found,
      Option.some.injEq] at holds
    subst holds
    simp [mailboxOf, StreamState.stored, StreamState.listener, Inner.await, Mailbox.poll, answer]
  | rearms =>
    cases holds
    simp [mailboxOf, StreamState.stored, StreamState.listener, Inner.register, Mailbox.poll, answer]
  | closes _ closed | abandons _ closed =>
    rw [opened] at closed
    cases closed
  | ends gone => cases gone
  | ended => cases holds

/-- The calls in question: no stream is dropped, nor the emitter. -/
def Op.keeps : Op W T → Bool
  | .dropStream _ | .dropEmitter => false
  | _ => true

/-- Each call is, for the mailbox of one stream, the operation it amounts to. -/
theorem mailbox_step [Usize] {op : Op W T} {r : Res T} (kept : m.Kept) (alive : m.alive = true)
    (here : m.mailbox k = some mb) (keeps : op.keeps = true)
    (taken : m.step op = some (m', r)) :
    m'.alive = true ∧ ∃ mb', m'.mailbox k = some mb' ∧ ∀ outs,
      (ops k [⟨m, op, r, m'⟩]).foldl Mailbox.next (mb, outs) =
        (mb', outs ++ answers k [⟨m, op, r, m'⟩]) := by
  cases op with
  | subscribe =>
    simp only [step, alive, ite_true, Option.some.injEq, Prod.mk.injEq] at taken
    obtain ⟨rfl, rfl⟩ := taken
    exact ⟨alive, mb, mailbox_subscribe kept here, by simp [ops, answers]⟩
  | emit value =>
    simp only [step, alive, ite_true, Option.some.injEq, Prod.mk.injEq] at taken
    obtain ⟨rfl, rfl⟩ := taken
    exact ⟨alive, _, mailbox_emit kept value here, by simp [ops, answers, Mailbox.next]⟩
  | pollNext j waker =>
    obtain ⟨s, result, event, state, live, polled, rfl, rfl⟩ := pollNext_spec kept.streams taken
    refine ⟨alive, ?_⟩
    by_cases this : j = k
    · subst this
      rw [mailbox, states_of_get? live, Option.bind_some] at here
      rw [alive] at polled
      obtain ⟨after, same⟩ := mailbox_poll (kept.opened alive) here polled
      refine ⟨mb.poll.1, by simp [mailbox, states, after], fun outs => ?_⟩
      simp [ops, answers, Mailbox.next, same]
    · refine ⟨mb, ?_, by simp [ops, answers, this]⟩
      rw [← here]
      apply mailbox_frame
      · simp [states, OrderedMap.get?_insert_of_ne _ _ (Ne.symm this)]
      · -- it listens on another listener than the polled stream
        intro id listening
        obtain ⟨entry, found⟩ := kept.streams.present k id listening
        apply polled.frame kept.streams.wf found
        intro same
        exact this (kept.streams.distinct j k id (by rw [states_of_get? live, same]) listening)
  | dropStream | dropEmitter => cases keeps

/-- Whatever the other subscribers do, the polls of a stream are answered as those of a
mailbox of its own would be. -/
theorem refines_mailboxes [Usize]
    {before later : List (Machine.Transition (Emitter W T) (Op W T) (Res T))}
    {t : Machine.Transition (Emitter W T) (Op W T) (Res T)}
    (run : machine.Run (before ++ t :: later) m) (subscribes : t.out = .subscribed k)
    (keep : ∀ u ∈ later, u.act.keeps = true) :
    answers k later = (Mailbox.run (ops k later)).2 := by
  have simulated : m.alive = true ∧ ∃ mb, m.mailbox k = some mb ∧
      Mailbox.run (ops k later) = (mb, answers k later) := by
    refine run.since (P := fun us m => (∀ u ∈ us, u.act.keeps = true) → m.alive = true ∧
      ∃ mb, m.mailbox k = some mb ∧ Mailbox.run (ops k us) = (mb, answers k us)) ?_ ?_ keep
    · intro prior taken _
      obtain ⟨alive, here⟩ := mailbox_new (Kept.of_run prior) subscribes taken
      exact ⟨alive, _, here, rfl⟩
    · intro us u prior ih taken only
      obtain ⟨alive, mb, here, same⟩ := ih fun v member => only v (List.mem_append_left _ member)
      obtain ⟨still, mb', after, step⟩ :=
        mailbox_step (Kept.of_run prior) alive here (only u (by simp)) taken
      refine ⟨still, mb', after, ?_⟩
      have splits : ops k (us ++ [u]) = ops k us ++ ops k [u] := List.filterMap_append
      have joins : answers k (us ++ [u]) = answers k us ++ answers k [u] := List.filterMap_append
      rw [splits, Mailbox.run_append, same, step, joins]
  obtain ⟨_, mb, _, same⟩ := simulated
  rw [same]

end

/-- Two subscribers: the first is polled after each emission, the second one misses the
emission made while it holds another. -/
theorem slow_subscriber_misses :
    ∃ before : List (Machine.Transition (Emitter Nat Nat) (Op Nat Nat) (Res Nat)), ∃ t later m,
    machine.Run (before ++ t :: later) m ∧
    before.map Machine.Transition.act = [.subscribe] ∧ t.act = .subscribe ∧
    later.map Machine.Transition.act = [.emit 7, .pollNext 0 1, .pollNext 0 1, .emit 8,
      .pollNext 0 1, .pollNext 1 2, .pollNext 1 2] ∧
    ops 1 later = [.emit 7, .emit 8, .poll, .poll] ∧
    answers 1 later = [.ready (some 7), .pending] := by
  obtain ⟨before, t, later, m, run, first, act, rest, subscribes, keep, same⟩ :=
    Machine.exists_run_at (m := machine (W := Nat) (T := Nat))
      (P := fun _ t later _ => t.out = .subscribed 1 ∧ (∀ u ∈ later, u.act.keeps = true) ∧
        ops 1 later = [.emit 7, .emit 8, .poll, .poll])
      [.subscribe] .subscribe [.emit 7, .pollNext 0 1, .pollNext 0 1, .emit 8, .pollNext 0 1,
        .pollNext 1 2, .pollNext 1 2] rfl (by decide)
  refine ⟨before, t, later, m, run, first, act, rest, same, ?_⟩
  rw [refines_mailboxes run subscribes keep, same]
  rfl

end Emitter

end Eneste
