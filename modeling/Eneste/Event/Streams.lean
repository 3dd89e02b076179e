import Eneste.Event.Stream
import Eneste.Event.Waiters

/-!
# The streams of an event

Several streams on one event, in any order of polls and drops. Each that listens has a
listener of its own, and what happens to one stream takes no notification away from
another that has not yielded it yet.
-/

namespace Eneste

variable {W T κ : Type}

/-- Drop a stream: its listener goes with it. -/
def StreamState.drop (state : StreamState) (inner : Inner W T) : Inner W T :=
  match state.listener with
  | none => inner
  | some listener => EventListener.drop listener inner

theorem StreamState.closed_drop (state : StreamState) (inner : Inner W T) :
    (state.drop inner).closed = inner.closed := by
  cases state with
  | listening id => exact EventListener.closed_drop id inner
  | next | done => rfl

/-- The value stored for a stream that listens. -/
def StreamState.stored (inner : Inner W T) (state : StreamState) : Option T :=
  state.listener.bind fun id => (inner.listeners.get? id).bind ListenerEntry.value

/-- The stream has been notified and has not yielded since. -/
def StreamState.Unread (inner : Inner W T) (state : StreamState) : Prop :=
  ∃ id, state = .listening id ∧ EventListener.isNotified id inner = true

/-- The streams `k` with `states k = some state`. -/
structure Streams (inner : Inner W T) (states : κ → Option StreamState) : Prop where
  wf : inner.WF
  present : ∀ k id, states k = some (.listening id) →
    ∃ entry, inner.listeners.get? id = some entry
  distinct : ∀ k j id, states k = some (.listening id) → states j = some (.listening id) → k = j

namespace Streams

variable {inner inner' : Inner W T} {states states' : κ → Option StreamState}

theorem new : Streams (Event.new : Inner W T) fun _ : κ => none where
  wf := Inner.WF.new
  present := by simp
  distinct := by simp

theorem listener_ne (streams : Streams inner states) {k : κ} {id : Nat}
    (listening : states k = some (.listening id)) : id ≠ inner.nextId := by
  rintro rfl
  obtain ⟨entry, found⟩ := streams.present k _ listening
  rw [streams.wf.fresh] at found
  cases found

/-- The stream `k` is new or goes on, on its own listener or on the next one. -/
private theorem replace (streams : Streams inner states) {k : κ} {state : StreamState}
    (wf : inner'.WF) (here : states' k = some state) (others : ∀ j, j ≠ k → states' j = states j)
    (listener : ∀ id, state = .listening id →
      (states k = some (.listening id) ∨ id = inner.nextId) ∧
        ∃ entry, inner'.listeners.get? id = some entry)
    (same : ∀ j id, j ≠ k → states j = some (.listening id) →
      inner'.listeners.get? id = inner.listeners.get? id) : Streams inner' states' where
  wf := wf
  present j id listening := by
    by_cases this : j = k
    · subst this
      exact (listener id (Option.some.inj (here.symm.trans listening))).2
    · have before := (others j this).symm.trans listening
      obtain ⟨entry, found⟩ := streams.present j id before
      exact ⟨entry, (same j id this before).trans found⟩
  distinct i j id first second := by
    -- the listener of `k` is nobody else's
    have owned : ∀ j, j ≠ k → states' k = some (.listening id) →
        states' j = some (.listening id) → False := by
      intro j other listening hears
      have before := (others j other).symm.trans hears
      rcases (listener id (Option.some.inj (here.symm.trans listening))).1 with old | fresh
      · exact other (streams.distinct j k id before old)
      · exact streams.listener_ne before fresh
    by_cases left : i = k <;> by_cases right : j = k
    · rw [left, right]
    · exact (owned j right (left ▸ first) second).elim
    · exact (owned i left (right ▸ second) first).elim
    · exact streams.distinct i j id ((others i left).symm.trans first)
        ((others j right).symm.trans second)

theorem subscribe (streams : Streams inner states) {k : κ}
    (here : states' k = some (.listening inner.nextId))
    (others : ∀ j, j ≠ k → states' j = states j) : Streams inner.listen.2 states' := by
  apply streams.replace streams.wf.listen here others
  · rintro _ ⟨⟩
    exact ⟨.inr rfl, ⟨none, none⟩, by simp [Inner.listen]⟩
  · intro j id _ listening
    simp [Inner.listen, OrderedMap.get?_insert_of_ne _ _ (streams.listener_ne listening)]

theorem poll (streams : Streams inner states) {alive : Bool} {waker : W} {k : κ}
    {state state' : StreamState} {result : Poll (Option T)} (live : states k = some state)
    (polled : StreamPolled alive waker inner state result inner' state')
    (here : states' k = some state') (others : ∀ j, j ≠ k → states' j = states j) :
    Streams inner' states' := by
  apply streams.replace (polled.wf streams.wf) here others
  · rintro id rfl
    obtain ⟨own, stored⟩ := polled.listens
    exact ⟨own.imp_left fun same => live.trans (congrArg some same), _, stored⟩
  · intro j id other listening
    obtain ⟨entry, found⟩ := streams.present j id listening
    exact polled.frame streams.wf found fun same =>
      other (streams.distinct j k id listening (same ▸ live))

/-- An operation of the event itself. -/
private theorem keep (streams : Streams inner states) (wf : inner'.WF)
    (keys : inner'.listeners.keys = inner.listeners.keys) : Streams inner' states where
  wf := wf
  present k id listening := by
    have found := streams.present k id listening
    rw [← OrderedMap.mem_keys_iff] at found ⊢
    exact keys ▸ found
  distinct := streams.distinct

theorem notify [Usize] (streams : Streams inner states) (n : Notification T) :
    Streams (Event.notify n inner) states :=
  streams.keep (streams.wf.notify n) (Event.keys_notify n inner)

theorem close (streams : Streams inner states) : Streams (Event.drop inner) states :=
  streams.keep streams.wf.close (Event.keys_drop inner)

theorem drop (streams : Streams inner states) {k : κ} {state : StreamState}
    (live : states k = some state) (gone : states' k = none)
    (others : ∀ j, j ≠ k → states' j = states j) : Streams (state.drop inner) states' := by
  have still : ∀ j id, states' j = some (.listening id) →
      j ≠ k ∧ states j = some (.listening id) := by
    intro j id listening
    have other : j ≠ k := by
      rintro rfl
      rw [gone] at listening
      cases listening
    exact ⟨other, (others j other).symm.trans listening⟩
  refine ⟨?_, fun j id listening => ?_, fun i j id first second =>
    streams.distinct i j id (still i id first).2 (still j id second).2⟩
  · cases state with
    | listening id => exact streams.wf.drop id
    | next | done => exact streams.wf
  · obtain ⟨other, before⟩ := still j id listening
    have found := streams.present j id before
    cases state with
    | listening own =>
      exact EventListener.present_drop streams.wf
        (fun same => other (streams.distinct j k id before (same ▸ live))) found
    | next | done => exact found

/-! ### What a stream has not yielded yet -/

theorem unread_drop (streams : Streams inner states) {k j : κ} {state other : StreamState}
    (live : states k = some state) (apart : j ≠ k) (found : states j = some other)
    (unread : other.Unread inner) : other.Unread (state.drop inner) := by
  obtain ⟨id, rfl, notified⟩ := unread
  refine ⟨id, rfl, ?_⟩
  cases state with
  | listening own =>
    have differs : id ≠ own := fun same =>
      apart (streams.distinct j k id found (same ▸ live))
    exact (EventListener.isNotified_drop streams.wf differs).mpr (.inl notified)
  | next | done => exact notified

theorem unread_close {state : StreamState} :
    state.Unread (Event.drop inner) ↔ state.Unread inner := by
  simp only [StreamState.Unread, EventListener.isNotified_close]

/-- A notification of everybody reaches every stream that listens. -/
theorem unread_notify [Usize] (streams : Streams inner states) {n : Notification T}
    (everybody : n.count = Usize.max) {k : κ} {id : Nat}
    (listening : states k = some (.listening id)) :
    (StreamState.listening id).Unread (Event.notify n inner) := by
  obtain ⟨entry, found⟩ := streams.present k id listening
  exact ⟨id, rfl, EventListener.isNotified_notify_all streams.wf everybody found⟩

/-- The polls of one stream leave the notification of another one unread. -/
theorem unread_poll (streams : Streams inner states) {alive : Bool} {waker : W} {k j : κ}
    {state state' other : StreamState} {result : Poll (Option T)} (live : states k = some state)
    (polled : StreamPolled alive waker inner state result inner' state')
    (apart : j ≠ k) (found : states j = some other) (unread : other.Unread inner) :
    other.Unread inner' := by
  obtain ⟨id, rfl, notified⟩ := unread
  obtain ⟨entry, stored⟩ := streams.present j id found
  have same := polled.frame streams.wf stored fun same =>
    apart (streams.distinct j k id found (same ▸ live))
  exact ⟨id, rfl, by rwa [EventListener.isNotified, same]⟩

end Streams

/-! ### The account of a stream -/

/-- Whether the stream will yield. -/
def StreamState.isUnread (inner : Inner W T) : StreamState → Bool
  | .listening id => EventListener.isNotified id inner
  | _ => false

def StreamState.isWaiting (inner : Inner W T) : StreamState → Bool
  | .listening id => !EventListener.isNotified id inner
  | _ => false

def Poll.yields : Poll (Option T) → Bool
  | .ready (some _) => true
  | _ => false

/-- A stream yields what it was told, once. -/
theorem StreamPolled.account {alive : Bool} {waker : W} {inner inner' : Inner W T}
    {state state' : StreamState} {result : Poll (Option T)}
    (polled : StreamPolled alive waker inner state result inner' state') :
    result.yields.toNat + (state'.isUnread inner').toNat = (state.isUnread inner).toNat := by
  cases polled with
  | yields found | waits found | closes found =>
    simp [Poll.yields, StreamState.isUnread, EventListener.isNotified, ListenerEntry.isNotified,
      Inner.await, found]
  | rearms =>
    simp [Poll.yields, StreamState.isUnread, EventListener.isNotified, ListenerEntry.isNotified,
      Inner.register]
  | abandons | ends | ended => simp [Poll.yields, StreamState.isUnread]

namespace Streams

variable {inner inner' : Inner W T} {states : κ → Option StreamState} {k j : κ}
  {state other : StreamState}

theorem isUnread_listen (streams : Streams inner states) (live : states k = some state) :
    state.isUnread inner.listen.2 = state.isUnread inner := by
  cases state with
  | listening id =>
    simp [StreamState.isUnread, EventListener.isNotified, Inner.listen,
      OrderedMap.get?_insert_of_ne _ _ (streams.listener_ne live)]
  | next | done => rfl

theorem isUnread_poll (streams : Streams inner states) {alive : Bool} {waker : W}
    {state' : StreamState} {result : Poll (Option T)} (live : states k = some state)
    (polled : StreamPolled alive waker inner state result inner' state') (apart : j ≠ k)
    (found : states j = some other) : other.isUnread inner' = other.isUnread inner := by
  cases other with
  | listening id =>
    obtain ⟨entry, stored⟩ := streams.present j id found
    have same := polled.frame streams.wf stored fun same =>
      apart (streams.distinct j k id found (same ▸ live))
    simp [StreamState.isUnread, EventListener.isNotified, same]
  | next | done => rfl

/-- A notification of everybody tells each stream that waits. -/
theorem isUnread_notify [Usize] (streams : Streams inner states) {n : Notification T}
    (everybody : n.count = Usize.max) (live : states k = some state) :
    (state.isUnread (Event.notify n inner)).toNat =
      (state.isUnread inner).toNat + (state.isWaiting inner).toNat := by
  cases state with
  | listening id =>
    obtain ⟨entry, stored⟩ := streams.present k id live
    simp only [StreamState.isUnread, StreamState.isWaiting,
      EventListener.isNotified_notify_all streams.wf everybody stored]
    cases EventListener.isNotified id inner <;> rfl
  | next | done => rfl

theorem isUnread_close : state.isUnread (Event.drop inner) = state.isUnread inner := by
  cases state with
  | listening id => exact EventListener.isNotified_close id inner
  | next | done => rfl

/-- A stream that goes unread tells the first one that waits. -/
theorem isUnread_drop (streams : Streams inner states) (live : states k = some state)
    (apart : j ≠ k) (found : states j = some other) :
    (other.isUnread (state.drop inner)).toNat = (other.isUnread inner).toNat +
      (state.isUnread inner && other.isWaiting inner &&
        inner.waiting.head? == other.listener).toNat := by
  cases other with
  | next | done => simp [StreamState.isUnread, StreamState.isWaiting]
  | listening id =>
    cases state with
    | next | done => simp [StreamState.isUnread, StreamState.drop, StreamState.listener]
    | listening own =>
      have differs : id ≠ own := fun same => apart (streams.distinct j k id found (same ▸ live))
      have handed := EventListener.isNotified_drop streams.wf differs
      simp only [StreamState.isUnread, StreamState.isWaiting, StreamState.drop,
        StreamState.listener]
      cases now : EventListener.isNotified id inner with
      | true => simp [handed.mpr (.inl now)]
      | false =>
        have told : EventListener.isNotified id (EventListener.drop own inner) =
            (EventListener.isNotified own inner && inner.waiting.head? == some id) := by
          rw [Bool.eq_iff_iff, handed]
          simp [now]
        simp [told]

end Streams

end Eneste
