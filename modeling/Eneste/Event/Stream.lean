import Eneste.Library.Loop
import Eneste.Event.WaitLoop

/-!
# Streams of notifications

`EventStream` and `EmitterStream` run one loop: poll the listener; once it has
yielded, register the next one. They differ in what their weak reference upgrades.
-/

namespace Eneste

/-- `EventStreamState` and `EmitterStreamState`. -/
inductive StreamState where
  | listening (listener : Nat)
  | next
  | done
  deriving DecidableEq

def StreamState.listener : StreamState → Option Nat
  | .listening listener => some listener
  | _ => none

variable {W T : Type} (alive : Bool) (waker : W)

/-- One turn of the loop; `alive` is whether the weak reference can be upgraded. -/
def streamTurn :
    Inner W T × StreamState → Option (LoopTurn (Inner W T × StreamState) (Poll (Option T)))
  | (inner, .listening listener) =>
    match EventListener.poll listener waker inner with
    | none => none
    | some (.ready data, inner) =>
      -- leaving `Listening` drops the listener
      some (.done (.ready (some data)) (EventListener.drop listener inner, .next))
    | some (.pending, inner) =>
      if EventListener.isClosed inner then
        some (.again (EventListener.drop listener inner, .done))
      else some (.done .pending (inner, .listening listener))
  | (inner, .next) =>
    if alive then
      let (id, inner) := inner.listen
      some (.again (inner, .listening id))
    else some (.again (inner, .done))
  | (inner, .done) => some (.done (.ready none) (inner, .done))

/-- `poll_next`. Four turns are enough: see `streamPoll_next`. -/
def streamPoll (inner : Inner W T) (state : StreamState) :
    Option (Poll (Option T) × (Inner W T × StreamState)) :=
  LoopTurn.loop (streamTurn alive waker) 4 (inner, state)

theorem streamPoll_done (inner : Inner W T) :
    streamPoll alive waker inner .done = some (.ready none, (inner, .done)) := rfl

/-- A notified stream yields the value. -/
theorem streamPoll_notified {inner : Inner W T} {id : Nat} {old : Option W} {data : T}
    (found : inner.listeners.get? id = some ⟨old, some data⟩) :
    streamPoll alive waker inner (.listening id) =
      some (.ready (some data), (inner.consume id, .next)) := by
  obtain ⟨polled, ready, dropped⟩ := EventListener.poll_notified waker found
  apply LoopTurn.loop_done
  simp only [streamTurn, ready, dropped]

private theorem loop_asleep {inner : Inner W T} {id : Nat} {old : Option W} (turns : Nat)
    (found : inner.listeners.get? id = some ⟨old, none⟩) :
    LoopTurn.loop (streamTurn alive waker) (turns + 2) (inner, .listening id) =
      if inner.closed then some (.ready none, (inner.forget id, .done))
      else some (.pending, (inner.await id waker, .listening id)) := by
  have polled := EventListener.poll_waiting waker found
  have same : (inner.await id waker).closed = inner.closed := rfl
  cases closed : inner.closed with
  | true =>
    have emptied : EventListener.drop id (inner.await id waker) = inner.forget id := by
      have stored : (inner.await id waker).listeners.get? id = some ⟨some waker, none⟩ := by
        simp [Inner.await]
      rw [EventListener.drop_waiting stored]
      simp [Inner.forget, Inner.await]
    -- a closed event: the listener goes and the next turn reports the end
    rw [LoopTurn.loop_again (t := (inner.forget id, .done))]
    · rfl
    · simp only [streamTurn, polled, EventListener.isClosed, same, closed, ite_true, emptied]
  | false =>
    -- the waker is stored and the stream keeps listening
    apply LoopTurn.loop_done
    simp [streamTurn, polled, EventListener.isClosed, same, closed]

/-- A stream that is not notified waits, unless the event has been dropped. -/
theorem streamPoll_asleep {inner : Inner W T} {id : Nat} {old : Option W}
    (found : inner.listeners.get? id = some ⟨old, none⟩) :
    streamPoll alive waker inner (.listening id) =
      if inner.closed then some (.ready none, (inner.forget id, .done))
      else some (.pending, (inner.await id waker, .listening id)) :=
  loop_asleep alive waker 2 found

/-- A stream that has yielded registers its next listener. -/
theorem streamPoll_next (inner : Inner W T) :
    streamPoll alive waker inner .next =
      if alive then
        if inner.closed then
          some (.ready none, ({ inner with
            nextId := inner.nextId + 1
            listeners := inner.listeners.erase inner.nextId }, .done))
        else some (.pending, (inner.register waker, .listening inner.nextId))
      else some (.ready none, (inner, .done)) := by
  cases alive with
  | false => rfl
  | true =>
    have found : inner.listen.2.listeners.get? inner.nextId = some ⟨none, none⟩ := by
      simp [Inner.listen]
    -- one turn registers the listener, the next polls it
    rw [streamPoll, LoopTurn.loop_again (t := (inner.listen.2, .listening inner.nextId)) rfl,
      loop_asleep true waker 1 found]
    simp [Inner.listen, Inner.forget, Inner.await, Inner.register]

/-- A stream that listens on a listener of the event is polled without a panic. -/
theorem streamPoll_ne_none {inner : Inner W T} {state : StreamState}
    (present : ∀ id, state = .listening id → ∃ entry, inner.listeners.get? id = some entry) :
    streamPoll alive waker inner state ≠ none := by
  cases state with
  | done => simp [streamPoll_done]
  | next =>
    rw [streamPoll_next]
    split
    · split <;> simp
    · simp
  | listening id =>
    obtain ⟨⟨old, value⟩, found⟩ := present id rfl
    cases value with
    | some data => simp [streamPoll_notified alive waker found]
    | none =>
      rw [streamPoll_asleep alive waker found]
      split <;> simp

/-- The outcomes of one poll: the result, and the event and the state it leaves. -/
inductive StreamPolled (inner : Inner W T) :
    StreamState → Poll (Option T) → Inner W T → StreamState → Prop
  | yields {id old data} (found : inner.listeners.get? id = some ⟨old, some data⟩) :
      StreamPolled inner (.listening id) (.ready (some data)) (inner.consume id) .next
  | waits {id old} (found : inner.listeners.get? id = some ⟨old, none⟩)
      (opened : inner.closed = false) :
      StreamPolled inner (.listening id) .pending (inner.await id waker) (.listening id)
  | closes {id old} (found : inner.listeners.get? id = some ⟨old, none⟩)
      (closed : inner.closed = true) :
      StreamPolled inner (.listening id) (.ready none) (inner.forget id) .done
  | rearms (upgraded : alive = true) (opened : inner.closed = false) :
      StreamPolled inner .next .pending (inner.register waker) (.listening inner.nextId)
  | abandons (upgraded : alive = true) (closed : inner.closed = true) :
      StreamPolled inner .next (.ready none)
        { inner with
          nextId := inner.nextId + 1
          listeners := inner.listeners.erase inner.nextId } .done
  | ends (gone : alive = false) : StreamPolled inner .next (.ready none) inner .done
  | ended : StreamPolled inner .done (.ready none) inner .done

theorem streamPoll_spec {inner inner' : Inner W T} {state state' : StreamState}
    {result : Poll (Option T)}
    (present : ∀ id, state = .listening id → ∃ entry, inner.listeners.get? id = some entry)
    (polled : streamPoll alive waker inner state = some (result, (inner', state'))) :
    StreamPolled alive waker inner state result inner' state' := by
  cases state with
  | done =>
    rw [streamPoll_done] at polled
    cases polled
    exact .ended
  | next =>
    rw [streamPoll_next] at polled
    split at polled
    next upgraded =>
      split at polled
      next closed =>
        cases polled
        exact .abandons upgraded closed
      next opened =>
        cases polled
        exact .rearms upgraded (by simpa using opened)
    next gone =>
      cases polled
      exact .ends (by simpa using gone)
  | listening id =>
    obtain ⟨⟨old, value⟩, found⟩ := present id rfl
    cases value with
    | some data =>
      rw [streamPoll_notified alive waker found] at polled
      cases polled
      exact .yields found
    | none =>
      rw [streamPoll_asleep alive waker found] at polled
      split at polled
      next closed =>
        cases polled
        exact .closes found closed
      next opened =>
        cases polled
        exact .waits found (by simpa using opened)

namespace StreamPolled

variable {alive : Bool} {waker : W} {inner inner' : Inner W T} {state state' : StreamState}
  {result : Poll (Option T)}

theorem wf (polled : StreamPolled alive waker inner state result inner' state')
    (kept : inner.WF) : inner'.WF := by
  cases polled with
  | @yields id _ _ found => exact kept.consume id found rfl
  | @waits id _ found => exact kept.await id waker found rfl
  | @closes id _ found => exact kept.forget id found rfl
  | rearms => exact kept.register waker
  | abandons =>
    -- the listener it registered is gone again; only its id is used up
    rw [OrderedMap.erase_of_get?_none _ kept.fresh]
    exact ⟨fun id member => (kept.below id member).trans (Nat.lt_succ_self _), kept.counted,
      kept.asleep⟩
  | ends | ended => exact kept

theorem closed (polled : StreamPolled alive waker inner state result inner' state') :
    inner'.closed = inner.closed := by
  cases polled <;> rfl

/-- A poll wakes nobody. -/
theorem woken (polled : StreamPolled alive waker inner state result inner' state') :
    inner'.woken = inner.woken := by
  cases polled <;> rfl

/-- A poll leaves the other listeners alone. -/
theorem frame (polled : StreamPolled alive waker inner state result inner' state')
    (wf : inner.WF) {id : Nat} {entry : ListenerEntry W T}
    (found : inner.listeners.get? id = some entry) (other : state ≠ .listening id) :
    inner'.listeners.get? id = inner.listeners.get? id := by
  have fresh : id ≠ inner.nextId := by
    rintro rfl
    rw [wf.fresh] at found
    cases found
  cases polled with
  | @yields j | @closes j =>
    have differs : id ≠ j := fun same => other (same ▸ rfl)
    exact OrderedMap.get?_erase_of_ne _ differs
  | @waits j =>
    have differs : id ≠ j := fun same => other (same ▸ rfl)
    exact OrderedMap.get?_insert_of_ne _ _ differs
  | rearms => exact OrderedMap.get?_insert_of_ne _ _ fresh
  | abandons => exact OrderedMap.get?_erase_of_ne _ fresh
  | ends | ended => rfl

/-- Whichever listener is there after a poll was there before, or is the stream's own. -/
theorem mem_keys {id : Nat}
    (polled : StreamPolled alive waker inner state result inner' state')
    (member : id ∈ inner'.listeners.keys) :
    state' = .listening id ∨ id ∈ inner.listeners.keys ∧ state ≠ .listening id := by
  cases polled with
  | @yields j | @closes j =>
    obtain ⟨differs, before⟩ := (OrderedMap.mem_keys_erase _ _ _).mp member
    exact .inr ⟨before, by simp [Ne.symm differs]⟩
  | @waits j =>
    rcases (OrderedMap.mem_keys_insert _ _ _ _).mp member with same | before
    · exact .inl (by rw [same])
    · by_cases same : id = j
      · exact .inl (by rw [same])
      · exact .inr ⟨before, by simp [Ne.symm same]⟩
  | rearms =>
    rcases (OrderedMap.mem_keys_insert _ _ _ _).mp member with same | before
    · exact .inl (by rw [same])
    · exact .inr ⟨before, by simp⟩
  | abandons => exact .inr ⟨((OrderedMap.mem_keys_erase _ _ _).mp member).2, by simp⟩
  | ends | ended => exact .inr ⟨member, by simp⟩

/-- A stream that listens after a poll has an empty listener: its own or a fresh one. -/
theorem listens {id : Nat}
    (polled : StreamPolled alive waker inner state result inner' (.listening id)) :
    (state = .listening id ∨ id = inner.nextId) ∧
      inner'.listeners.get? id = some ⟨some waker, none⟩ := by
  cases polled with
  | waits => exact ⟨.inl rfl, by simp [Inner.await]⟩
  | rearms => exact ⟨.inr rfl, by simp [Inner.register]⟩

end StreamPolled

end Eneste
