import Eneste.Event.Handles

/-!
# The books of an event

The map of the event agrees with the handles that are alive, and its counter with the
map, in every state a program can reach. From the counter `notify` computes how many
listeners it is to notify: what it leaves is a matter of the listeners alone.
-/

namespace Eneste

variable {W T : Type}

/-- Every listener of the map was listened for. -/
theorem Inner.WF.size_le {inner : Inner W T} (wf : inner.WF) :
    inner.listeners.size ≤ inner.nextId := by
  have within : inner.listeners.keys ⊆ List.range inner.nextId := fun id member =>
    List.mem_range.mpr (wf.below id member)
  have fits := (inner.listeners.keys_nodup.subperm within).length_le
  simpa [OrderedMap.keys, OrderedMap.size] using fits

/-- A notified listener is counted. -/
theorem Inner.WF.notified_ne_zero {inner : Inner W T} (wf : inner.WF) {id : Nat}
    (notified : EventListener.isNotified id inner = true) : inner.notified ≠ 0 := by
  rw [wf.counted, ← Nat.pos_iff_ne_zero, OrderedMap.count_pos_iff]
  cases found : inner.listeners.get? id with
  | none => simp [EventListener.isNotified, found] at notified
  | some entry =>
    exact ⟨id, entry, found, by simpa [EventListener.isNotified, found] using notified⟩

namespace Handles

variable {h h' : Handles W T}

/-- The listeners that the live handles own. -/
def ids (h : Handles W T) : List Nat := h.live.entries.filterMap fun e => e.2.state.listener

theorem mem_ids (id : Nat) : id ∈ h.ids ↔ ∃ name, h.states name = some (.listening id) := by
  have listens : ∀ state : StreamState, state.listener = some id ↔ state = .listening id := by
    intro state
    cases state <;> simp [StreamState.listener]
  simp only [ids, states, List.mem_filterMap, Prod.exists, listens, Option.map_eq_some_iff,
    OrderedMap.get?_eq_some_iff]

/-- No two handles own the same listener. -/
theorem Inv.ids_nodup (inv : h.Inv) : h.ids.Nodup := by
  have names := List.pairwise_map.mp h.live.sorted
  rw [ids, List.Nodup, List.pairwise_filterMap]
  apply names.imp_of_mem
  intro a b first second ordered id heard other hears same
  subst same
  have owns : ∀ e ∈ h.live.entries, e.2.state.listener = some id →
      h.states e.1 = some (.listening id) := by
    intro e member listens
    rw [states_of_get? ((OrderedMap.get?_eq_some_iff _ _ _).mpr member)]
    cases state : e.2.state <;> simp_all [StreamState.listener]
  exact absurd (inv.streams.distinct _ _ _ (owns a first heard) (owns b second hears)) ordered.ne

theorem Inv.mem_keys_iff (inv : h.Inv) (id : Nat) : id ∈ h.inner.listeners.keys ↔ id ∈ h.ids := by
  rw [mem_ids]
  refine ⟨inv.covered id, fun ⟨name, listening⟩ => ?_⟩
  exact (OrderedMap.mem_keys_iff _ _).mpr (inv.streams.present name id listening)

/-! ### Listeners made so far -/

/-- How often a transition calls `Inner::listen`. -/
def listens (t : Machine.Transition (Handles W T) (Op W T) (Res T)) : Nat :=
  match t.act with
  | .listen | .stream | .subscribe => 1
  | .pollNext name _ =>
    match t.before.live.get? name with
    | some handle => if handle.state = .next ∧ t.before.upgrades handle = true then 1 else 0
    | none => 0
  | _ => 0

theorem Stepped.nextId {op : Op W T} {r : Res T} (stepped : Stepped h op h' r) :
    h'.inner.nextId = h.inner.nextId + listens ⟨h, op, r, h'⟩ := by
  cases stepped with
  | @attaches op _ alive hands =>
    cases op with
    | listen | stream | subscribe => rfl
    | _ => cases hands
  | @polls name waker handle result inner state make held wraps _ polled =>
    simp only [listens, held]
    generalize handle.state = before at polled
    cases polled <;> simp_all [Inner.consume, Inner.await, Inner.forget, Inner.register]
  | @drops name handle held =>
    cases state : handle.state with
    | listening id => simp [StreamState.drop, StreamState.listener, listens]
    | next | done => rfl
  | closes => simp [Event.drop_eq, listens]
  | _ => rfl

/-! ### The books -/

/-- What the map and the counter of an event say about its listeners. -/
structure Booked (h : Handles W T) : Prop where
  keys : h.inner.listeners.keys.Perm h.ids
  distinct : h.ids.Nodup
  below : ∀ id ∈ h.ids, id < h.inner.nextId
  counted : h.inner.notified = h.inner.listeners.count ListenerEntry.isNotified
  asleep : ∀ id entry, h.inner.listeners.get? id = some entry →
    entry.isNotified = true → entry.waker = none
  /-- `unreachable!` in `EventListener::poll` is not reached. -/
  polls : ∀ id ∈ h.ids, ∀ waker, EventListener.poll id waker h.inner ≠ none
  /-- Nor is it from the loop of a stream. -/
  streams : ∀ name handle waker, h.live.get? name = some handle →
    streamPoll (h.upgrades handle) waker h.inner handle.state ≠ none
  /-- Neither `drop` returns early on a notified listener nor does the subtraction of
  `poll` saturate. -/
  positive : ∀ id ∈ h.ids, EventListener.isNotified id h.inner = true → h.inner.notified ≠ 0

theorem Inv.booked (inv : h.Inv) : h.Booked where
  keys := (List.perm_ext_iff_of_nodup h.inner.listeners.keys_nodup inv.ids_nodup).mpr
    inv.mem_keys_iff
  distinct := inv.ids_nodup
  below id member := inv.streams.wf.below id ((inv.mem_keys_iff id).mpr member)
  counted := inv.streams.wf.counted
  asleep := inv.streams.wf.asleep
  polls id member waker := by
    obtain ⟨entry, found⟩ := (OrderedMap.mem_keys_iff _ _).mp ((inv.mem_keys_iff id).mpr member)
    simp only [EventListener.poll, found]
    split <;> simp
  streams name handle waker held := by
    apply streamPoll_ne_none
    intro id listening
    exact inv.streams.present name id (by rw [states_of_get? held, listening])
  positive id _ notified := inv.streams.wf.notified_ne_zero notified

section

variable [Usize] {ts : List (Machine.Transition (Handles W T) (Op W T) (Res T))}

/-- Ids are counted out one for each listener, and nothing counts further. -/
theorem nextId_eq (run : machine.Run ts h) : h.inner.nextId = (ts.map listens).sum := by
  have counts : h.Inv ∧ h.inner.nextId = (ts.map listens).sum := by
    apply run.history (P := fun ts h => h.Inv ∧ h.inner.nextId = (ts.map listens).sum)
    · rintro _ rfl
      exact ⟨Inv.new, rfl⟩
    · rintro ts h op h' r ⟨inv, counted⟩ taken
      have stepped := step_spec inv.streams taken
      refine ⟨inv.stepped stepped, ?_⟩
      rw [stepped.nextId, counted, List.map_append, List.sum_append]
      rfl
  exact counts.2

/-- The books are right in every state, and with fewer listeners than `usize` has values
neither `next_id` nor the counter overflows. -/
theorem bookkeeping (run : machine.Run ts h) :
    h.Booked ∧ h.inner.nextId = (ts.map listens).sum ∧ h.inner.notified ≤ (ts.map listens).sum := by
  have inv := Inv.of_run run
  have made := nextId_eq run
  have parts := inv.streams.wf.waiting_length
  have size := inv.streams.wf.size_le
  exact ⟨inv.booked, made, by omega⟩

end

/-- A listener hands its notification to a stream, which yields it and listens again. -/
theorem booked_after_hand_off : ∃ ts, ∃ h : Handles Nat Unit, machine.Run ts h ∧
    ts.map Machine.Transition.act = [.listen, .stream, .notify (.usize 1), .dropHandle 0,
      .pollNext 1 7, .pollNext 1 7] ∧
    h.Booked ∧ h.inner.nextId = 3 := by
  obtain ⟨ts, h, run, acts, sum⟩ := Machine.exists_run (m := machine (W := Nat) (T := Unit))
    (P := fun ts _ => (ts.map listens).sum = 3)
    [.listen, .stream, .notify (.usize 1), .dropHandle 0, .pollNext 1 7, .pollNext 1 7] rfl
    (by decide)
  have books := bookkeeping run
  exact ⟨ts, h, run, acts, books.1, books.2.1.trans sum⟩

/-! ### What a notification does -/

section

variable [Usize]

/-- How many of all listeners are notified after `notify(n)`, when some were before. -/
def quota (n : Notification T) (all before : Nat) : Nat :=
  if n.count = Usize.max then all
  else if n.isAdditional then min (before + n.count) all
  else max before (min n.count all)

/-- The first of the waiting listeners, as many as are missing, are notified. -/
theorem notify_eq_grant_quota {inner : Inner W T} (wf : inner.WF) (n : Notification T) :
    Event.notify n inner = inner.grant n.tag
      (inner.waiting.take (quota n inner.listeners.size inner.notified - inner.notified)) := by
  have parts := wf.waiting_length
  have loop : ∀ count, min count inner.waiting.length =
      min (quota n inner.listeners.size inner.notified - inner.notified) inner.waiting.length →
      Event.notifyLoop count n.tag inner = inner.grant n.tag
        (inner.waiting.take (quota n inner.listeners.size inner.notified - inner.notified)) := by
    intro count same
    rw [Event.notifyLoop_eq_grant, List.take_eq_take_iff.mpr same]
  unfold Event.notify
  split
  next additional =>
    apply loop
    simp only [quota, additional, ite_true]
    split <;> omega
  next plain =>
    apply loop
    simp only [quota, plain, ite_false, Bool.false_eq_true]
    split <;> omega

/-- `notify(n)` and `n.additional()` notify exactly as many as they say: the waiting
listeners that registered first, with the given tag, and nobody else is touched. -/
theorem notify_counts {ts : List (Machine.Transition (Handles W T) (Op W T) (Res T))}
    (run : machine.Run ts h) (n : Notification T) :
    let before := h.inner.listeners.count ListenerEntry.isNotified
    let all := h.inner.listeners.size
    let after := Event.notify n h.inner
    after.listeners.count ListenerEntry.isNotified = quota n all before ∧
      after.listeners.keys = h.inner.listeners.keys ∧
      ∃ chosen rest, h.inner.waiting = chosen ++ rest ∧ (∀ id ∈ chosen, ∀ j ∈ rest, id < j) ∧
        (∀ id, after.listeners.get? id =
          if id ∈ chosen then some ⟨none, some n.tag⟩ else h.inner.listeners.get? id) ∧
        after.woken = h.inner.woken ++
          chosen.filterMap fun id => (h.inner.listeners.get? id).bind ListenerEntry.waker := by
  intro before all after
  have wf := (Inv.of_run run).streams.wf
  have parts := wf.waiting_length
  -- the quota lies between those that are notified and all of them
  have reach : h.inner.notified ≤ quota n all h.inner.notified ∧
      quota n all h.inner.notified ≤ all := by
    unfold quota
    split
    · omega
    · split <;> omega
  have granted := notify_eq_grant_quota wf n
  generalize missing : quota n all h.inner.notified - h.inner.notified = count at granted
  have few : (h.inner.waiting.take count).length = count := by
    rw [List.length_take]
    omega
  have sorted : (h.inner.waiting.take count ++ h.inner.waiting.drop count).Pairwise (· < ·) := by
    rw [List.take_append_drop]
    exact h.inner.listeners.keysWith_sorted _
  refine ⟨?_, Event.keys_notify n h.inner, h.inner.waiting.take count, h.inner.waiting.drop count,
    (List.take_append_drop _ _).symm, (List.pairwise_append.mp sorted).2.2, fun id => ?_, ?_⟩
  · calc after.listeners.count ListenerEntry.isNotified
        = after.notified := (wf.notify n).counted.symm
      _ = h.inner.notified + count := by simp only [after, granted, Inner.grant, few]
      _ = quota n all before := by
          rw [← missing, Nat.add_sub_cancel' reach.1, wf.counted]
  · rw [show after = _ from granted, Inner.get?_grant]
    split
    next member =>
      obtain ⟨entry, found, _⟩ := (h.inner.mem_waiting id).mp (List.mem_of_mem_take member)
      rw [found, Option.map_some]
    next => rfl
  · simp only [after, granted, Inner.grant]

end

/-- One of three listeners is notified; an additional notification reaches a second one. -/
theorem notify_counts_additional : ∃ ts, ∃ h : Handles Nat Unit, machine.Run ts h ∧
    ts.map Machine.Transition.act = [.listen, .listen, .listen, .poll 1 7, .notify (.usize 1)] ∧
    (Event.notify (Notification.usize 1).additional h.inner).listeners.count
      ListenerEntry.isNotified = 2 := by
  obtain ⟨ts, h, run, acts, two⟩ := Machine.exists_run (m := machine (W := Nat) (T := Unit))
    (P := fun _ h => quota (Notification.usize 1).additional h.inner.listeners.size
      (h.inner.listeners.count ListenerEntry.isNotified) = 2)
    [.listen, .listen, .listen, .poll 1 7, .notify (.usize 1)] rfl (by decide)
  have counts := notify_counts run (Notification.usize 1).additional
  exact ⟨ts, h, run, acts, counts.1.trans two⟩

end Handles

end Eneste
