import Eneste.Event.Basic

/-!
# Laws of the event

Every way of notifying a listener is one operation, `Inner.grant`: the loop of
`notify` grants the first un-notified listeners, and dropping a notified
listener grants its tag to the first un-notified one. `Inner.WF` is the
bookkeeping all operations keep.
-/

namespace Eneste

variable {W T : Type}

/-- The ids of the listeners that are not notified, earliest registration first. -/
def Inner.waiting (inner : Inner W T) : List Nat :=
  inner.listeners.keysWith fun entry => !entry.isNotified

/-- Store a tag for the listeners `ids` and wake their wakers. -/
def Inner.grant (tag : T) (ids : List Nat) (inner : Inner W T) : Inner W T :=
  { inner with
    listeners := inner.listeners.overwrite ids { waker := none, value := some tag }
    notified := inner.notified + ids.length
    woken := inner.woken ++
      ids.filterMap fun id => (inner.listeners.get? id).bind ListenerEntry.waker }

/-- The listener was notified and its future polled: it is gone from the map. -/
def Inner.consume (id : Nat) (inner : Inner W T) : Inner W T :=
  { inner with listeners := inner.listeners.erase id, notified := inner.notified - 1 }

/-- The un-notified listener is gone from the map. -/
def Inner.forget (id : Nat) (inner : Inner W T) : Inner W T :=
  { inner with listeners := inner.listeners.erase id }

/-- The listener's notification is read, and the listener stays. -/
def Inner.read (id : Nat) (inner : Inner W T) : Inner W T :=
  { inner with
    listeners := inner.listeners.insert id { waker := none, value := none }
    notified := inner.notified - 1 }

/-- Whatever waker is stored for the listener, it is now `waker`. -/
def Inner.await (id : Nat) (waker : W) (inner : Inner W T) : Inner W T :=
  { inner with listeners := inner.listeners.insert id { waker := some waker, value := none } }

/-- A new listener that has been polled once. -/
def Inner.register (waker : W) (inner : Inner W T) : Inner W T :=
  { inner with
    nextId := inner.nextId + 1
    listeners := inner.listeners.insert inner.nextId { waker := some waker, value := none } }

/-- The listener has this waker and no notification. -/
def Inner.Registered (inner : Inner W T) (waker : W) (id : Nat) : Prop :=
  inner.listeners.get? id = some ⟨some waker, none⟩

theorem Inner.registered_await (inner : Inner W T) (waker : W) (id : Nat) :
    (inner.await id waker).Registered waker id := by
  simp [Inner.Registered, Inner.await]

theorem Inner.registered_register (inner : Inner W T) (waker : W) :
    (inner.register waker).Registered waker inner.nextId := by
  simp [Inner.Registered, Inner.register]

theorem Inner.Registered.silent {inner : Inner W T} {waker : W} {id : Nat}
    (registered : inner.Registered waker id) : EventListener.isNotified id inner = false := by
  unfold Inner.Registered at registered
  simp [EventListener.isNotified, registered, ListenerEntry.isNotified]

/-- The bookkeeping of an event: ids are fresh, the counter counts, and the stored
waker of a notified listener has been taken. -/
structure Inner.WF (inner : Inner W T) : Prop where
  below : ∀ id ∈ inner.listeners.keys, id < inner.nextId
  counted : inner.notified = inner.listeners.count ListenerEntry.isNotified
  asleep : ∀ id entry, inner.listeners.get? id = some entry →
    entry.isNotified = true → entry.waker = none

theorem Inner.mem_waiting (inner : Inner W T) (id : Nat) :
    id ∈ inner.waiting ↔ ∃ entry, inner.listeners.get? id = some entry ∧ entry.value = none := by
  simp [Inner.waiting, OrderedMap.mem_keysWith, ListenerEntry.isNotified]

theorem Inner.waiting_nodup (inner : Inner W T) : inner.waiting.Nodup :=
  inner.listeners.keysWith_nodup _

/-- A notified listener is not among the waiting ones. -/
theorem Inner.waiting_consume {inner : Inner W T} {id : Nat} {entry : ListenerEntry W T}
    (found : inner.listeners.get? id = some entry) (notified : entry.isNotified = true) :
    (inner.consume id).waiting = inner.waiting :=
  inner.listeners.keysWith_erase _ found (by simp [notified])

/-- Notified and un-notified listeners make up all of them. -/
theorem Inner.WF.waiting_length {inner : Inner W T} (wf : inner.WF) :
    inner.notified + inner.waiting.length = inner.listeners.size := by
  rw [wf.counted, Inner.waiting, OrderedMap.keysWith_length, OrderedMap.count_add_count_not]

/-! ### The operations in terms of `grant` -/

private theorem visit_notifyEntry (count : Nat) (tag : T) (notified : Nat) (woken : List W)
    (l : List (Nat × ListenerEntry W T)) (sorted : (l.map Prod.fst).Pairwise (· < ·)) :
    let chosen := (l.filter fun e => !e.2.isNotified).take (count - notified)
    OrderedMap.visitEntries (Event.notifyEntry count tag) (notified, woken) l =
      (l.map fun e => (e.1, if e.1 ∈ chosen.map Prod.fst then ⟨none, some tag⟩ else e.2),
        (notified + chosen.length, woken ++ chosen.filterMap fun e => e.2.waker)) := by
  -- induction on the entries still to be visited, with what the loop has so far
  induction l generalizing notified woken with
  | nil => simp [OrderedMap.visitEntries]
  | cons e rest ih =>
    simp only [List.map_cons, List.pairwise_cons, List.mem_map] at sorted
    have later : ∀ x ∈ rest, x.1 ≠ e.1 := fun x member => (sorted.1 x.1 ⟨x, member, rfl⟩).ne'
    simp only [OrderedMap.visitEntries, Event.notifyEntry]
    by_cases full : notified ≥ count
    · -- `break`: the quota is used up and the rest stays as it is
      have none_left : count - notified = 0 := by omega
      simp [full, none_left]
    · cases already : e.2.isNotified with
      | true =>
        -- `continue`: the entry is notified already, and its key is not among the later ones
        have missing : ∀ n, e.1 ∉ ((rest.filter fun e => !e.2.isNotified).map Prod.fst).take n := by
          intro n member
          obtain ⟨x, taken, same⟩ := List.mem_map.mp (List.mem_of_mem_take member)
          exact later x (List.mem_filter.mp taken).1 same
        simp only [full, ite_false, ite_true, ih notified woken sorted.2]
        simp [already, missing]
      | false =>
        -- the entry is the first of those chosen, and one less is left to choose
        have more : count - notified = count - (notified + 1) + 1 := by omega
        simp only [full, ite_false, Bool.false_eq_true, ih (notified + 1) _ sorted.2]
        simp only [List.filter_cons, already, Bool.not_false, ite_true, more, List.take_succ_cons,
          List.map_cons, List.mem_cons, true_or, Prod.mk.injEq, List.cons.injEq, true_and,
          List.length_cons, List.filterMap_cons]
        refine ⟨?_, by omega, ?_⟩
        · apply List.map_congr_left
          intro x member
          simp [later x member]
        · cases e.2.waker <;> simp

theorem Event.notifyLoop_eq_grant (count : Nat) (tag : T) (inner : Inner W T) :
    Event.notifyLoop count tag inner = inner.grant tag (inner.waiting.take count) := by
  have visited := visit_notifyEntry count tag 0 ([] : List W) inner.listeners.entries
    inner.listeners.sorted
  simp only [Nat.sub_zero, Nat.zero_add, List.nil_append, List.map_take] at visited
  have listeners : (inner.listeners.visit (Event.notifyEntry count tag) (0, ([] : List W))).1 =
      inner.listeners.overwrite (inner.waiting.take count) ⟨none, some tag⟩ := by
    apply OrderedMap.ext
    exact congrArg Prod.fst visited
  have rest := congrArg Prod.snd visited
  have wakers : ((inner.listeners.entries.filter fun e => !e.2.isNotified).take count).filterMap
      (fun e => e.2.waker) = (inner.waiting.take count).filterMap
        fun id => (inner.listeners.get? id).bind ListenerEntry.waker := by
    rw [Inner.waiting, OrderedMap.keysWith, ← List.map_take, List.filterMap_map]
    apply List.filterMap_congr
    intro e member
    have present := (List.mem_filter.mp (List.mem_of_mem_take member)).1
    have found := (inner.listeners.get?_eq_some_iff e.1 e.2).mpr present
    simp [found]
  simp only [Event.notifyLoop, Inner.grant, listeners]
  simp only [OrderedMap.visit, rest, wakers]
  simp [Inner.waiting, OrderedMap.keysWith]

/-- Whatever its count, a notification goes to the first listeners that wait. -/
theorem Event.notify_eq_grant [Usize] (n : Notification T) (inner : Inner W T) :
    ∃ count, Event.notify n inner = inner.grant n.tag (inner.waiting.take count) := by
  unfold Event.notify Event.notifyAdditional Event.notifyInner
  split <;> exact ⟨_, Event.notifyLoop_eq_grant _ _ _⟩

/-- Dropping a notified listener passes its tag to the first un-notified listener. -/
theorem EventListener.drop_notified {inner : Inner W T} (wf : inner.WF) {id : Nat} {tag : T}
    {waker : Option W} (found : inner.listeners.get? id = some ⟨waker, some tag⟩) :
    EventListener.drop id inner =
      (inner.consume id).grant tag ((inner.consume id).waiting.take 1) := by
  -- the counter counts this very listener, so the early return is not taken
  have positive : inner.notified ≠ 0 := by
    have counted := inner.listeners.count_erase ListenerEntry.isNotified found
    rw [← wf.counted] at counted
    simp only [ListenerEntry.isNotified, Option.isSome_some, ite_true] at counted
    omega
  -- `find` takes the first listener that waits
  have first : (inner.consume id).waiting.take 1 =
      (((inner.listeners.erase id).find? fun e => !e.isNotified).map Prod.fst).toList := by
    simp only [Inner.waiting, Inner.consume, OrderedMap.keysWith, OrderedMap.find?,
      ← List.map_take, ← List.head?_filter]
    cases (inner.listeners.erase id).entries.filter fun e => !e.2.isNotified <;> simp
  have already : (ListenerEntry.mk waker (some tag)).isNotified = true := rfl
  simp only [EventListener.drop, found, already, Bool.not_true, Bool.false_or, beq_iff_eq,
    positive, ite_false]
  rw [first]
  cases heir : (inner.listeners.erase id).find? fun e => !e.isNotified with
  | none => simp [Inner.grant, Inner.consume, OrderedMap.overwrite, OrderedMap.map]
  | some next =>
    have present : (inner.listeners.erase id).get? next.1 = some next.2 :=
      (OrderedMap.get?_eq_some_iff _ _ _).mpr (List.mem_of_find?_eq_some heir)
    have replaced := (inner.listeners.erase id).overwrite_cons [] ⟨none, some tag⟩ ⟨_, present⟩
    have woken : [next.1].filterMap (fun j => ((inner.listeners.erase id).get? j).bind
        ListenerEntry.waker) = next.2.waker.toList := by
      cases stored : next.2.waker <;> simp [present, stored]
    simp only [Inner.grant, Inner.consume, Option.map_some, Option.toList_some, replaced, woken]
    simp [OrderedMap.overwrite, OrderedMap.map]

theorem EventListener.drop_waiting {inner : Inner W T} {id : Nat} {waker : Option W}
    (found : inner.listeners.get? id = some ⟨waker, none⟩) :
    EventListener.drop id inner = inner.forget id := by
  simp [EventListener.drop, found, ListenerEntry.isNotified, Inner.forget]

/-- `Event::drop` takes and wakes every stored waker. -/
theorem Event.drop_eq (inner : Inner W T) :
    Event.drop inner = { inner with
      closed := true
      listeners := inner.listeners.map fun _ entry => { entry with waker := none }
      woken := inner.woken ++ inner.listeners.entries.filterMap fun e => e.2.waker } := by
  -- the loop never breaks, so it is a map and a filter
  have visited : ∀ (woken : List W) (l : List (Nat × ListenerEntry W T)),
      OrderedMap.visitEntries (fun woken entry =>
        some ({ entry with waker := none }, woken ++ entry.waker.toList)) woken l =
      (l.map fun e => (e.1, { e.2 with waker := none }),
        woken ++ l.filterMap fun e => e.2.waker) := by
    intro woken l
    induction l generalizing woken with
    | nil => simp [OrderedMap.visitEntries]
    | cons e rest ih =>
      simp only [OrderedMap.visitEntries, ih, List.map_cons, List.filterMap_cons]
      cases e.2.waker <;> simp
  simp only [Event.drop, OrderedMap.visit, visited, List.nil_append]
  rfl

@[simp] theorem Event.keys_notify [Usize] (n : Notification T) (inner : Inner W T) :
    (Event.notify n inner).listeners.keys = inner.listeners.keys := by
  obtain ⟨count, granted⟩ := Event.notify_eq_grant n inner
  simp [granted, Inner.grant]

@[simp] theorem Event.keys_drop (inner : Inner W T) :
    (Event.drop inner).listeners.keys = inner.listeners.keys := by
  simp [Event.drop_eq]

theorem Event.closed_notify [Usize] (n : Notification T) (inner : Inner W T) :
    (Event.notify n inner).closed = inner.closed := by
  obtain ⟨count, granted⟩ := Event.notify_eq_grant n inner
  simp [granted, Inner.grant]

theorem EventListener.closed_drop (id : Nat) (inner : Inner W T) :
    (EventListener.drop id inner).closed = inner.closed := by
  simp only [EventListener.drop]
  split
  · rfl
  · split
    · rfl
    · split <;> rfl

@[simp] theorem EventListener.nextId_drop (id : Nat) (inner : Inner W T) :
    (EventListener.drop id inner).nextId = inner.nextId := by
  simp only [EventListener.drop]
  split
  · rfl
  · split
    · rfl
    · split <;> rfl

/-- Dropping a listener erases it, whatever becomes of its notification. -/
theorem EventListener.keys_drop {inner : Inner W T} (wf : inner.WF) (id : Nat) :
    (EventListener.drop id inner).listeners.keys = (inner.listeners.erase id).keys := by
  cases found : inner.listeners.get? id with
  | none => simp [EventListener.drop, found, OrderedMap.erase_of_get?_none _ found]
  | some entry =>
    obtain ⟨waker, value⟩ := entry
    cases value with
    | none =>
      rw [EventListener.drop_waiting found]
      rfl
    | some tag =>
      rw [EventListener.drop_notified wf found]
      simp [Inner.grant, Inner.consume]

/-! ### Lookup after `grant` -/

theorem Inner.get?_grant (inner : Inner W T) (tag : T) (ids : List Nat) (id : Nat) :
    (inner.grant tag ids).listeners.get? id =
      if id ∈ ids then (inner.listeners.get? id).map fun _ => ⟨none, some tag⟩
      else inner.listeners.get? id :=
  inner.listeners.get?_overwrite ids _ id

/-- An un-notified listener that is granted has its stored waker woken. -/
theorem Inner.mem_woken_grant (inner : Inner W T) (tag : T) {ids : List Nat} {id : Nat}
    (member : id ∈ ids) {entry : ListenerEntry W T} {w : W}
    (found : inner.listeners.get? id = some entry) (stored : entry.waker = some w) :
    w ∈ (inner.grant tag ids).woken.drop inner.woken.length := by
  simp only [Inner.grant, List.drop_left, List.mem_filterMap]
  exact ⟨id, member, by simp [found, stored]⟩

/-! ### The bookkeeping is kept -/

namespace Inner.WF

variable {inner : Inner W T}

theorem new : (Event.new : Inner W T).WF where
  below := by simp [Event.new, OrderedMap.empty, OrderedMap.keys]
  counted := rfl
  asleep := by simp [Event.new]

theorem grant (wf : inner.WF) (tag : T) {ids : List Nat} (distinct : ids.Nodup)
    (unnotified : ids ⊆ inner.waiting) : (inner.grant tag ids).WF where
  below := by simpa [Inner.grant] using wf.below
  counted := by
    have fails : ∀ id ∈ ids, ∃ old, inner.listeners.get? id = some old ∧
        old.isNotified = false := by
      intro id member
      obtain ⟨old, found, empty⟩ := (inner.mem_waiting id).mp (unnotified member)
      exact ⟨old, found, by simp [ListenerEntry.isNotified, empty]⟩
    have counted := inner.listeners.count_overwrite ListenerEntry.isNotified
      (v := ⟨none, some tag⟩) distinct fails rfl
    simp only [Inner.grant, counted, wf.counted]
  asleep := by
    intro id entry found notified
    rw [get?_grant] at found
    split at found
    · obtain ⟨old, _, rfl⟩ := Option.map_eq_some_iff.mp found
      rfl
    · exact wf.asleep id entry found notified

theorem notify [Usize] (wf : inner.WF) (n : Notification T) : (Event.notify n inner).WF := by
  obtain ⟨count, granted⟩ := Event.notify_eq_grant n inner
  rw [granted]
  exact wf.grant n.tag (inner.waiting_nodup.sublist (List.take_sublist _ _))
    (List.take_subset _ _)

private theorem insert_unnotified (wf : inner.WF) (id : Nat) (waker : Option W)
    (unnotified : EventListener.isNotified id inner = false) :
    inner.notified = (inner.listeners.insert id ⟨waker, none⟩).count ListenerEntry.isNotified := by
  have quiet : (ListenerEntry.mk waker none : ListenerEntry W T).isNotified = false := rfl
  rw [OrderedMap.count_insert, wf.counted, quiet]
  cases found : inner.listeners.get? id with
  | none => simp [OrderedMap.erase_of_get?_none _ found]
  | some entry =>
    have removed := inner.listeners.count_erase ListenerEntry.isNotified found
    simp only [EventListener.isNotified, found, Option.map_some, Option.getD_some] at unnotified
    rwa [unnotified] at removed

private theorem insert_asleep (wf : inner.WF) (id : Nat) (waker : Option W) :
    ∀ j entry, (inner.listeners.insert id ⟨waker, none⟩).get? j = some entry →
      entry.isNotified = true → entry.waker = none := by
  intro j entry found notified
  rw [OrderedMap.get?_insert] at found
  split at found
  · cases found
    cases notified
  · exact wf.asleep j entry found notified

private theorem insert_below (wf : inner.WF) (id : Nat) {entry : ListenerEntry W T}
    (found : inner.listeners.get? id = some entry) (new : ListenerEntry W T) :
    ∀ j ∈ (inner.listeners.insert id new).keys, j < inner.nextId := by
  intro j member
  apply wf.below
  rcases (OrderedMap.mem_keys_insert _ _ _ _).mp member with rfl | old
  · exact (OrderedMap.mem_keys_iff _ _).mpr ⟨entry, found⟩
  · exact old

theorem await (wf : inner.WF) (id : Nat) (waker : W) {entry : ListenerEntry W T}
    (found : inner.listeners.get? id = some entry) (unnotified : entry.value = none) :
    (inner.await id waker).WF where
  below := wf.insert_below id found _
  counted := wf.insert_unnotified id (some waker)
    (by simp [EventListener.isNotified, found, ListenerEntry.isNotified, unnotified])
  asleep := wf.insert_asleep id (some waker)

theorem read (wf : inner.WF) (id : Nat) {entry : ListenerEntry W T}
    (found : inner.listeners.get? id = some entry) (notified : entry.isNotified = true) :
    (inner.read id).WF where
  below := wf.insert_below id found _
  counted := by
    have removed := inner.listeners.count_erase ListenerEntry.isNotified found
    simp only [notified, ite_true] at removed
    have quiet : (ListenerEntry.mk none none : ListenerEntry W T).isNotified = false := rfl
    simp only [Inner.read, OrderedMap.count_insert, quiet, wf.counted, removed]
    simp
  asleep := wf.insert_asleep id none

/-- A fresh id is not in the map. -/
theorem fresh (wf : inner.WF) : inner.listeners.get? inner.nextId = none :=
  (OrderedMap.get?_eq_none_iff _ _).mpr fun member => absurd (wf.below _ member) (by omega)

theorem insert_next (wf : inner.WF) (waker : Option W) :
    ({ inner with
      nextId := inner.nextId + 1
      listeners := inner.listeners.insert inner.nextId ⟨waker, none⟩ } : Inner W T).WF where
  below j member := by
    rcases (OrderedMap.mem_keys_insert _ _ _ _).mp member with rfl | old
    · exact Nat.lt_succ_self _
    · exact (wf.below j old).trans (Nat.lt_succ_self _)
  counted := wf.insert_unnotified inner.nextId waker
    (by simp [EventListener.isNotified, wf.fresh])
  asleep := wf.insert_asleep inner.nextId waker

theorem listen (wf : inner.WF) : inner.listen.2.WF := wf.insert_next none

theorem register (wf : inner.WF) (waker : W) : (inner.register waker).WF :=
  wf.insert_next (some waker)

private theorem erase_below (wf : inner.WF) (id : Nat) :
    ∀ j ∈ (inner.listeners.erase id).keys, j < inner.nextId := fun j member =>
  wf.below j ((OrderedMap.mem_keys_erase _ _ _).mp member).2

private theorem erase_asleep (wf : inner.WF) (id : Nat) :
    ∀ j entry, (inner.listeners.erase id).get? j = some entry →
      entry.isNotified = true → entry.waker = none := by
  intro j entry found notified
  rw [OrderedMap.get?_erase] at found
  split at found
  · cases found
  · exact wf.asleep j entry found notified

theorem forget (wf : inner.WF) (id : Nat) {entry : ListenerEntry W T}
    (found : inner.listeners.get? id = some entry) (unnotified : entry.value = none) :
    (inner.forget id).WF where
  below := wf.erase_below id
  counted := by
    have removed := inner.listeners.count_erase ListenerEntry.isNotified found
    simpa [Inner.forget, wf.counted, ListenerEntry.isNotified, unnotified] using removed
  asleep := wf.erase_asleep id

theorem consume (wf : inner.WF) (id : Nat) {entry : ListenerEntry W T}
    (found : inner.listeners.get? id = some entry) (notified : entry.isNotified = true) :
    (inner.consume id).WF where
  below := wf.erase_below id
  counted := by
    have removed := inner.listeners.count_erase ListenerEntry.isNotified found
    simp only [notified, ite_true] at removed
    simp only [Inner.consume, wf.counted]
    omega
  asleep := wf.erase_asleep id

theorem close (wf : inner.WF) : (Event.drop inner).WF := by
  rw [Event.drop_eq]
  refine ⟨by simpa using wf.below, ?_, ?_⟩
  · rw [wf.counted]
    simp [OrderedMap.count, OrderedMap.map, List.countP_map, ListenerEntry.isNotified,
      Function.comp_def]
  · intro id entry found _
    rw [OrderedMap.get?_map] at found
    obtain ⟨old, _, rfl⟩ := Option.map_eq_some_iff.mp found
    rfl

theorem drop (wf : inner.WF) (id : Nat) : (EventListener.drop id inner).WF := by
  cases found : inner.listeners.get? id with
  | none => simpa [EventListener.drop, found] using wf
  | some entry =>
    obtain ⟨waker, value⟩ := entry
    cases value with
    | none =>
      rw [EventListener.drop_waiting found]
      exact wf.forget id found rfl
    | some tag =>
      rw [EventListener.drop_notified wf found]
      have consumed := wf.consume id found rfl
      exact consumed.grant tag (Inner.waiting_nodup _ |>.sublist (List.take_sublist _ _))
        (List.take_subset _ _)

end Inner.WF

end Eneste
