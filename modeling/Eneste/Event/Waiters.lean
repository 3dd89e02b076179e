import Eneste.Event.WaitLoop

/-!
# Who waits on an event

A `Sleeper` is a listener whose future's last poll returned `Pending`. `Waiters`
ties the sleepers of a component to the listeners of its event: they correspond
one to one, and each has either its last waker stored or been woken since.
`Inner.Alert` is the progress half: somebody is notified if anybody waits.
-/

namespace Eneste

variable {W T κ : Type}

/-- A parked future: its listener, the waker of its last poll, and how many wakers
the event had woken by then. -/
structure Sleeper (W : Type) where
  listener : Nat
  waker : W
  since : Nat

/-- The waker of the sleeper's last poll has been woken since that poll. -/
def Inner.Woke (inner : Inner W T) (p : Sleeper W) : Prop :=
  p.waker ∈ inner.woken.drop p.since

/-- The sleeper holds a notification it has not consumed, and has been woken for it. -/
def Inner.Roused (inner : Inner W T) (p : Sleeper W) : Prop :=
  EventListener.isNotified p.listener inner = true ∧ inner.Woke p

/-- The event stores the sleeper's last waker, or has taken and woken it. -/
def Inner.Tracks (inner : Inner W T) (p : Sleeper W) : Prop :=
  p.since ≤ inner.woken.length ∧
  ∃ entry, inner.listeners.get? p.listener = some entry ∧
    ((entry.waker = some p.waker ∧ entry.value = none) ∨
      (entry.waker = none ∧ (entry.isNotified = true ∨ inner.closed = true) ∧ inner.Woke p))

/-- The futures `k` with `parked k = some p` are the listeners of the event. -/
structure Waiters (inner : Inner W T) (parked : κ → Option (Sleeper W)) : Prop where
  tracked : ∀ k p, parked k = some p → inner.Tracks p
  distinct : ∀ k j p q, parked k = some p → parked j = some q → p.listener = q.listener → k = j
  covered : ∀ id ∈ inner.listeners.keys, ∃ k p, parked k = some p ∧ p.listener = id

/-- If anybody waits, somebody is notified. -/
def Inner.Alert (inner : Inner W T) : Prop := 0 < inner.listeners.size → 0 < inner.notified

/-! ### Sleepers -/

theorem Inner.Woke.mono {inner later : Inner W T} {p : Sleeper W} {extra : List W}
    (woke : inner.Woke p) (within : p.since ≤ inner.woken.length)
    (grown : later.woken = inner.woken ++ extra) : later.Woke p := by
  rw [Inner.Woke, grown, List.drop_append_of_le_length within]
  exact List.mem_append_left _ woke

/-- Operations on other listeners leave a sleeper tracked. -/
theorem Inner.Tracks.frame {inner later : Inner W T} {p : Sleeper W} {extra : List W}
    (tracks : inner.Tracks p) (grown : later.woken = inner.woken ++ extra)
    (closed : inner.closed = true → later.closed = true)
    (same : later.listeners.get? p.listener = inner.listeners.get? p.listener) :
    later.Tracks p := by
  obtain ⟨within, entry, found, state⟩ := tracks
  refine ⟨by simp only [grown, List.length_append]; omega, entry, same.trans found, ?_⟩
  rcases state with stored | ⟨taken, why, woke⟩
  · exact Or.inl stored
  · exact Or.inr ⟨taken, why.imp_right closed, woke.mono within grown⟩

theorem Inner.Tracks.grant {inner : Inner W T} {p : Sleeper W} (tracks : inner.Tracks p)
    (tag : T) (ids : List Nat) : (inner.grant tag ids).Tracks p := by
  by_cases member : p.listener ∈ ids
  · obtain ⟨within, entry, found, state⟩ := tracks
    refine ⟨by simp only [Inner.grant, List.length_append]; omega, ⟨none, some tag⟩, ?_, ?_⟩
    · simp [Inner.get?_grant, member, found]
    · refine Or.inr ⟨rfl, Or.inl rfl, ?_⟩
      rcases state with ⟨stored, _⟩ | ⟨_, _, woke⟩
      · -- its stored waker is taken and woken
        have woken := inner.mem_woken_grant tag member found stored
        exact List.drop_subset_drop_left _ within woken
      · -- its waker was taken before, and was woken then
        exact woke.mono within rfl
  · -- another listener is granted
    exact tracks.frame rfl id (by simp [Inner.get?_grant, member])

theorem Inner.Tracks.notify [Usize] {inner : Inner W T} {p : Sleeper W} (tracks : inner.Tracks p)
    (n : Notification T) : (Event.notify n inner).Tracks p := by
  obtain ⟨count, granted⟩ := Event.notify_eq_grant n inner
  exact granted ▸ tracks.grant _ _

/-- Dropping the event wakes every sleeper that has not been woken before. -/
theorem Inner.Tracks.close {inner : Inner W T} {p : Sleeper W} (tracks : inner.Tracks p) :
    (Event.drop inner).Tracks p ∧ (Event.drop inner).Woke p := by
  obtain ⟨within, entry, found, state⟩ := tracks
  have woke : (Event.drop inner).Woke p := by
    simp only [Event.drop_eq, Inner.Woke, List.drop_append_of_le_length within, List.mem_append]
    rcases state with ⟨stored, _⟩ | ⟨_, _, woke⟩
    · have present := (OrderedMap.get?_eq_some_iff _ _ _).mp found
      exact Or.inr (List.mem_filterMap.mpr ⟨_, present, stored⟩)
    · exact Or.inl woke
  refine ⟨⟨?_, { entry with waker := none }, ?_, Or.inr ⟨rfl, Or.inr ?_, woke⟩⟩, woke⟩
  · simp only [Event.drop_eq, List.length_append]
    omega
  · simp [Event.drop_eq, found]
  · simp [Event.drop_eq]

/-- Another listener is dropped, and perhaps hands its notification to the sleeper. -/
theorem Inner.Tracks.drop {inner : Inner W T} {p : Sleeper W} (tracks : inner.Tracks p)
    (wf : inner.WF) {id : Nat} (other : p.listener ≠ id) :
    (EventListener.drop id inner).Tracks p := by
  cases found : inner.listeners.get? id with
  | none => simpa [EventListener.drop, found] using tracks
  | some entry =>
    obtain ⟨waker, value⟩ := entry
    cases value with
    | none =>
      rw [EventListener.drop_waiting found]
      exact tracks.frame (List.append_nil _).symm (fun closed => closed)
        (OrderedMap.get?_erase_of_ne _ other)
    | some tag =>
      rw [EventListener.drop_notified wf found]
      have erased : (inner.consume id).Tracks p :=
        tracks.frame (List.append_nil _).symm (fun closed => closed)
          (OrderedMap.get?_erase_of_ne _ other)
      exact erased.grant tag _

/-- A notified sleeper has been woken since its last poll. -/
theorem Inner.Tracks.roused {inner : Inner W T} {p : Sleeper W} (tracks : inner.Tracks p)
    (notified : EventListener.isNotified p.listener inner = true) : inner.Roused p := by
  obtain ⟨_, entry, found, ⟨_, empty⟩ | ⟨_, _, woke⟩⟩ := tracks
  · -- a waker that is still stored belongs to a listener without a notification
    simp [EventListener.isNotified, found, ListenerEntry.isNotified, empty] at notified
  · exact ⟨notified, woke⟩

/-! ### The futures of a component -/

namespace Waiters

variable {inner : Inner W T} {parked parked' : κ → Option (Sleeper W)}

theorem grant (waiters : Waiters inner parked) (tag : T) (ids : List Nat) :
    Waiters (inner.grant tag ids) parked where
  tracked k p asleep := (waiters.tracked k p asleep).grant tag ids
  distinct := waiters.distinct
  covered id member := waiters.covered id (by simpa [Inner.grant] using member)

theorem notify [Usize] (waiters : Waiters inner parked) (n : Notification T) :
    Waiters (Event.notify n inner) parked := by
  obtain ⟨count, granted⟩ := Event.notify_eq_grant n inner
  exact granted ▸ waiters.grant _ _

/-- The owner of the event is dropped. -/
theorem close (waiters : Waiters inner parked) : Waiters (Event.drop inner) parked where
  tracked k p asleep := (waiters.tracked k p asleep).close.1
  distinct := waiters.distinct
  covered id member := waiters.covered id (by simpa [Event.drop_eq] using member)

/-- A future parks on a fresh listener. -/
theorem register (waiters : Waiters inner parked) (wf : inner.WF) {k : κ} {waker : W}
    (idle : parked k = none)
    (parks : parked' k = some ⟨inner.nextId, waker, inner.woken.length⟩)
    (others : ∀ j, j ≠ k → parked' j = parked j) :
    Waiters (inner.register waker) parked' where
  tracked j p asleep := by
    by_cases same : j = k
    · subst same
      cases parks.symm.trans asleep
      exact ⟨le_refl _, ⟨some waker, none⟩, by simp [Inner.register], Or.inl ⟨rfl, rfl⟩⟩
    · have tracks := waiters.tracked j p ((others j same).symm.trans asleep)
      -- the fresh id is nobody else's
      have other : p.listener ≠ inner.nextId := by
        obtain ⟨_, entry, found, _⟩ := tracks
        intro clash
        rw [clash, wf.fresh] at found
        cases found
      exact tracks.frame (List.append_nil _).symm id
        (by simp [Inner.register, OrderedMap.get?_insert_of_ne _ _ other])
  distinct i j p q asleep awake same := by
    have fresh : ∀ l r, parked l = some r → r.listener ≠ inner.nextId := by
      intro l r sleeps clash
      obtain ⟨_, entry, found, _⟩ := waiters.tracked l r sleeps
      rw [clash, wf.fresh] at found
      cases found
    by_cases first : i = k <;> by_cases second : j = k
    · rw [first, second]
    · subst first
      cases parks.symm.trans asleep
      exact absurd same.symm (fresh j q ((others j second).symm.trans awake))
    · subst second
      cases parks.symm.trans awake
      exact absurd same (fresh i p ((others i first).symm.trans asleep))
    · exact waiters.distinct i j p q ((others i first).symm.trans asleep)
        ((others j second).symm.trans awake) same
  covered id member := by
    rcases (OrderedMap.mem_keys_insert _ _ _ _).mp member with fresh | old
    · exact ⟨k, _, parks, fresh.symm⟩
    · obtain ⟨j, p, asleep, same⟩ := waiters.covered id old
      have other : j ≠ k := fun clash => by rw [clash, idle] at asleep; cases asleep
      exact ⟨j, p, (others j other).trans asleep, same⟩

/-- A parked future is polled again before it is notified. -/
theorem await (waiters : Waiters inner parked) {k : κ} {p : Sleeper W} {waker : W}
    (asleep : parked k = some p)
    (parks : parked' k = some ⟨p.listener, waker, inner.woken.length⟩)
    (others : ∀ j, j ≠ k → parked' j = parked j) :
    Waiters (inner.await p.listener waker) parked' where
  tracked j q sleeps := by
    by_cases same : j = k
    · subst same
      cases parks.symm.trans sleeps
      exact ⟨le_refl _, ⟨some waker, none⟩, by simp [Inner.await], Or.inl ⟨rfl, rfl⟩⟩
    · have before := (others j same).symm.trans sleeps
      have other : q.listener ≠ p.listener := fun clash =>
        same (waiters.distinct j k q p before asleep clash)
      exact (waiters.tracked j q before).frame (List.append_nil _).symm id
        (by simp [Inner.await, OrderedMap.get?_insert_of_ne _ _ other])
  distinct i j q r sleeps awakes same := by
    -- whoever is parked afterwards was parked before, on the same listener
    have before : ∀ l s, parked' l = some s → ∃ s₀, parked l = some s₀ ∧
        s₀.listener = s.listener := by
      intro l s sleeping
      by_cases this : l = k
      · subst this
        cases parks.symm.trans sleeping
        exact ⟨p, asleep, rfl⟩
      · exact ⟨s, (others l this).symm.trans sleeping, rfl⟩
    obtain ⟨q₀, first, sameFirst⟩ := before i q sleeps
    obtain ⟨r₀, second, sameSecond⟩ := before j r awakes
    exact waiters.distinct i j q₀ r₀ first second (by rw [sameFirst, sameSecond, same])
  covered id member := by
    have present : id ∈ inner.listeners.keys := by
      rcases (OrderedMap.mem_keys_insert _ _ _ _).mp member with rfl | old
      · obtain ⟨_, entry, found, _⟩ := waiters.tracked k p asleep
        exact (OrderedMap.mem_keys_iff _ _).mpr ⟨entry, found⟩
      · exact old
    obtain ⟨j, q, sleeps, same⟩ := waiters.covered id present
    by_cases this : j = k
    · subst this
      cases asleep.symm.trans sleeps
      exact ⟨j, _, parks, same⟩
    · exact ⟨j, q, (others j this).trans sleeps, same⟩

/-- A parked future stops waiting: its listener is erased. -/
private theorem erased (waiters : Waiters inner parked) {later : Inner W T} {k : κ}
    {p : Sleeper W} (asleep : parked k = some p)
    (listeners : later.listeners = inner.listeners.erase p.listener)
    (closed : later.closed = inner.closed) (woken : later.woken = inner.woken)
    (leaves : parked' k = none) (others : ∀ j, j ≠ k → parked' j = parked j) :
    Waiters later parked' where
  tracked j q sleeps := by
    have differs : j ≠ k := fun same => by rw [same, leaves] at sleeps; cases sleeps
    have before := (others j differs).symm.trans sleeps
    have other : q.listener ≠ p.listener := fun clash =>
      differs (waiters.distinct j k q p before asleep clash)
    exact (waiters.tracked j q before).frame (woken.trans (List.append_nil _).symm)
      (by simp [closed]) (by rw [listeners, OrderedMap.get?_erase_of_ne _ other])
  distinct i j q r sleeps awakes same := by
    have first : i ≠ k := fun this => by rw [this, leaves] at sleeps; cases sleeps
    have second : j ≠ k := fun this => by rw [this, leaves] at awakes; cases awakes
    exact waiters.distinct i j q r ((others i first).symm.trans sleeps)
      ((others j second).symm.trans awakes) same
  covered id member := by
    rw [listeners] at member
    obtain ⟨differs, present⟩ := (OrderedMap.mem_keys_erase _ _ _).mp member
    obtain ⟨j, q, sleeps, same⟩ := waiters.covered id present
    have other : j ≠ k := by
      intro this
      subst this
      cases asleep.symm.trans sleeps
      exact differs same.symm
    exact ⟨j, q, (others j other).trans sleeps, same⟩

theorem consume (waiters : Waiters inner parked) {k : κ} {p : Sleeper W}
    (asleep : parked k = some p) (leaves : parked' k = none)
    (others : ∀ j, j ≠ k → parked' j = parked j) :
    Waiters (inner.consume p.listener) parked' :=
  waiters.erased asleep rfl rfl rfl leaves others

/-- A parked future is dropped; a notification it held passes to another one. -/
theorem drop (waiters : Waiters inner parked) (wf : inner.WF) {k : κ} {p : Sleeper W}
    (asleep : parked k = some p) (leaves : parked' k = none)
    (others : ∀ j, j ≠ k → parked' j = parked j) :
    Waiters (EventListener.drop p.listener inner) parked' := by
  obtain ⟨_, ⟨waker, value⟩, found, _⟩ := waiters.tracked k p asleep
  cases value with
  | none =>
    rw [EventListener.drop_waiting found]
    exact waiters.erased asleep rfl rfl rfl leaves others
  | some tag =>
    rw [EventListener.drop_notified wf found]
    exact (waiters.consume asleep leaves others).grant tag _

/-- The counter is positive exactly when a parked future holds a notification. -/
theorem notified_pos_iff (waiters : Waiters inner parked) (wf : inner.WF) :
    0 < inner.notified ↔
      ∃ k p, parked k = some p ∧ EventListener.isNotified p.listener inner = true := by
  rw [wf.counted, OrderedMap.count_pos_iff]
  constructor
  · rintro ⟨id, entry, found, holds⟩
    obtain ⟨k, p, asleep, same⟩ :=
      waiters.covered id ((OrderedMap.mem_keys_iff _ _).mpr ⟨entry, found⟩)
    exact ⟨k, p, asleep, by simp [EventListener.isNotified, same, found, holds]⟩
  · rintro ⟨k, p, asleep, notified⟩
    obtain ⟨_, entry, found, _⟩ := waiters.tracked k p asleep
    exact ⟨p.listener, entry, found, by simpa [EventListener.isNotified, found] using notified⟩

theorem size_pos_iff (waiters : Waiters inner parked) :
    0 < inner.listeners.size ↔ ∃ k p, parked k = some p := by
  rw [OrderedMap.size_pos_iff]
  constructor
  · rintro ⟨id, member⟩
    obtain ⟨k, p, asleep, _⟩ := waiters.covered id member
    exact ⟨k, p, asleep⟩
  · rintro ⟨k, p, asleep⟩
    obtain ⟨_, entry, found, _⟩ := waiters.tracked k p asleep
    exact ⟨p.listener, (OrderedMap.mem_keys_iff _ _).mpr ⟨entry, found⟩⟩

/-- `Alert` in terms of futures. -/
theorem alert_iff (waiters : Waiters inner parked) (wf : inner.WF) :
    inner.Alert ↔ ((∃ k p, parked k = some p) → ∃ k p, parked k = some p ∧ inner.Roused p) := by
  have same : (∃ k p, parked k = some p ∧ inner.Roused p) ↔
      ∃ k p, parked k = some p ∧ EventListener.isNotified p.listener inner = true := by
    constructor
    · rintro ⟨k, p, asleep, notified, _⟩
      exact ⟨k, p, asleep, notified⟩
    · rintro ⟨k, p, asleep, notified⟩
      exact ⟨k, p, asleep, (waiters.tracked k p asleep).roused notified⟩
  rw [Inner.Alert, waiters.size_pos_iff, waiters.notified_pos_iff wf, same]

/-- A notification is left, after one is consumed, if another future holds one. -/
theorem consume_notified_iff [DecidableEq κ] (waiters : Waiters inner parked) (wf : inner.WF)
    {k : κ} {p : Sleeper W} (asleep : parked k = some p)
    (notified : EventListener.isNotified p.listener inner = true) :
    0 < (inner.consume p.listener).notified ↔ ∃ j q, j ≠ k ∧ parked j = some q ∧
      EventListener.isNotified q.listener inner = true := by
  obtain ⟨_, entry, found, _⟩ := waiters.tracked k p asleep
  -- count the notifications of the other futures, in the event without this one
  have consumed : Waiters (inner.consume p.listener) fun j => if j = k then none else parked j :=
    waiters.consume asleep (by simp) (by simp +contextual)
  have counted := wf.consume p.listener found
    (by simpa [EventListener.isNotified, found] using notified)
  rw [consumed.notified_pos_iff counted]
  -- erasing one listener leaves the others as they were
  have untouched : ∀ j q, j ≠ k → parked j = some q →
      EventListener.isNotified q.listener (inner.consume p.listener) =
        EventListener.isNotified q.listener inner := by
    intro j q other awake
    have differs : q.listener ≠ p.listener := fun clash =>
      other (waiters.distinct j k q p awake asleep clash)
    simp [EventListener.isNotified, Inner.consume, OrderedMap.get?_erase_of_ne _ differs]
  constructor
  · rintro ⟨j, q, awake, holds⟩
    split at awake
    · cases awake
    next other => exact ⟨j, q, other, awake, by rwa [untouched j q other awake] at holds⟩
  · rintro ⟨j, q, other, awake, holds⟩
    exact ⟨j, q, by rw [if_neg other, awake], by rwa [untouched j q other awake]⟩

/-- What is left when a notified future consumes its notification. -/
theorem alert_consume_iff [DecidableEq κ] (waiters : Waiters inner parked) (wf : inner.WF)
    {k : κ} {p : Sleeper W} (asleep : parked k = some p)
    (notified : EventListener.isNotified p.listener inner = true) :
    (inner.consume p.listener).Alert ↔ ((∃ j q, j ≠ k ∧ parked j = some q) →
      ∃ j q, j ≠ k ∧ parked j = some q ∧ EventListener.isNotified q.listener inner = true) := by
  have consumed : Waiters (inner.consume p.listener) fun j => if j = k then none else parked j :=
    waiters.consume asleep (by simp) (by simp +contextual)
  have left : ∀ j q, (if j = k then none else parked j) = some q ↔ j ≠ k ∧ parked j = some q := by
    intro j q
    by_cases same : j = k <;> simp [same]
  rw [Inner.Alert, consumed.size_pos_iff, waiters.consume_notified_iff wf asleep notified]
  simp only [left]

end Waiters

/-! ### Which listener is notified -/

namespace EventListener

variable {inner : Inner W T} {id : Nat}

/-- Granting notifies whom it grants, and the others stay as they are. -/
theorem isNotified_grant (tag : T) {ids : List Nat} (unnotified : ids ⊆ inner.waiting) :
    isNotified id (inner.grant tag ids) = true ↔ isNotified id inner = true ∨ id ∈ ids := by
  simp only [isNotified, Inner.get?_grant]
  by_cases member : id ∈ ids
  · obtain ⟨entry, found, _⟩ := (inner.mem_waiting id).mp (unnotified member)
    simp [member, found, ListenerEntry.isNotified]
  · simp [member]

/-- `notify(1)` reaches the first listener that waits, unless one is notified already. -/
theorem isNotified_notify_one [Usize] {inner : Inner W Unit} :
    isNotified id (Event.notify (.usize 1) inner) = true ↔
      isNotified id inner = true ∨ inner.notified = 0 ∧ inner.waiting.head? = some id := by
  have bounded : 1 ≠ Usize.max := Usize.one_lt_max.ne
  have granted : Event.notify (.usize 1) inner =
      inner.grant () (inner.waiting.take (1 - inner.notified)) := by
    simp [Event.notify, Notification.usize, Event.notifyInner, bounded,
      Event.notifyLoop_eq_grant]
  rw [granted, isNotified_grant _ (List.take_subset _ _)]
  apply or_congr_right
  rcases Nat.eq_zero_or_pos inner.notified with none | some
  · simp [none, List.take_one, Option.mem_toList]
  · have nobody : 1 - inner.notified = 0 := by omega
    simp [nobody, some.ne']

/-- `usize::MAX` stands for all listeners. -/
theorem notify_all [Usize] (wf : inner.WF) {n : Notification T} (everybody : n.count = Usize.max) :
    Event.notify n inner = inner.grant n.tag inner.waiting := by
  have parts := wf.waiting_length
  have whole : inner.waiting.take inner.listeners.size = inner.waiting :=
    List.take_of_length_le (by omega)
  simp [Event.notify, Event.notifyAdditional, Event.notifyInner, everybody,
    Event.notifyLoop_eq_grant, whole]

theorem isNotified_notify_all [Usize] (wf : inner.WF) {n : Notification T}
    (everybody : n.count = Usize.max) {entry : ListenerEntry W T}
    (found : inner.listeners.get? id = some entry) :
    isNotified id (Event.notify n inner) = true := by
  rw [notify_all wf everybody, isNotified_grant _ (List.Subset.refl _), Inner.mem_waiting]
  obtain ⟨waker, value⟩ := entry
  cases value with
  | none => exact .inr ⟨_, found, rfl⟩
  | some tag => simp [isNotified, found, ListenerEntry.isNotified]

/-- Dropping the event takes the stored wakers and no notification. -/
theorem isNotified_close (id : Nat) (inner : Inner W T) :
    isNotified id (Event.drop inner) = isNotified id inner := by
  rw [isNotified, Event.drop_eq, OrderedMap.get?_map, Option.map_map]
  rfl

/-- A dropped listener's notification reaches the first listener that waits. -/
theorem isNotified_drop {j : Nat} (wf : inner.WF) (other : id ≠ j) :
    isNotified id (drop j inner) = true ↔ isNotified id inner = true ∨
      isNotified j inner = true ∧ inner.waiting.head? = some id := by
  cases found : inner.listeners.get? j with
  | none => simp [drop, found, isNotified]
  | some entry =>
    obtain ⟨waker, value⟩ := entry
    cases value with
    | none =>
      rw [drop_waiting found]
      simp [isNotified, Inner.forget, OrderedMap.get?_erase_of_ne _ other, found,
        ListenerEntry.isNotified]
    | some tag =>
      have waiting := Inner.waiting_consume found rfl
      rw [drop_notified wf found, isNotified_grant _ (List.take_subset _ _), waiting]
      simp [isNotified, Inner.consume, OrderedMap.get?_erase_of_ne _ other, found,
        ListenerEntry.isNotified, List.take_one, Option.mem_toList]

/-- Another listener is still there when one is dropped. -/
theorem present_drop {j : Nat} (wf : inner.WF) (other : id ≠ j)
    (present : ∃ entry, inner.listeners.get? id = some entry) :
    ∃ entry, (drop j inner).listeners.get? id = some entry := by
  rw [← OrderedMap.mem_keys_iff] at present ⊢
  rw [keys_drop wf]
  exact (OrderedMap.mem_keys_erase _ _ _).mpr ⟨other, present⟩

end EventListener

/-- With a single notification outstanding, only one listener holds it. -/
theorem Inner.WF.notified_unique {inner : Inner W T} (wf : inner.WF) (single : inner.notified ≤ 1)
    {i j : Nat} (first : EventListener.isNotified i inner = true)
    (second : EventListener.isNotified j inner = true) : i = j := by
  by_contra differs
  unfold EventListener.isNotified at first second
  cases foundFirst : inner.listeners.get? i with
  | none => simp [foundFirst] at first
  | some e =>
    cases foundSecond : inner.listeners.get? j with
    | none => simp [foundSecond] at second
    | some e' =>
      simp only [foundFirst, foundSecond, Option.map_some, Option.getD_some] at first second
      -- the two are counted apart
      have left : (inner.listeners.erase i).get? j = some e' := by
        rw [OrderedMap.get?_erase_of_ne _ (Ne.symm differs), foundSecond]
      have counted := inner.listeners.count_erase ListenerEntry.isNotified foundFirst
      have other := (OrderedMap.count_pos_iff _ ListenerEntry.isNotified).mpr ⟨j, e', left, second⟩
      rw [← wf.counted, first] at counted
      simp only [ite_true] at counted
      omega

/-! ### How many are notified -/

theorem Event.notifyLoop_notified (count : Nat) (tag : T) (inner : Inner W T) :
    (Event.notifyLoop count tag inner).notified =
      inner.notified + min count inner.waiting.length := by
  simp [Event.notifyLoop_eq_grant, Inner.grant]

theorem Event.notifyLoop_size (count : Nat) (tag : T) (inner : Inner W T) :
    (Event.notifyLoop count tag inner).listeners.size = inner.listeners.size := by
  simp [Event.notifyLoop_eq_grant, Inner.grant]

/-- `notify(n)` with `n > 0` leaves somebody notified if anybody waits. -/
theorem Inner.WF.alert_notify [Usize] {inner : Inner W Unit} (wf : inner.WF) {n : Nat}
    (some_n : 0 < n) : (Event.notify (.usize n) inner).Alert := by
  intro someone
  simp only [Event.notify, Notification.usize, Bool.false_eq_true, ite_false, Event.notifyInner,
    Event.notifyLoop_size, Event.notifyLoop_notified] at someone ⊢
  -- `n` counts listeners that are already notified: there is one, or there is one to notify
  have parts := wf.waiting_length
  by_cases everyone : n = Usize.max
  · simp only [everyone, ite_true]
    omega
  · simp only [everyone, ite_false]
    omega

/-- `notify(1)` leaves at most one notification outstanding. -/
theorem Event.notify_one_single [Usize] {inner : Inner W Unit} (single : inner.notified ≤ 1) :
    (Event.notify (.usize 1) inner).notified ≤ 1 := by
  have bounded : 1 ≠ Usize.max := Usize.one_lt_max.ne
  simp only [Event.notify, Notification.usize, Bool.false_eq_true, ite_false, Event.notifyInner,
    bounded, Event.notifyLoop_notified]
  omega

/-- Dropping a listener adds no notification. -/
theorem EventListener.notified_drop_le {inner : Inner W T} (wf : inner.WF) (id : Nat) :
    (EventListener.drop id inner).notified ≤ inner.notified := by
  cases found : inner.listeners.get? id with
  | none => simp [EventListener.drop, found]
  | some entry =>
    obtain ⟨waker, value⟩ := entry
    cases value with
    | none =>
      rw [EventListener.drop_waiting found]
      exact le_rfl
    | some tag =>
      have counted := inner.listeners.count_erase ListenerEntry.isNotified found
      have holds : (ListenerEntry.mk waker (some tag)).isNotified = true := rfl
      rw [← wf.counted, holds] at counted
      simp only [ite_true] at counted
      rw [EventListener.drop_notified wf found]
      simp only [Inner.grant, Inner.consume, List.length_take]
      omega

/-- Somebody waits after `register`: whoever registered. -/
theorem Inner.alert_register (inner : Inner W T) (waker : W) :
    (inner.register waker).Alert ↔ 0 < inner.notified := by
  have grown : 0 < (inner.register waker).listeners.size := by
    have size := inner.listeners.size_insert inner.nextId (ListenerEntry.mk (some waker) none)
    simp only [Inner.register]
    omega
  exact ⟨fun alert => alert grown, fun notified _ => notified⟩

/-- Storing another waker keeps `Alert`. -/
theorem Inner.Alert.await {inner : Inner W T} (alert : inner.Alert) {p : Sleeper W}
    (tracks : inner.Tracks p) (waker : W) : (inner.await p.listener waker).Alert := by
  obtain ⟨_, entry, found, _⟩ := tracks
  have same : (inner.await p.listener waker).listeners.size = inner.listeners.size := by
    have inserted := inner.listeners.size_insert p.listener ⟨some waker, none⟩
    have erased := inner.listeners.size_erase found
    simp only [Inner.await]
    omega
  intro someone
  exact alert (by omega)

/-- Dropping any listener keeps `Alert`: a notification is passed on while there is
a listener without one. -/
theorem Inner.Alert.drop {inner : Inner W T} (alert : inner.Alert) (wf : inner.WF) (id : Nat) :
    (EventListener.drop id inner).Alert := by
  cases found : inner.listeners.get? id with
  | none => simpa [EventListener.drop, found] using alert
  | some entry =>
    obtain ⟨waker, value⟩ := entry
    have size := inner.listeners.size_erase found
    cases value with
    | none =>
      rw [EventListener.drop_waiting found]
      intro _
      exact alert (by omega)
    | some tag =>
      -- the notification passes on while there is a listener to take it
      rw [EventListener.drop_notified wf found]
      have parts := (wf.consume id found rfl).waiting_length
      intro someone
      simp only [Inner.grant, OrderedMap.size_overwrite, List.length_take] at someone ⊢
      omega

end Eneste
