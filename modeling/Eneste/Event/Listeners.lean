import Eneste.Library.Machine
import Eneste.Event.WaitLoop

/-!
# The listeners of an event

An `Event` and its listeners as their holders use them, in any order. A poll that
returns `Pending` leaves a clone of its waker with the event; the clones are told
apart by the number of the poll that made them. Each is stored once or woken once.
-/

namespace Eneste

variable {W T : Type}

/-- The clone of a waker that a poll hands to the event. -/
structure Clone (W : Type) where
  /-- How many polls came before. -/
  number : Nat
  waker : W
  deriving DecidableEq

structure Listeners (W T : Type) where
  inner : Inner (Clone W) T
  polls : Nat

namespace Listeners

inductive Op (W T : Type) where
  | listen
  | notify (value : Notification T)
  | poll (listener : Nat) (waker : W)
  | dropListener (listener : Nat)
  | dropEvent

inductive Res (T : Type) where
  | done
  | listening (listener : Nat)
  | polled (result : Poll T)
  deriving DecidableEq

def new : Listeners W T := ⟨Event.new, 0⟩

/-- One call. Only the event itself can be listened to, notified or dropped. -/
def step [Usize] (l : Listeners W T) : Op W T → Option (Listeners W T × Res T)
  | .listen =>
    if l.inner.closed then none
    else
      let (id, inner) := l.inner.listen
      some ({ l with inner := inner }, .listening id)
  | .notify value =>
    if l.inner.closed then none
    else some ({ l with inner := Event.notify value l.inner }, .done)
  | .poll listener waker =>
    match EventListener.poll listener ⟨l.polls, waker⟩ l.inner with
    | none => none
    | some (result, inner) => some (⟨inner, l.polls + 1⟩, .polled result)
  | .dropListener listener =>
    match l.inner.listeners.get? listener with
    | none => none
    | some _ => some ({ l with inner := EventListener.drop listener l.inner }, .done)
  | .dropEvent =>
    if l.inner.closed then none else some ({ l with inner := Event.drop l.inner }, .done)

def machine [Usize] : Machine (Listeners W T) (Op W T) (Res T) where
  init l := l = new
  step := step

/-! ### What a call can do -/

inductive Stepped (l : Listeners W T) : Op W T → Listeners W T → Res T → Prop
  | listens (alive : l.inner.closed = false) :
      Stepped l .listen { l with inner := l.inner.listen.2 } (.listening l.inner.nextId)
  | notifies {value} (count : Nat) (alive : l.inner.closed = false) :
      Stepped l (.notify value)
        { l with inner := l.inner.grant value.tag (l.inner.waiting.take count) } .done
  | yields {id waker tag} (found : l.inner.listeners.get? id = some ⟨none, some tag⟩) :
      Stepped l (.poll id waker) ⟨l.inner.read id, l.polls + 1⟩ (.polled (.ready tag))
  | waits {id waker old} (found : l.inner.listeners.get? id = some ⟨old, none⟩) :
      Stepped l (.poll id waker) ⟨l.inner.await id ⟨l.polls, waker⟩, l.polls + 1⟩
        (.polled .pending)
  | forgets {id old} (found : l.inner.listeners.get? id = some ⟨old, none⟩) :
      Stepped l (.dropListener id) { l with inner := l.inner.forget id } .done
  | passes {id tag} (found : l.inner.listeners.get? id = some ⟨none, some tag⟩) :
      Stepped l (.dropListener id)
        { l with inner := (l.inner.consume id).grant tag (l.inner.waiting.take 1) } .done
  | closes (alive : l.inner.closed = false) :
      Stepped l .dropEvent { l with inner := Event.drop l.inner } .done

variable {l l' : Listeners W T} {op : Op W T} {r : Res T}

theorem step_spec [Usize] (wf : l.inner.WF) (taken : l.step op = some (l', r)) :
    Stepped l op l' r := by
  -- the stored waker of a notified listener has been taken
  have asleep : ∀ {id waker tag}, l.inner.listeners.get? id = some ⟨waker, some tag⟩ →
      waker = none := fun found => wf.asleep _ _ found rfl
  cases op with
  | listen =>
    simp only [step] at taken
    split at taken
    · cases taken
    next alive =>
      cases taken
      exact .listens (by simpa using alive)
  | notify value =>
    simp only [step] at taken
    split at taken
    · cases taken
    next alive =>
      cases taken
      obtain ⟨count, granted⟩ := Event.notify_eq_grant value l.inner
      rw [granted]
      exact .notifies count (by simpa using alive)
  | poll id waker =>
    simp only [step] at taken
    cases found : l.inner.listeners.get? id with
    | none => simp [EventListener.poll, found] at taken
    | some entry =>
      obtain ⟨old, value⟩ := entry
      cases value with
      | none =>
        simp only [EventListener.poll_waiting _ found, Option.some.injEq, Prod.mk.injEq] at taken
        obtain ⟨rfl, rfl⟩ := taken
        exact .waits found
      | some tag =>
        cases asleep found
        simp only [EventListener.poll, found, Option.some.injEq, Prod.mk.injEq] at taken
        obtain ⟨rfl, rfl⟩ := taken
        exact .yields found
  | dropListener id =>
    simp only [step] at taken
    split at taken
    · cases taken
    next entry found =>
      cases taken
      obtain ⟨old, value⟩ := entry
      cases value with
      | none =>
        rw [EventListener.drop_waiting found]
        exact .forgets found
      | some tag =>
        cases asleep found
        rw [EventListener.drop_notified wf found, Inner.waiting_consume found rfl]
        exact .passes found
  | dropEvent =>
    simp only [step] at taken
    split at taken
    · cases taken
    next alive =>
      cases taken
      exact .closes (by simpa using alive)

end Listeners

/-! ### Where the clones are -/

/-- The number of the clone a listener stores, if it stores one. -/
def ListenerEntry.clones (entry : ListenerEntry (Clone W) T) : Multiset Nat :=
  ↑(entry.waker.toList.map Clone.number)

/-- The clones the event stores and those it has woken. -/
def Inner.clones (inner : Inner (Clone W) T) : Multiset Nat :=
  inner.listeners.total ListenerEntry.clones + ↑(inner.woken.map Clone.number)

namespace Inner

variable {inner later : Inner (Clone W) T}

/-- Granting takes a clone out of its listener and wakes it. -/
theorem clones_grant (tag : T) {ids : List Nat} (distinct : ids.Nodup)
    (present : ∀ id ∈ ids, id ∈ inner.listeners.keys) :
    (inner.grant tag ids).clones = inner.clones := by
  have taken : (ids.map fun id => ((inner.listeners.get? id).map ListenerEntry.clones).getD 0).sum =
      ↑((ids.filterMap fun id => (inner.listeners.get? id).bind ListenerEntry.waker).map
        Clone.number) := by
    clear distinct present
    induction ids with
    | nil => rfl
    | cons id ids ih =>
      rw [List.map_cons, List.sum_cons, ih, List.filterMap_cons]
      rcases inner.listeners.get? id with - | ⟨- | clone, value⟩ <;>
        simp [ListenerEntry.clones]
  have overwritten := inner.listeners.total_overwrite ListenerEntry.clones ⟨none, some tag⟩
    distinct present
  have empty : ListenerEntry.clones (⟨none, some tag⟩ : ListenerEntry (Clone W) T) = 0 := rfl
  rw [taken, empty, smul_zero, add_zero] at overwritten
  simp only [clones, grant, List.map_append, ← Multiset.coe_add]
  rw [← overwritten]
  abel

theorem clones_listen (wf : inner.WF) : inner.listen.2.clones = inner.clones := by
  simp only [clones, listen, OrderedMap.total_insert,
    OrderedMap.erase_of_get?_none _ wf.fresh]
  simp [ListenerEntry.clones]

theorem clones_read {id : Nat} {tag : T}
    (found : inner.listeners.get? id = some ⟨none, some tag⟩) :
    (inner.read id).clones = inner.clones := by
  simp only [clones, read, OrderedMap.total_insert, OrderedMap.total_erase _ _ found]
  simp [ListenerEntry.clones]

private theorem total_erase_le {id : Nat} {entry : ListenerEntry (Clone W) T}
    (found : inner.listeners.get? id = some entry) :
    (inner.listeners.erase id).total ListenerEntry.clones ≤
      inner.listeners.total ListenerEntry.clones := by
  rw [inner.listeners.total_erase _ found]
  exact Multiset.le_add_left _ _

/-- Waiting again replaces the clone a listener stores. -/
theorem clones_await {id : Nat} {clone : Clone W} {entry : ListenerEntry (Clone W) T}
    (found : inner.listeners.get? id = some entry) :
    (inner.await id clone).clones ≤ clone.number ::ₘ inner.clones := by
  have stored : ListenerEntry.clones (⟨some clone, none⟩ : ListenerEntry (Clone W) T) =
    {clone.number} := rfl
  simp only [clones, await, OrderedMap.total_insert, stored, ← Multiset.singleton_add, add_assoc]
  gcongr
  exact total_erase_le found

/-- A listener takes the clone it stores along. -/
theorem clones_erased {id : Nat} {entry : ListenerEntry (Clone W) T}
    (found : inner.listeners.get? id = some entry)
    (listeners : later.listeners = inner.listeners.erase id) (woken : later.woken = inner.woken) :
    later.clones ≤ inner.clones := by
  simp only [clones, listeners, woken]
  gcongr
  exact total_erase_le found

/-- Closing takes all stored clones and wakes them. -/
theorem clones_drop : (Event.drop inner).clones = inner.clones := by
  have emptied : (inner.listeners.map fun _ entry =>
      ({ entry with waker := none } : ListenerEntry (Clone W) T)).total ListenerEntry.clones =
        0 := by
    simp only [OrderedMap.total, OrderedMap.map, List.map_map]
    induction inner.listeners.entries with
    | nil => rfl
    | cons e rest ih => simpa [ListenerEntry.clones] using ih
  have woken : ((inner.listeners.entries.filterMap fun e => e.2.waker).map Clone.number :
      Multiset Nat) = inner.listeners.total ListenerEntry.clones := by
    rw [OrderedMap.total]
    induction inner.listeners.entries with
    | nil => rfl
    | cons e rest ih =>
      rw [List.map_cons, List.sum_cons, ← ih]
      rcases e with ⟨id, - | clone, value⟩ <;> simp [ListenerEntry.clones]
  simp only [clones, Event.drop_eq, List.map_append, ← Multiset.coe_add, emptied, woken]
  abel

end Inner

namespace Listeners

variable {l l' : Listeners W T} {op : Op W T} {r : Res T}

/-- Whoever inherits a notification is a listener other than the dropped one. -/
theorem heirs_waiting {id : Nat} {waker : Option (Clone W)} {tag : T}
    (found : l.inner.listeners.get? id = some ⟨waker, some tag⟩) :
    l.inner.waiting.take 1 ⊆ (l.inner.consume id).waiting := by
  rw [Inner.waiting_consume found rfl]
  exact List.take_subset _ _

/-- Each clone is in one place, and an earlier poll made it. -/
structure Inv (l : Listeners W T) : Prop where
  wf : l.inner.WF
  distinct : l.inner.clones.Nodup
  past : ∀ n ∈ l.inner.clones, n < l.polls

namespace Inv

theorem new : (Listeners.new : Listeners W T).Inv where
  wf := Inner.WF.new
  distinct := Multiset.nodup_zero
  past := by simp [Inner.clones, Listeners.new, Event.new, OrderedMap.empty, OrderedMap.total]

private theorem kept (inv : l.Inv) (wf : l'.inner.WF) (clones : l'.inner.clones ≤ l.inner.clones)
    (polls : l.polls ≤ l'.polls) : l'.Inv where
  wf := wf
  distinct := Multiset.nodup_of_le clones inv.distinct
  past n member := (inv.past n (Multiset.mem_of_le clones member)).trans_le polls

theorem stepped (inv : l.Inv) (stepped : Stepped l op l' r) : l'.Inv := by
  have present : ∀ {count}, ∀ id ∈ l.inner.waiting.take count, id ∈ l.inner.listeners.keys := by
    intro count id member
    obtain ⟨entry, found, _⟩ := (l.inner.mem_waiting id).mp (List.mem_of_mem_take member)
    exact (OrderedMap.mem_keys_iff _ _).mpr ⟨entry, found⟩
  have distinct : ∀ count, (l.inner.waiting.take count).Nodup := fun count =>
    l.inner.waiting_nodup.sublist (List.take_sublist _ _)
  cases stepped with
  | listens => exact inv.kept inv.wf.listen (Inner.clones_listen inv.wf).le le_rfl
  | notifies count =>
    exact inv.kept (inv.wf.grant _ (distinct count) (List.take_subset _ _))
      (Inner.clones_grant _ (distinct count) present).le le_rfl
  | yields found =>
    exact inv.kept (inv.wf.read _ found rfl) (Inner.clones_read found).le (Nat.le_succ _)
  | @waits id waker _ found =>
    have clones : (l.inner.await id ⟨l.polls, waker⟩).clones ≤ l.polls ::ₘ l.inner.clones :=
      Inner.clones_await found
    refine ⟨inv.wf.await _ _ found rfl, Multiset.nodup_of_le clones ?_, fun n member => ?_⟩
    · -- the number of this poll is used for the first time
      exact Multiset.nodup_cons.mpr ⟨fun member => (inv.past _ member).false, inv.distinct⟩
    · rcases Multiset.mem_cons.mp (Multiset.mem_of_le clones member) with rfl | old
      · exact Nat.lt_succ_self _
      · exact (inv.past n old).trans (Nat.lt_succ_self _)
  | forgets found =>
    exact inv.kept (inv.wf.forget _ found rfl) (Inner.clones_erased found rfl rfl) le_rfl
  | @passes id tag found =>
    have heirs := heirs_waiting found
    refine inv.kept ((inv.wf.consume id found rfl).grant tag (distinct 1) heirs) ?_ le_rfl
    rw [Inner.clones_grant _ (distinct 1) fun j member => ?_]
    · exact Inner.clones_erased found rfl rfl
    · obtain ⟨entry, stored, _⟩ := ((l.inner.consume id).mem_waiting j).mp (heirs member)
      exact (OrderedMap.mem_keys_iff _ _).mpr ⟨entry, stored⟩
  | closes => exact inv.kept inv.wf.close Inner.clones_drop.le le_rfl

theorem of_run [Usize] {ts} (run : machine.Run ts l) : l.Inv := by
  refine run.invariant ?_ fun _ _ _ _ inv taken => inv.stepped (step_spec inv.wf taken)
  rintro _ rfl
  exact Inv.new

end Inv

/-! ### One wake for each poll that waits -/

/-- The listener is notified, or the event is dropped. -/
def Reaches (id : Nat) (t : Machine.Transition (Listeners W T) (Op W T) (Res T)) : Prop :=
  t.act = .dropEvent ∨ (EventListener.isNotified id t.before.inner = false ∧
    EventListener.isNotified id t.after.inner = true)

/-- The clone stored for the listener. -/
def stored (id : Nat) (l : Listeners W T) : Option (Clone W) :=
  (l.inner.listeners.get? id).bind ListenerEntry.waker

/-- Each time the event woke the clone made by a poll. -/
def wakes (number : Nat) (l : Listeners W T) : List (Clone W) :=
  l.inner.woken.filter fun clone => clone.number == number

/-- Calls on other listeners either leave a listener as it is, or they notify it or close
the event, and then its stored clone is taken and woken. -/
theorem Stepped.entry (stepped : Stepped l op l' r) (inv : l.Inv) {id : Nat}
    {entry : ListenerEntry (Clone W) T} (found : l.inner.listeners.get? id = some entry)
    (others : ∀ waker, op ≠ .poll id waker) (stays : op ≠ .dropListener id) :
    (op ≠ .dropEvent ∧ l'.inner.listeners.get? id = some entry) ∨
      ∃ value, l'.inner.listeners.get? id = some ⟨none, value⟩ ∧
        (∀ clone, entry.waker = some clone → clone ∈ l'.inner.woken) ∧
        (op = .dropEvent ∨ entry.value = none ∧ value.isSome = true) := by
  -- granting notifies a listener that waits, and wakes it
  have granted : ∀ (inner : Inner (Clone W) T) (tag : T) (ids : List Nat), ids ⊆ inner.waiting →
      inner.listeners.get? id = some entry →
      (inner.grant tag ids).listeners.get? id = some entry ∨
        ∃ value, (inner.grant tag ids).listeners.get? id = some ⟨none, value⟩ ∧
          (∀ clone, entry.waker = some clone → clone ∈ (inner.grant tag ids).woken) ∧
          entry.value = none ∧ value.isSome = true := by
    intro inner tag ids waiting present
    rw [Inner.get?_grant]
    split
    next member =>
      obtain ⟨other, same, empty⟩ := (inner.mem_waiting id).mp (waiting member)
      cases present.symm.trans same
      refine .inr ⟨some tag, by simp [present], fun clone holds => ?_, empty, rfl⟩
      exact List.mem_of_mem_drop (inner.mem_woken_grant tag member present holds)
    next => exact .inl present
  cases stepped with
  | listens =>
    refine .inl ⟨by simp, ?_⟩
    have old : id ≠ l.inner.nextId := by
      rintro rfl
      rw [inv.wf.fresh] at found
      cases found
    simp only [Inner.listen]
    rw [OrderedMap.get?_insert_of_ne _ _ old, found]
  | notifies count =>
    rcases granted l.inner _ _ (List.take_subset _ _) found with same | ⟨value, notified, rest⟩
    · exact .inl ⟨by simp, same⟩
    · exact .inr ⟨value, notified, rest.1, .inr rest.2⟩
  | @yields j waker =>
    have other : id ≠ j := fun same => others waker (same ▸ rfl)
    exact .inl ⟨by simp, (OrderedMap.get?_insert_of_ne _ _ other).trans found⟩
  | @waits j waker =>
    have other : id ≠ j := fun same => others waker (same ▸ rfl)
    exact .inl ⟨by simp, (OrderedMap.get?_insert_of_ne _ _ other).trans found⟩
  | @forgets j =>
    have other : id ≠ j := fun same => stays (same ▸ rfl)
    exact .inl ⟨by simp, (OrderedMap.get?_erase_of_ne _ other).trans found⟩
  | @passes j tag held =>
    have other : id ≠ j := fun same => stays (same ▸ rfl)
    rcases granted (l.inner.consume j) tag _ (heirs_waiting held)
      ((OrderedMap.get?_erase_of_ne _ other).trans found) with same | ⟨value, notified, rest⟩
    · exact .inl ⟨by simp, same⟩
    · exact .inr ⟨value, notified, rest.1, .inr rest.2⟩
  | closes =>
    refine .inr ⟨entry.value, by simp [Event.drop_eq, found], fun clone holds => ?_, .inl rfl⟩
    rw [Event.drop_eq]
    exact List.mem_append_right _ (List.mem_filterMap.mpr
      ⟨_, (OrderedMap.get?_eq_some_iff _ _ _).mp found, holds⟩)

/-- What was woken stays woken. -/
theorem Stepped.woken (stepped : Stepped l op l' r) : l.inner.woken ⊆ l'.inner.woken := by
  cases stepped with
  | closes => simp [Event.drop_eq]
  | _ => first | exact List.subset_append_left _ _ | exact List.Subset.refl _

/-- A clone that is stored has not been woken. -/
theorem Inv.wakes_stored (inv : l.Inv) {id : Nat} {clone : Clone W} {value : Option T}
    (found : l.inner.listeners.get? id = some ⟨some clone, value⟩) :
    l.wakes clone.number = [] := by
  have distinct := inv.distinct
  rw [Inner.clones, l.inner.listeners.total_erase _ found] at distinct
  have apart := (Multiset.nodup_add.mp distinct).2.2
  apply List.filter_eq_nil_iff.mpr
  intro other woken same
  have held : clone.number ∈ ListenerEntry.clones ⟨some clone, value⟩ +
      (l.inner.listeners.erase id).total ListenerEntry.clones := by
    simp [ListenerEntry.clones]
  exact Multiset.disjoint_left.mp apart held
    (Multiset.mem_coe.mpr (List.mem_map.mpr ⟨other, woken, by simpa using same⟩))

/-- A clone is not woken twice. -/
theorem Inv.wakes_woken (inv : l.Inv) {clone : Clone W} (woken : clone ∈ l.inner.woken) :
    l.wakes clone.number = [clone] := by
  have distinct : (l.inner.woken.map Clone.number).Nodup :=
    Multiset.coe_nodup.mp (Multiset.nodup_of_le (Multiset.le_add_left _ _) inv.distinct)
  obtain ⟨earlier, later, split⟩ := List.append_of_mem woken
  rw [split, List.map_append, List.map_cons, List.nodup_middle] at distinct
  have others : ∀ other ∈ earlier ++ later, ¬(other.number == clone.number) = true := by
    intro other member same
    apply (List.nodup_cons.mp distinct).1
    rw [← List.map_append]
    exact List.mem_map.mpr ⟨other, member, by simpa using same⟩
  have none := List.filter_eq_nil_iff.mpr others
  rw [List.filter_append, List.append_eq_nil_iff] at none
  simp [wakes, split, none.1, none.2]

/-- The listener waits and the clone is stored for it. -/
def Asleep (id : Nat) (clone : Clone W) (l : Listeners W T) : Prop :=
  l.inner.listeners.get? id = some ⟨some clone, none⟩

/-- The clone has been taken out of the listener and woken. -/
def Woken (id : Nat) (clone : Clone W) (l : Listeners W T) : Prop :=
  (∃ value, l.inner.listeners.get? id = some ⟨none, value⟩) ∧ clone ∈ l.inner.woken

section

variable {id : Nat} {clone : Clone W} {t : Machine.Transition (Listeners W T) (Op W T) (Res T)}

theorem Asleep.step (asleep : Asleep id clone t.before) (inv : t.before.Inv)
    (stepped : Stepped t.before t.act t.after t.out) (others : ∀ waker, t.act ≠ .poll id waker)
    (stays : t.act ≠ .dropListener id) :
    (¬Reaches id t ∧ Asleep id clone t.after) ∨ (Reaches id t ∧ Woken id clone t.after) := by
  rcases stepped.entry inv asleep others stays with ⟨lives, same⟩ | ⟨value, taken, woken, why⟩
  · refine .inl ⟨?_, same⟩
    rintro (closes | ⟨_, notified⟩)
    · exact lives closes
    · simp [EventListener.isNotified, same, ListenerEntry.isNotified] at notified
  · refine .inr ⟨?_, ⟨value, taken⟩, woken clone rfl⟩
    rcases why with closes | ⟨_, notified⟩
    · exact .inl closes
    · right
      simp only [Asleep] at asleep
      simp [EventListener.isNotified, asleep, taken, ListenerEntry.isNotified, notified]

theorem Woken.step (woken : Woken id clone t.before) (inv : t.before.Inv)
    (stepped : Stepped t.before t.act t.after t.out) (others : ∀ waker, t.act ≠ .poll id waker)
    (stays : t.act ≠ .dropListener id) : Woken id clone t.after := by
  obtain ⟨⟨value, found⟩, member⟩ := woken
  refine ⟨?_, stepped.woken member⟩
  rcases stepped.entry inv found others stays with ⟨_, same⟩ | ⟨value, taken, _⟩
  · exact ⟨value, same⟩
  · exact ⟨value, taken⟩

variable [Usize] {before later : List (Machine.Transition (Listeners W T) (Op W T) (Res T))}
  {waker : W}

/-- Since a poll that waited, its clone is stored until the listener is reached. -/
theorem asleep_or_woken (run : machine.Run (before ++ t :: later) l)
    (act : t.act = .poll id waker) (pending : t.out = .polled .pending)
    (last : ∀ u ∈ later, (∀ w, u.act ≠ .poll id w) ∧ u.act ≠ .dropListener id) :
    ((∀ u ∈ later, ¬Reaches id u) ∧ Asleep id ⟨t.before.polls, waker⟩ l) ∨
      ((∃ u ∈ later, Reaches id u) ∧ Woken id ⟨t.before.polls, waker⟩ l) := by
  refine run.since (P := fun us l =>
    (∀ u ∈ us, (∀ w, u.act ≠ .poll id w) ∧ u.act ≠ .dropListener id) →
    ((∀ u ∈ us, ¬Reaches id u) ∧ Asleep id ⟨t.before.polls, waker⟩ l) ∨
      ((∃ u ∈ us, Reaches id u) ∧ Woken id ⟨t.before.polls, waker⟩ l)) ?_ ?_ last
  · intro prior taken _
    have stepped := step_spec (Inv.of_run prior).wf taken
    rw [act, pending] at stepped
    generalize after : t.after = a at stepped
    cases stepped
    exact .inl ⟨by simp, by simp [Asleep, Inner.await]⟩
  · intro us u prior ih taken only
    have inv := Inv.of_run prior
    have stepped := step_spec inv.wf taken
    obtain ⟨others, stays⟩ := only u (by simp)
    rcases ih fun v member => only v (by simp [member]) with ⟨none, asleep⟩ | ⟨⟨v, member, reached⟩,
      woken⟩
    · rcases asleep.step inv stepped others stays with ⟨quiet, asleep⟩ | ⟨reached, woken⟩
      · refine .inl ⟨fun v member => ?_, asleep⟩
        rcases List.mem_append.mp member with old | new
        · exact none v old
        · cases List.mem_singleton.mp new
          exact quiet
      · exact .inr ⟨⟨u, by simp, reached⟩, woken⟩
    · exact .inr ⟨⟨v, by simp [member], reached⟩, woken.step inv stepped others stays⟩

/-- A poll that returns `Pending` has its waker woken exactly once: when the listener is
notified or the event is dropped. Until then the event stores it, and no other one. -/
theorem woken_once (run : machine.Run (before ++ t :: later) l)
    (act : t.act = .poll id waker) (pending : t.out = .polled .pending)
    (last : ∀ u ∈ later, (∀ w, u.act ≠ .poll id w) ∧ u.act ≠ .dropListener id) :
    ((∀ u ∈ later, ¬Reaches id u) →
      l.stored id = some ⟨t.before.polls, waker⟩ ∧ l.wakes t.before.polls = []) ∧
    ((∃ u ∈ later, Reaches id u) →
      l.stored id = none ∧ l.wakes t.before.polls = [⟨t.before.polls, waker⟩]) := by
  have inv := Inv.of_run run
  rcases asleep_or_woken run act pending last with
    ⟨none, asleep⟩ | ⟨⟨u, member, reached⟩, ⟨value, found⟩, woken⟩
  · refine ⟨fun _ => ⟨?_, inv.wakes_stored asleep⟩, fun ⟨u, member, reached⟩ => ?_⟩
    · rw [stored, asleep]
      rfl
    · exact absurd reached (none u member)
  · refine ⟨fun none => absurd reached (none u member), fun _ => ⟨?_, inv.wakes_woken woken⟩⟩
    rw [stored, found]
    rfl

end

/-- A notified listener is dropped, and its notification passes to the one that waits. -/
theorem woken_by_hand_off : ∃ ts, ∃ l : Listeners Nat Unit, machine.Run ts l ∧
    ts.map Machine.Transition.act = [.listen, .listen, .poll 1 7, .notify (.usize 1),
      .dropListener 0] ∧
    l.stored 1 = none ∧ l.wakes 0 = [⟨0, 7⟩] := by
  obtain ⟨before, t, later, l, run, first, act, rest, pending, number, reached⟩ :=
    Machine.exists_run_at (m := machine (W := Nat) (T := Unit))
      (P := fun _ t later _ => t.out = .polled .pending ∧ t.before.polls = 0 ∧
        ∃ u ∈ later, EventListener.isNotified 1 u.before.inner = false ∧
          EventListener.isNotified 1 u.after.inner = true)
      [.listen, .listen] (.poll 1 7) [.notify (.usize 1), .dropListener 0] rfl (by decide)
  obtain ⟨u, member, wakes⟩ := reached
  have calls : ∀ v ∈ later, v.act ∈ [Op.notify (.usize 1), Op.dropListener 0] := fun v member =>
    rest ▸ List.mem_map_of_mem member
  have once := (woken_once run act pending fun v member => by
    have call := calls v member
    simp only [List.mem_cons, List.not_mem_nil, or_false] at call
    rcases call with call | call <;> simp [call]).2 ⟨u, member, .inr wakes⟩
  rw [number] at once
  exact ⟨_, l, run, by simp [first, act, rest], once⟩

end Listeners

end Eneste
