import Eneste.Event.Listeners

/-!
# The ledger of notifications

Each tag that `notify` places in a listener is returned by a poll, still held, or was
discarded when no other listener waited for it: dropping a listener passes its tag on.
-/

namespace Eneste

variable {W T : Type}

/-- The tags of the notifications that listeners hold. -/
def Inner.tags (inner : Inner W T) : Multiset T :=
  inner.listeners.total fun entry => ↑entry.value.toList

namespace Listeners

/-- The tag of the notification that the listener holds. -/
def tagOf (id : Nat) (l : Listeners W T) : Option T :=
  (l.inner.listeners.get? id).bind ListenerEntry.value

section

variable (t : Machine.Transition (Listeners W T) (Op W T) (Res T))

/-- The tags that a call of `notify` leaves in listeners that held none. -/
def placed : Multiset T :=
  match t.act with
  | .notify _ => ↑(t.before.inner.waiting.filterMap fun id => t.after.tagOf id)
  | _ => 0

/-- The tag that a poll returns. -/
def returned : Multiset T :=
  match t.out with
  | .polled (.ready tag) => {tag}
  | _ => 0

/-- The tag of a listener that is dropped when nobody waits. -/
def discarded : Multiset T :=
  match t.act with
  | .dropListener id =>
    match t.before.tagOf id, t.before.inner.waiting with
    | some tag, [] => {tag}
    | _, _ => 0
  | _ => 0

end

/-! ### One call -/

private theorem tags_grant {inner : Inner W T} (tag : T) {ids : List Nat}
    (distinct : ids.Nodup) (waiting : ids ⊆ inner.waiting) :
    (inner.grant tag ids).tags = inner.tags + Multiset.replicate ids.length tag := by
  have present : ∀ id ∈ ids, id ∈ inner.listeners.keys := by
    intro id member
    obtain ⟨entry, found, _⟩ := (inner.mem_waiting id).mp (waiting member)
    exact (OrderedMap.mem_keys_iff _ _).mpr ⟨entry, found⟩
  -- a listener that waits holds no tag yet
  have empty : (ids.map fun id => ((inner.listeners.get? id).map
      fun entry => (↑entry.value.toList : Multiset T)).getD 0).sum = 0 := by
    apply List.sum_eq_zero
    intro amount member
    obtain ⟨id, among, rfl⟩ := List.mem_map.mp member
    obtain ⟨entry, found, none⟩ := (inner.mem_waiting id).mp (waiting among)
    simp [found, none]
  have overwritten := inner.listeners.total_overwrite
    (fun entry => (↑entry.value.toList : Multiset T)) ⟨none, some tag⟩ distinct present
  rw [empty, add_zero] at overwritten
  rw [Inner.tags, Inner.grant, overwritten, Inner.tags]
  simp [Multiset.nsmul_singleton]

/-- The listeners that `notify` reaches hold its tag, and the others wait on. -/
private theorem placed_grant (l l' : Listeners W T) (tag : T) (count : Nat)
    (granted : l'.inner = l.inner.grant tag (l.inner.waiting.take count)) :
    (l.inner.waiting.filterMap fun id => l'.tagOf id) =
      List.replicate (l.inner.waiting.take count).length tag := by
  have distinct := l.inner.waiting_nodup
  rw [← List.take_append_drop count l.inner.waiting] at distinct
  have apart := (List.nodup_append.mp distinct).2.2
  have chosen : ∀ id ∈ l.inner.waiting.take count, l'.tagOf id = some tag := by
    intro id member
    obtain ⟨entry, found, _⟩ := (l.inner.mem_waiting id).mp (List.mem_of_mem_take member)
    simp [tagOf, granted, Inner.get?_grant, member, found]
  have passed : ∀ id ∈ l.inner.waiting.drop count, l'.tagOf id = none := by
    intro id member
    obtain ⟨entry, found, none⟩ := (l.inner.mem_waiting id).mp (List.mem_of_mem_drop member)
    have absent : id ∉ l.inner.waiting.take count := fun among => apart id among id member rfl
    simp [tagOf, granted, Inner.get?_grant, absent, found, none]
  calc (l.inner.waiting.filterMap fun id => l'.tagOf id)
      = (l.inner.waiting.take count ++ l.inner.waiting.drop count).filterMap
          fun id => l'.tagOf id := by rw [List.take_append_drop]
    _ = (l.inner.waiting.take count).filterMap fun _ => some tag := by
        rw [List.filterMap_append, List.filterMap_eq_nil_iff.mpr passed, List.append_nil,
          List.filterMap_congr chosen]
    _ = List.replicate (l.inner.waiting.take count).length tag := by simp [List.map_const']

/-- Each call balances: what was held and what is placed is returned, held or discarded. -/
private theorem balanced {l l' : Listeners W T} {op : Op W T} {r : Res T} (inv : l.Inv)
    (stepped : Stepped l op l' r) :
    l.inner.tags + placed ⟨l, op, r, l'⟩ =
      returned ⟨l, op, r, l'⟩ + l'.inner.tags + discarded ⟨l, op, r, l'⟩ := by
  have waiting := fun count => l.inner.waiting_nodup.sublist (List.take_sublist count _)
  cases stepped with
  | listens =>
    simp only [Inner.tags, placed, returned, discarded, Inner.listen, OrderedMap.total_insert,
      OrderedMap.erase_of_get?_none _ inv.wf.fresh]
    simp
  | @notifies value count =>
    have granted := tags_grant value.tag (waiting count) (List.take_subset _ _)
    have reached := placed_grant l
      { l with inner := l.inner.grant value.tag (l.inner.waiting.take count) } value.tag count rfl
    simp only [placed, returned, discarded, reached, Multiset.coe_replicate, granted]
    simp
  | @yields id waker tag found =>
    simp only [Inner.tags, placed, returned, discarded, Inner.read, OrderedMap.total_insert,
      OrderedMap.total_erase _ _ found]
    simp
  | @waits id waker old found =>
    simp only [Inner.tags, placed, returned, discarded, Inner.await, OrderedMap.total_insert,
      OrderedMap.total_erase _ _ found]
    simp
  | @forgets id old found =>
    have none : l.tagOf id = none := by simp [tagOf, found]
    simp only [Inner.tags, placed, returned, discarded, none, Inner.forget,
      OrderedMap.total_erase _ _ found]
    simp
  | @passes id tag found =>
    have holds : l.tagOf id = some tag := by simp [tagOf, found]
    have granted := tags_grant tag (waiting 1) (heirs_waiting found)
    have erased : l.inner.tags = {tag} + (l.inner.consume id).tags := by
      simp only [Inner.tags, Inner.consume, OrderedMap.total_erase _ _ found]
      simp
    simp only [placed, returned, discarded, holds, erased, granted]
    -- the tag passes to the first listener that waits, if there is one
    cases l.inner.waiting with
    | nil => simp [add_comm]
    | cons heir rest => simp [add_comm]
  | closes =>
    simp [Inner.tags, placed, returned, discarded, Event.drop_eq, OrderedMap.total, OrderedMap.map,
      Function.comp_def]

/-- A dropped listener's tag moves to the first listener that waits, and no other. -/
private theorem handed_on {l l' : Listeners W T} {r : Res T} {id : Nat} {tag : T}
    (stepped : Stepped l (.dropListener id) l' r) (holds : l.tagOf id = some tag)
    (waiting : l.inner.waiting ≠ []) :
    ∃ heir ∈ l.inner.waiting, (∀ j ∈ l.inner.waiting, heir ≤ j) ∧
      l'.tagOf heir = some tag ∧ ∀ j, j ≠ id → j ≠ heir → l'.tagOf j = l.tagOf j := by
  cases stepped with
  | forgets found => simp [tagOf, found] at holds
  | @passes _ tag found =>
    cases (by simpa [tagOf, found] using holds : tag = _)
    have sorted : l.inner.waiting.Pairwise (· < ·) := l.inner.listeners.keysWith_sorted _
    have heirs := heirs_waiting found
    cases order : l.inner.waiting with
    | nil => exact absurd order waiting
    | cons heir rest =>
      rw [order] at sorted heirs
      simp only [List.take_succ_cons, List.take_zero] at heirs ⊢
      obtain ⟨entry, left, _⟩ := ((l.inner.consume id).mem_waiting heir).mp (heirs (by simp))
      refine ⟨heir, by simp, fun j member => ?_, by simp [tagOf, Inner.get?_grant, left],
        fun j other apart => ?_⟩
      · rcases List.mem_cons.mp member with rfl | later
        · exact le_rfl
        · exact ((List.pairwise_cons.mp sorted).1 j later).le
      · simp [tagOf, Inner.get?_grant, apart, Inner.consume, OrderedMap.get?_erase_of_ne _ other]

/-- Placed tags are returned, held or discarded, and a tag is discarded only if nobody is
left to take it. Otherwise dropping its listener moves it to the first that waits. -/
theorem notifications_conserved [Usize] {ts} {l : Listeners W T} (run : machine.Run ts l) :
    (ts.map placed).sum = (ts.map returned).sum + l.inner.tags + (ts.map discarded).sum ∧
    (∀ t ∈ ts, discarded t ≠ 0 → ∃ id, t.act = .dropListener id ∧
      EventListener.isNotified id t.before.inner = true ∧
      ∀ j ∈ t.before.inner.listeners.keys, EventListener.isNotified j t.before.inner = true) ∧
    ∀ t ∈ ts, ∀ id tag, t.act = .dropListener id → t.before.tagOf id = some tag →
      t.before.inner.waiting ≠ [] →
      ∃ heir ∈ t.before.inner.waiting, (∀ j ∈ t.before.inner.waiting, heir ≤ j) ∧
        t.after.tagOf heir = some tag ∧
        ∀ j, j ≠ id → j ≠ heir → t.after.tagOf j = t.before.tagOf j := by
  refine ⟨?_, fun t member lost => ?_, fun t member id tag act holds waiting => ?_⟩
  · induction run with
    | start fresh =>
      cases fresh
      rfl
    | @next ts l op l' r prior taken ih =>
      have inv := Inv.of_run prior
      have step := balanced inv (step_spec inv.wf taken)
      simp only [List.map_append, List.map_cons, List.map_nil, List.sum_append, List.sum_cons,
        List.sum_nil, add_zero]
      rw [ih]
      calc (ts.map returned).sum + l.inner.tags + (ts.map discarded).sum + placed ⟨l, op, r, l'⟩
          = (ts.map returned).sum + (ts.map discarded).sum +
            (l.inner.tags + placed ⟨l, op, r, l'⟩) := by abel
        _ = _ := by rw [step]; abel
  · simp only [discarded] at lost
    split at lost
    next id act =>
      split at lost
      next tag holds nobody =>
        refine ⟨id, act, ?_, fun j there => ?_⟩
        · obtain ⟨entry, found, value⟩ := Option.bind_eq_some_iff.mp holds
          simp [EventListener.isNotified, found, ListenerEntry.isNotified, value]
        · obtain ⟨⟨waker, value⟩, found⟩ := (OrderedMap.mem_keys_iff _ _).mp there
          cases value with
          | some _ => simp [EventListener.isNotified, found, ListenerEntry.isNotified]
          | none =>
            have waits := (t.before.inner.mem_waiting j).mpr ⟨_, found, rfl⟩
            simp [nobody] at waits
      · exact absurd rfl lost
    · exact absurd rfl lost
  · obtain ⟨⟨_, prior⟩, taken⟩ := run.step_of_mem member
    have stepped := step_spec (Inv.of_run prior).wf taken
    rw [act] at stepped
    exact handed_on stepped holds waiting

/-- A tag travels through two dropped listeners to the one that returns it. -/
theorem notification_travels : ∃ ts, ∃ l : Listeners Nat Nat, machine.Run ts l ∧
    ts.map Machine.Transition.act = [.listen, .listen, .listen,
      .notify ((Notification.usize 1).with 5), .dropListener 0, .dropListener 1, .poll 2 0] ∧
    (ts.map returned).sum = {5} ∧
    (ts.map placed).sum = {5} + l.inner.tags + (ts.map discarded).sum := by
  obtain ⟨ts, l, run, acts, yielded⟩ := Machine.exists_run
    (m := machine (W := Nat) (T := Nat)) (P := fun ts _ => (ts.map returned).sum = {5})
    [.listen, .listen, .listen, .notify ((Notification.usize 1).with 5), .dropListener 0,
      .dropListener 1, .poll 2 0] rfl (by decide)
  refine ⟨ts, l, run, acts, yielded, ?_⟩
  rw [← yielded]
  exact (notifications_conserved run).1

end Listeners

end Eneste
