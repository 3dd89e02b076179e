import Eneste.Event.SharedEvent

/-!
# Calls on an event that are unwound

Code that an event runs may panic, and `borrow_mut` panics in code that calls the event
back. The first can leave the counter of the event short of the listeners that have a
notification, the second a listener in the map that nobody owns. Both are exact: nothing
else does.
-/

namespace Eneste

variable {W T : Type}

/-! ### The lag of the counter -/

namespace Inner

variable {inner : Inner (Clone W) T}

/-- How many notified listeners the counter misses. -/
def lag (inner : Inner (Clone W) T) : Int :=
  inner.listeners.count ListenerEntry.isNotified - inner.notified

theorem lag_grant (tag : T) {ids : List Nat} (distinct : ids.Nodup)
    (waiting : ids ⊆ inner.waiting) : (inner.grant tag ids).lag = inner.lag := by
  have fails : ∀ id ∈ ids, ∃ old, inner.listeners.get? id = some old ∧
      old.isNotified = false := by
    intro id member
    obtain ⟨old, found, empty⟩ := (inner.mem_waiting id).mp (waiting member)
    exact ⟨old, found, by simp [ListenerEntry.isNotified, empty]⟩
  have more := inner.listeners.count_overwrite ListenerEntry.isNotified
    (v := ⟨none, some tag⟩) distinct fails rfl
  simp only [lag, grant, more]
  omega

theorem choose_subset (count : Nat) (ids : List Nat) : inner.choose count ids ⊆ inner.waiting := by
  intro id member
  have waits := (List.mem_filter.mp (List.mem_of_mem_take member)).2
  obtain ⟨entry, found, empty⟩ := (Option.any_eq_true _ _).mp waits
  exact (inner.mem_waiting id).mpr ⟨entry, found, by simpa [ListenerEntry.isNotified] using empty⟩

theorem choose_nodup (count : Nat) {ids : List Nat} (distinct : ids.Nodup) :
    (inner.choose count ids).Nodup :=
  (distinct.filter _).sublist (List.take_sublist _ _)

theorem lag_notifyRest (tag : T) (count notified : Nat) {ids : List Nat} (distinct : ids.Nodup) :
    (inner.notifyRest tag count notified ids).lag = inner.lag - notified := by
  rw [notifyRest, lag_grant tag]
  · simp only [lag]
    omega
  · exact choose_nodup _ distinct
  · exact choose_subset _ _

/-- Entries keep their values while their wakers are taken. -/
theorem count_map (inner : Inner (Clone W) T)
    (f : Nat → ListenerEntry (Clone W) T → ListenerEntry (Clone W) T)
    (keeps : ∀ id entry, (f id entry).isNotified = entry.isNotified) :
    (inner.listeners.map f).count ListenerEntry.isNotified =
      inner.listeners.count ListenerEntry.isNotified := by
  simp [OrderedMap.count, OrderedMap.map, List.countP_map, Function.comp_def, keeps]

/-- A new entry in the place of an old one. -/
theorem count_insert {id : Nat} {old : ListenerEntry (Clone W) T} (new : ListenerEntry (Clone W) T)
    (found : inner.listeners.get? id = some old) :
    (inner.listeners.insert id new).count ListenerEntry.isNotified + old.isNotified.toNat =
      inner.listeners.count ListenerEntry.isNotified + new.isNotified.toNat := by
  rw [OrderedMap.count_insert, inner.listeners.count_erase _ found]
  cases old.isNotified <;> cases new.isNotified <;> simp

theorem count_erase {id : Nat} {old : ListenerEntry (Clone W) T}
    (found : inner.listeners.get? id = some old) :
    (inner.listeners.erase id).count ListenerEntry.isNotified + old.isNotified.toNat =
      inner.listeners.count ListenerEntry.isNotified := by
  rw [inner.listeners.count_erase _ found]
  cases old.isNotified <;> simp

/-- The listener is notified and the counter does not count it. -/
def Uncounted (inner : Inner (Clone W) T) : Prop :=
  inner.notified = 0 ∧ 0 < inner.listeners.count ListenerEntry.isNotified

theorem lag_drop (id : Nat) : (EventListener.drop id inner).lag = inner.lag ∨
    inner.Uncounted ∧ (EventListener.drop id inner).lag = inner.lag - 1 := by
  cases found : inner.listeners.get? id with
  | none => simp [EventListener.drop, found]
  | some entry =>
    have removed := count_erase found
    cases already : entry.isNotified with
    | false =>
      left
      simp [EventListener.drop, found, already, lag] at removed ⊢
      omega
    | true =>
      simp only [already, Bool.toNat_true] at removed
      by_cases zero : inner.notified = 0
      · right
        simp only [EventListener.drop, found, zero, beq_self_eq_true, Bool.or_true, ite_true, lag]
        exact ⟨⟨zero, by omega⟩, by omega⟩
      · left
        simp only [EventListener.drop, found, already, Bool.not_true, Bool.false_or, beq_iff_eq,
          zero, ite_false]
        cases first : (inner.listeners.erase id).find? fun e => !e.isNotified with
        | none =>
          simp only [lag]
          omega
        | some next =>
          -- the heir gains the notification that the dropped listener had
          have held : (inner.forget id).listeners.get? next.1 = some next.2 :=
            (OrderedMap.get?_eq_some_iff _ _ _).mpr (List.mem_of_find?_eq_some first)
          have waits : next.2.isNotified = false := by
            simpa using List.find?_some first
          have gained := count_insert (⟨none, entry.value⟩ : ListenerEntry (Clone W) T) held
          have same : (⟨none, entry.value⟩ : ListenerEntry (Clone W) T).isNotified = true := already
          simp only [waits, same, forget, Bool.toNat_false, Bool.toNat_true] at gained
          simp only [lag]
          omega

/-- As many listeners have a notification as `notify` was asked for, if there are as many. -/
def Reaches (value : Notification T) (inner : Inner (Clone W) T) : Prop :=
  min value.count inner.listeners.size ≤ inner.listeners.count ListenerEntry.isNotified

/-- A counter that is too low makes `notify` notify more listeners, not less. -/
theorem reaches_notify [Usize] (value : Notification T)
    (least : inner.notified ≤ inner.listeners.count ListenerEntry.isNotified) :
    (Event.notify value inner).Reaches value := by
  have parts : inner.listeners.count ListenerEntry.isNotified + inner.waiting.length =
      inner.listeners.size := by
    rw [waiting, OrderedMap.keysWith_length, OrderedMap.count_add_count_not]
  have far : min value.count inner.listeners.size ≤
      inner.listeners.count ListenerEntry.isNotified + Event.limit value inner := by
    unfold Event.limit
    split
    · omega
    · split <;> omega
  rw [Event.notify_eq_loop, Event.notifyLoop_eq_grant, Reaches]
  generalize Event.limit value inner = count at far
  have kept := lag_grant value.tag (inner.waiting_nodup.sublist (List.take_sublist count _))
    (List.take_subset _ _)
  simp only [lag, grant, List.length_take, OrderedMap.size_overwrite] at kept ⊢
  omega

end Inner

namespace SharedEvent

open Listeners (Op Res)

variable {s : SharedEvent W T}

/-- The call in flight counts the values it has given out later, unless it is unwound. -/
theorem lag_settleAt {inner : Inner (Clone W) T} {place : Inside W T} (fits : Fits inner place) :
    (settleAt inner place).lag = inner.lag - place.given := by
  cases place with
  | tagging value count notified id entry rest =>
    exact Inner.lag_notifyRest value.tag count notified fits.2.1
  | waking value count notified rest =>
    exact Inner.lag_notifyRest value.tag count (notified + 1) fits
  | cloning id entry clone =>
    have same := Inner.count_insert { entry with waker := some clone } fits.1
    simp only [ListenerEntry.isNotified, Nat.add_right_cancel_iff] at same
    simp [settleAt, Inner.lag, Inside.given, same]
  | handing id waker =>
    simp only [settleAt, Inner.lag, Inside.given]
    omega
  | closing rest =>
    have same := Inner.count_map inner (fun id entry =>
      if id ∈ rest then { entry with waker := none } else entry) fun id entry => by split <;> rfl
    simp [settleAt, Inner.closeRest, Inner.lag, Inside.given, same]
  | replacing | leaving => simp [settleAt, Inside.given]

/-- A call on its own keeps the lag, except that a listener with a notification that is not
counted is polled or dropped. -/
theorem lag_step [Usize] {l l' : Listeners W T} {op : Op W T} {res : Res T}
    (fresh : l.inner.listeners.get? l.inner.nextId = none)
    (taken : l.step op = some (l', res)) : l'.inner.lag = l.inner.lag ∨
      l.inner.Uncounted ∧ l'.inner.lag = l.inner.lag - 1 := by
  cases taken_of_step taken with
  | listens =>
    left
    simp [Inner.listen, Inner.lag, OrderedMap.count_insert,
      OrderedMap.erase_of_get?_none _ fresh, ListenerEntry.isNotified]
  | @notifies value =>
    obtain ⟨count, granted⟩ := Event.notify_eq_grant value l.inner
    simp only [granted]
    exact .inl (Inner.lag_grant _ (l.inner.waiting_nodup.sublist (List.take_sublist _ _))
      (List.take_subset _ _))
  | @yields id waker old tag found =>
    -- one notified listener less, and the subtraction may saturate
    have less := Inner.count_insert ⟨old, none⟩ found
    simp only [ListenerEntry.isNotified, Option.isSome_none, Option.isSome_some,
      Bool.toNat_false, Bool.toNat_true, Nat.add_zero] at less
    simp only [Inner.lag, Inner.Uncounted]
    omega
  | @waits id waker old found =>
    have same := Inner.count_insert ⟨some ⟨l.polls, waker⟩, none⟩ found
    simp only [ListenerEntry.isNotified, Nat.add_right_cancel_iff] at same
    left
    simp [Inner.await, Inner.lag, same]
  | drops => exact Inner.lag_drop _
  | closes =>
    have same := Inner.count_map l.inner (fun _ entry => { entry with waker := none })
      fun _ _ => rfl
    left
    simp [Event.drop_eq, Inner.lag, same]

/-! ### What a step does to the lag -/

/-- The values that the call in flight has given out and not counted yet. -/
def given (s : SharedEvent W T) : Nat := s.inside.elim 0 Inside.given

/-- The counter and the call in flight account for all notified listeners. -/
def Counted (s : SharedEvent W T) : Prop :=
  s.inner.notified + s.given = s.inner.listeners.count ListenerEntry.isNotified

/-- The lag that the event has when the call in flight is through. -/
def lag (s : SharedEvent W T) : Int := s.inner.lag - s.given

theorem counted_iff_lag : s.Counted ↔ s.lag = 0 := by
  simp only [Counted, lag, Inner.lag]
  omega

theorem Inv.fresh (inv : s.Inv) : s.inner.listeners.get? s.inner.nextId = none :=
  (OrderedMap.get?_eq_none_iff _ _).mpr fun member => (inv.held.below _ member).false

theorem Leads.lag {op : Op W T} {res : Res T} {target : Inner (Clone W) T}
    {out : SharedEvent W T × Out W T} (leads : Leads s op res target out) :
    out.1.lag = target.lag := by
  cases leads with
  | stops place call result fits settles =>
    subst settles
    simp [SharedEvent.lag, given, lag_settleAt fits]
  | returns => simp [SharedEvent.lag, given]

theorem Stepped.lag [Usize] (inv : s.Inv) {act : Act W T} {out : SharedEvent W T × Out W T}
    (stepped : Stepped s act out) :
    (act ≠ .unwind ∧ (out.1.lag = s.lag ∨ s.inner.Uncounted ∧ s.given = 0 ∧
      out.1.lag = s.lag - 1)) ∨
    act = .unwind ∧ out.1.lag = s.lag + s.given := by
  cases stepped with
  | enters idle available taken leads =>
    left
    have alone : s.given = 0 := by simp [given, idle]
    rw [leads.lag, SharedEvent.lag, alone]
    refine ⟨by simp, ?_⟩
    simpa using lag_step inv.fresh taken
  | refuses inside available =>
    left
    exact ⟨by simp, .inl (by simp [SharedEvent.lag, given, give_inside, give_listeners])⟩
  | @proceeds place out inside fits leads =>
    left
    refine ⟨by simp, .inl ?_⟩
    rw [leads.lag, lag_settleAt fits]
    simp [SharedEvent.lag, given, inside]
  | @unwinds place inside =>
    right
    simp [SharedEvent.lag, given, inside]

section

variable [Usize] {ts : List (Machine.Transition (SharedEvent W T) (Act W T) (Out W T))}

/-- The counter never counts more listeners than have a notification. -/
theorem lag_nonneg (run : machine.Run ts s) : 0 ≤ s.lag := by
  refine run.relative (P := fun s => 0 ≤ s.lag) ?_ ?_
  · rintro _ rfl
    exact Int.le_refl 0
  · intro ts s act s' out prior least taken
    have inv := Inv.of_run prior
    rcases (step_spec inv taken).lag inv with ⟨_, same | ⟨⟨zero, some⟩, alone, less⟩⟩ | ⟨_, more⟩
    · exact same ▸ least
    · -- a notified listener that is not counted is part of the lag
      rw [less, lag, Inner.lag, zero, alone]
      omega
    · rw [more]
      omega

/-- The counter is right in all states of a run exactly when no call is unwound that has
given out a value: by a waker that panics in `notify` or in the hand-off of a dropped
listener, or by a clone that does after a first one. -/
theorem counter_exact_iff (run : machine.Run ts s) :
    (s.Counted ∧ ∀ t ∈ ts, t.before.Counted) ↔
      ∀ t ∈ ts, t.act = .unwind → t.before.given = 0 := by
  refine run.safe_iff_guard Inv Counted (fun s act => act = .unwind → s.given = 0)
    (fun _ _ => Inv.of_run) ?_ ?_
  · rintro _ rfl
    rfl
  · intro s act s' out inv counted taken
    rw [counted_iff_lag] at counted ⊢
    rcases (step_spec inv taken).lag inv with ⟨ends, same | ⟨⟨zero, some⟩, alone, less⟩⟩ |
      ⟨unwinds, more⟩
    · exact ⟨fun _ unwinds => absurd unwinds ends, fun _ => same.trans counted⟩
    · -- the counter is right, so it counts the notified listener
      rw [lag, Inner.lag, zero, alone] at counted
      omega
    · simp only [more, counted, unwinds, true_implies]
      omega

end

/-- The waker of a notified listener panics, and the counter misses the listener. -/
theorem counter_misses : ∃ ts, ∃ s : SharedEvent Nat Unit, machine.Run ts s ∧
    ts.map Machine.Transition.act = [.call .listen, .call (.poll 0 7), .resume,
      .call (.notify (.usize 1)), .resume, .unwind] ∧
    ¬(s.Counted ∧ ∀ t ∈ ts, t.before.Counted) := by
  obtain ⟨before, t, later, s, run, first, act, rest, given⟩ :=
    Machine.exists_run_at (m := machine (W := Nat) (T := Unit))
      (P := fun _ t _ _ => t.before.given = 1)
      [.call .listen, .call (.poll 0 7), .resume, .call (.notify (.usize 1)), .resume] .unwind []
      rfl (by decide)
  refine ⟨_, s, run, by simp [first, act, rest], fun counted => ?_⟩
  have none := (counter_exact_iff run).mp counted t (by simp) act
  omega

section

variable [Usize] {ts : List (Machine.Transition (SharedEvent W T) (Act W T) (Out W T))}

/-! ### Notifications reach enough listeners -/

/-- A `notify` in flight is going to reach enough listeners. -/
def Promised (s : SharedEvent W T) : Prop :=
  ∀ place value, s.inside = some place → place.op = .notify value →
    (settleAt s.inner place).Reaches value

omit [Usize] in
theorem Leads.reaches {op : Op W T} {res : Res T} {target : Inner (Clone W) T}
    {out : SharedEvent W T × Out W T} (leads : Leads s op res target out)
    (reaches : ∀ value, op = .notify value → target.Reaches value) :
    out.1.Promised ∧ ∀ value res, out.2 = .returned (.notify value) res →
      out.1.inner.Reaches value := by
  cases leads with
  | stops place call result fits settles =>
    subst call settles
    refine ⟨fun other value same notifies => ?_, by simp⟩
    cases same
    exact reaches value notifies
  | returns =>
    refine ⟨by simp [Promised], fun value res same => ?_⟩
    cases same
    exact reaches value rfl

theorem Stepped.reaches {act : Act W T} {out : SharedEvent W T × Out W T} (least : 0 ≤ s.lag)
    (promised : s.Promised) (stepped : Stepped s act out) :
    out.1.Promised ∧ ∀ value res, out.2 = .returned (.notify value) res →
      out.1.inner.Reaches value := by
  cases stepped with
  | @enters op l res out idle available taken leads =>
    refine leads.reaches fun value notifies => ?_
    subst notifies
    cases taken_of_step taken
    apply Inner.reaches_notify
    simp only [SharedEvent.lag, Inner.lag] at least
    omega
  | refuses inside available =>
    refine ⟨?_, by simp⟩
    simpa only [Promised, give_inside, give_listeners] using promised
  | proceeds inside fits leads => exact leads.reaches fun value => promised _ value inside
  | unwinds inside => exact ⟨by simp [Promised], by simp⟩

theorem Promised.of_run (run : machine.Run ts s) : s.Promised := by
  refine run.relative (P := Promised) ?_ ?_
  · rintro _ rfl
    simp [Promised, new]
  · intro ts s act s' out prior promised taken
    exact ((step_spec (Inv.of_run prior) taken).reaches (lag_nonneg prior) promised).1

/-- Whatever was unwound, the counter never runs ahead of the listeners; and a `notify` that
returns leaves as many listeners with a notification as it was asked for, or all of them. -/
theorem notified_enough (run : machine.Run ts s) :
    s.inner.notified + s.given ≤ s.inner.listeners.count ListenerEntry.isNotified ∧
    ∀ t ∈ ts, ∀ value res, t.out = .returned (.notify value) res →
      min value.count t.after.inner.listeners.size ≤
        t.after.inner.listeners.count ListenerEntry.isNotified := by
  constructor
  · have least := lag_nonneg run
    unfold lag Inner.lag at least
    omega
  · intro t member value res returned
    obtain ⟨⟨earlier, prior⟩, taken⟩ := run.step_of_mem member
    have stepped := step_spec (Inv.of_run prior) taken
    exact (stepped.reaches (lag_nonneg prior) (Promised.of_run prior)).2 value res returned

end

/-- A waker panics, and the next `notify` reaches another listener. -/
theorem notified_after_panic : ∃ ts, ∃ s : SharedEvent Nat Unit, machine.Run ts s ∧
    ts.map Machine.Transition.act = [.call .listen, .call .listen, .call (.poll 0 7), .resume,
      .call (.notify (.usize 1)), .resume, .unwind, .call (.notify (.usize 1)), .resume] ∧
    1 ≤ s.inner.listeners.count ListenerEntry.isNotified := by
  obtain ⟨before, t, later, s, run, first, act, rest, returned, none, size⟩ :=
    Machine.exists_run_at (m := machine (W := Nat) (T := Unit))
      (P := fun _ t later s => t.out = .returned (.notify (.usize 1)) .done ∧ later = [] ∧
        t.after.inner.listeners.size = 2)
      [.call .listen, .call .listen, .call (.poll 0 7), .resume, .call (.notify (.usize 1)),
        .resume, .unwind, .call (.notify (.usize 1))] .resume [] rfl
      ⟨_, rfl, _, rfl, _, rfl, rfl, rfl, rfl⟩
  have enough := (notified_enough run).2 t (by simp) _ _ returned
  subst none
  obtain ⟨_, _, same⟩ := run.of_append
  rw [size, same] at enough
  exact ⟨_, s, run, by simp [first, act], by simpa [Notification.usize] using enough⟩

section

variable [Usize] {ts : List (Machine.Transition (SharedEvent W T) (Act W T) (Out W T))}

/-! ### Handles that are dropped by code the event runs -/

/-- The map has an entry for each handle and no other, and is closed with the event. -/
structure Tidy (inner : Inner (Clone W) T) (owners : List Nat) (event : Bool) : Prop where
  owned : ∀ id, id ∈ inner.listeners.keys ↔ id ∈ owners
  closed : inner.closed = true ↔ event = false

/-- The call drops a handle. -/
def drops : Act W T → Bool
  | .call (.dropListener _) | .call .dropEvent => true
  | _ => false

omit [Usize] in
theorem Leads.tidy_iff {op : Op W T} {res : Res T} {target : Inner (Clone W) T}
    {out : SharedEvent W T × Out W T} (leads : Leads s op res target out) :
    Tidy out.1.inner out.1.owners out.1.event ↔ Tidy target s.owners s.event := by
  cases leads with
  | @stops inner place call result fits settles =>
    subst settles
    have keys := mem_keys_settleAt fits
    exact ⟨fun ⟨owned, closed⟩ => ⟨fun id => (keys id).trans (owned id), by simpa using closed⟩,
      fun ⟨owned, closed⟩ => ⟨fun id => (keys id).symm.trans (owned id), by simpa using closed⟩⟩
  | returns => exact Iff.rfl

theorem Tidy.step {op : Op W T} {l : Listeners W T} {res : Res T} (inv : s.Inv)
    (taken : s.toListeners.step op = some (l, res)) (tidy : Tidy s.inner s.owners s.event) :
    Tidy l.inner (heirs (s.give op).owners res) (s.give op).event := by
  have turns := turns_step taken
  refine ⟨fun id => ?_, ?_⟩
  · rw [turns.keys, mem_heirs inv.held.distinct, tidy.owned]
  · rw [turns.closed, tidy.closed]
    cases op <;> simp [give]

omit [Usize] in
/-- A handle that is dropped while the event is borrowed leaves its entry, or an event that
is not closed. -/
theorem tidy_give_iff {op : Op W T} (inv : s.Inv) (available : s.available op = true)
    (tidy : Tidy s.inner s.owners s.event) :
    Tidy s.inner (s.give op).owners (s.give op).event ↔ drops (.call op) = false := by
  have handle := (Bool.and_eq_true_iff.mp available).1
  cases op with
  | dropListener id =>
    constructor
    · intro kept
      have member : id ∈ s.owners := by simpa using handle
      have gone := (kept.owned id).mp ((tidy.owned id).mpr member)
      simp [give, inv.held.distinct.mem_erase_iff] at gone
    · simp [drops]
  | dropEvent =>
    constructor
    · intro kept
      have shut := kept.closed.mpr rfl
      rw [inv.held.alive handle] at shut
      cases shut
    · simp [drops]
  | _ => exact ⟨fun _ => rfl, fun _ => tidy⟩

/-- The map agrees with the handles in all states of a run exactly when no handle is
dropped by code that the event runs: the `drop` panics, and the entry stays without an
owner, or the listeners wait for an event that is gone. -/
theorem handles_exact_iff (run : machine.Run ts s) :
    (Tidy s.inner s.owners s.event ∧
      ∀ t ∈ ts, Tidy t.before.inner t.before.owners t.before.event) ↔
      ∀ t ∈ ts, t.before.inside.isSome = true → drops t.act = false := by
  refine run.safe_iff_guard Inv (fun s => Tidy s.inner s.owners s.event)
    (fun s act => s.inside.isSome = true → drops act = false) (fun _ _ => Inv.of_run) ?_ ?_
  · rintro _ rfl
    exact ⟨by simp [new, Listeners.new, Event.new, OrderedMap.empty, OrderedMap.keys],
      by simp [new, Listeners.new, Event.new]⟩
  · intro s act s' out inv tidy taken
    have stepped := step_spec inv taken
    generalize after : (s', out) = result at stepped
    cases stepped with
    | enters idle available step leads =>
      subst after
      have kept := leads.tidy_iff.mpr (tidy.step inv step)
      simpa [idle] using kept
    | refuses inside available =>
      cases after
      rw [give_listeners, tidy_give_iff inv available tidy]
      simp [inside]
    | proceeds inside fits leads =>
      subst after
      have kept := leads.tidy_iff.mpr ⟨fun id => (mem_keys_settleAt fits id).trans (tidy.owned id),
        by simpa using tidy.closed⟩
      simpa [drops] using kept
    | unwinds inside =>
      cases after
      simpa [drops] using tidy

end

/-- A waker drops another listener, whose entry stays in the map. -/
theorem entry_outlives_listener : ∃ ts, ∃ s : SharedEvent Nat Unit, machine.Run ts s ∧
    ts.map Machine.Transition.act = [.call .listen, .call .listen, .call (.poll 0 7), .resume,
      .call (.notify (.usize 1)), .resume, .call (.dropListener 1), .resume] ∧
    ¬(Tidy s.inner s.owners s.event ∧
      ∀ t ∈ ts, Tidy t.before.inner t.before.owners t.before.event) := by
  obtain ⟨before, t, later, s, run, first, act, rest, inside⟩ :=
    Machine.exists_run_at (m := machine (W := Nat) (T := Unit))
      (P := fun _ t _ _ => t.before.inside.isSome = true)
      [.call .listen, .call .listen, .call (.poll 0 7), .resume, .call (.notify (.usize 1)),
        .resume] (.call (.dropListener 1)) [.resume] rfl (by decide)
  refine ⟨_, s, run, by simp [first, act, rest], fun tidy => ?_⟩
  have kept := (handles_exact_iff run).mp tidy t (by simp) inside
  rw [act] at kept
  cases kept

end SharedEvent

end Eneste
