import Eneste.Event.Listeners

/-!
# The event and the code it runs

The calls on an event run code that is not its own: they clone the value of a
notification, clone and drop wakers, and wake. All the while they hold the mutable borrow
of `Inner`. Such code may call the event again, which `borrow_mut` refuses, or panic, which
unwinds the call it was run from. Here a call goes from one of these places to the next;
when nothing unwinds, it comes to what `Listeners` says of it as one step.
-/

namespace Eneste

variable {W T : Type}

/-- How far the loop of `notify_inner` or of `notify_additional` is to count. -/
def Event.limit [Usize] (value : Notification T) (inner : Inner W T) : Nat :=
  if value.count = Usize.max then inner.listeners.size
  else if value.isAdditional then min value.count inner.listeners.size
  else value.count - inner.notified

theorem Event.notify_eq_loop [Usize] (value : Notification T) (inner : Inner W T) :
    Event.notify value inner = Event.notifyLoop (Event.limit value inner) value.tag inner := by
  unfold Event.notify Event.notifyInner Event.notifyAdditional Event.limit
  split <;> rfl

/-- A place where a call on the event runs other code. -/
inductive Inside (W T : Type) where
  /-- `notification.tag()`, in the loop of `notify` at the listener `id`. -/
  | tagging (value : Notification T) (count notified id : Nat)
      (entry : ListenerEntry (Clone W) T) (rest : List Nat)
  /-- `waker.wake()` in that loop. -/
  | waking (value : Notification T) (count notified : Nat) (rest : List Nat)
  /-- `cx.waker().clone()` in `EventListener::poll`. -/
  | cloning (id : Nat) (entry : ListenerEntry (Clone W) T) (clone : Clone W)
  /-- The waker that `poll` replaces is dropped. -/
  | replacing (id : Nat) (clone : Clone W)
  /-- `waker.wake()` in `EventListener::drop`, which has removed an entry with `waker`. -/
  | handing (id : Nat) (waker : Option (Clone W))
  /-- What is left of the removed entry is dropped, before the borrow is given back. -/
  | leaving (id : Nat)
  /-- `waker.wake()` in `Event::drop`. -/
  | closing (rest : List Nat)

namespace Inside

/-- The call that runs the code. -/
def op : Inside W T → Listeners.Op W T
  | .tagging value .. | .waking value .. => .notify value
  | .cloning id _ clone | .replacing id clone => .poll id clone.waker
  | .handing id _ | .leaving id => .dropListener id
  | .closing _ => .dropEvent

/-- What that call returns. -/
def res : Inside W T → Listeners.Res T
  | .cloning .. | .replacing .. => .polled .pending
  | _ => .done

/-- How many values the loop or the hand-off has given out and not counted yet. -/
def given : Inside W T → Nat
  | .tagging _ _ notified .. => notified
  | .waking _ _ notified _ => notified + 1
  | .handing .. => 1
  | _ => 0

/-- The call has the handle borrowed that the other call needs for itself. -/
def holds : Inside W T → Listeners.Op W T → Bool
  | .tagging .., .dropEvent | .waking .., .dropEvent => true
  | .cloning id .., .poll other _ | .replacing id _, .poll other _ => id == other
  | .cloning id .., .dropListener other | .replacing id _, .dropListener other => id == other
  | _, _ => false

end Inside

/-- An event with the call that runs other code, if there is one, and the handles. -/
structure SharedEvent (W T : Type) extends Listeners W T where
  inside : Option (Inside W T)
  /-- The `Event` has not been dropped. -/
  event : Bool
  /-- The ids of the `EventListener`s that have not been dropped. -/
  owners : List Nat

namespace SharedEvent

open Listeners (Op Res)

/-- `call` begins a call; `resume` is the other code coming back to the event, `unwind` its
panic. -/
inductive Act (W T : Type) where
  | call (op : Op W T)
  | resume
  | unwind

inductive Out (W T : Type) where
  | returned (op : Op W T) (result : Res T)
  /-- Other code is run. -/
  | outside
  /-- `borrow_mut` panics: the caller is code that the event runs. -/
  | refused
  | unwound
  /-- `unreachable!` in `EventListener::poll`. -/
  | unreachable

def new : SharedEvent W T := ⟨Listeners.new, none, true, []⟩

def setInner (s : SharedEvent W T) (inner : Inner (Clone W) T) : SharedEvent W T :=
  { s with inner := inner }

def goto (s : SharedEvent W T) (place : Inside W T) : SharedEvent W T × Out W T :=
  ({ s with inside := some place }, .outside)

def done (s : SharedEvent W T) (op : Op W T) (result : Res T) : SharedEvent W T × Out W T :=
  ({ s with inside := none }, .returned op result)

/-- The loop of `notify`, from the listeners `ids` on. -/
def turn (s : SharedEvent W T) (value : Notification T) (count notified : Nat) :
    List Nat → SharedEvent W T × Out W T
  | [] => (s.setInner { s.inner with notified := s.inner.notified + notified }).done
      (.notify value) .done
  | id :: rest =>
    if notified ≥ count then
      (s.setInner { s.inner with notified := s.inner.notified + notified }).done
        (.notify value) .done
    else
      match s.inner.listeners.get? id with
      | none => s.turn value count notified rest
      | some entry =>
        if entry.isNotified then s.turn value count notified rest
        else s.goto (.tagging value count notified id entry rest)

/-- The end of `EventListener::drop`, with what it holds of the entry. -/
def leave (s : SharedEvent W T) (id : Nat) (waker : Option (Clone W)) (value : Option T) :
    SharedEvent W T × Out W T :=
  if waker.isSome || value.isSome then s.goto (.leaving id) else s.done (.dropListener id) .done

/-- `EventListener::drop`. -/
def retire (s : SharedEvent W T) (id : Nat) : SharedEvent W T × Out W T :=
  match s.inner.listeners.get? id with
  | none => s.done (.dropListener id) .done
  | some entry =>
    let inner := { s.inner with listeners := s.inner.listeners.erase id }
    if !entry.isNotified || inner.notified == 0 then
      (s.setInner inner).leave id entry.waker entry.value
    else
      let inner := { inner with notified := inner.notified - 1 }
      match inner.listeners.find? fun e => !e.isNotified with
      | none => (s.setInner inner).leave id entry.waker entry.value
      | some (next, heir) =>
        let inner := { inner with
          listeners := inner.listeners.insert next { waker := none, value := entry.value } }
        match heir.waker with
        | none => (s.setInner { inner with notified := inner.notified + 1 }).leave id entry.waker
            none
        | some waker => (s.setInner { inner with woken := inner.woken ++ [waker] }).goto
            (.handing id entry.waker)

/-- The loop of `Event::drop`, from the listeners `ids` on. -/
def close (s : SharedEvent W T) : List Nat → SharedEvent W T × Out W T
  | [] => s.done .dropEvent .done
  | id :: rest =>
    match s.inner.listeners.get? id with
    | some ⟨some waker, value⟩ =>
      (s.setInner { s.inner with
        listeners := s.inner.listeners.insert id { waker := none, value := value }
        woken := s.inner.woken ++ [waker] }).goto (.closing rest)
    | _ => s.close rest

/-- A call up to the first place where it runs other code. -/
def enter [Usize] (s : SharedEvent W T) : Op W T → SharedEvent W T × Out W T
  | .listen =>
    let (id, inner) := s.inner.listen
    { s.setInner inner with owners := id :: s.owners }.done .listen (.listening id)
  | .notify value => s.turn value (Event.limit value s.inner) 0 s.inner.listeners.keys
  | .poll id waker =>
    let clone : Clone W := ⟨s.polls, waker⟩
    match s.inner.listeners.get? id with
    | none => (s, .unreachable)
    | some entry =>
      let s := { s with polls := s.polls + 1 }
      match entry.value with
      | some value =>
        (s.setInner { s.inner with
          listeners := s.inner.listeners.insert id { entry with value := none }
          notified := s.inner.notified - 1 }).done (.poll id waker) (.polled (.ready value))
      | none => s.goto (.cloning id entry clone)
  | .dropListener id => s.retire id
  | .dropEvent => (s.setInner { s.inner with closed := true }).close s.inner.listeners.keys

/-- The call goes on once the other code is through. -/
def proceed (s : SharedEvent W T) : Inside W T → SharedEvent W T × Out W T
  | .tagging value count notified id entry rest =>
    let inner := { s.inner with
      listeners := s.inner.listeners.insert id { waker := none, value := some value.tag } }
    match entry.waker with
    | none => (s.setInner inner).turn value count (notified + 1) rest
    | some waker => (s.setInner { inner with woken := inner.woken ++ [waker] }).goto
        (.waking value count notified rest)
  | .waking value count notified rest => s.turn value count (notified + 1) rest
  | .cloning id entry clone =>
    let s := s.setInner { s.inner with
      listeners := s.inner.listeners.insert id { entry with waker := some clone } }
    if entry.waker.isSome then s.goto (.replacing id clone)
    else s.done (.poll id clone.waker) (.polled .pending)
  | .replacing id clone => s.done (.poll id clone.waker) (.polled .pending)
  | .handing id waker =>
    (s.setInner { s.inner with notified := s.inner.notified + 1 }).leave id waker none
  | .leaving id => s.done (.dropListener id) .done
  | .closing rest => s.close rest

/-- Somebody has the handle that the call is made on and can make it. -/
def available (s : SharedEvent W T) (op : Op W T) : Bool :=
  (match op with
  | .listen | .notify _ | .dropEvent => s.event
  | .poll id _ | .dropListener id => s.owners.contains id) &&
  !s.inside.any fun place => place.holds op

/-- What is dropped is gone, also when its `drop` panics. -/
def give (s : SharedEvent W T) : Op W T → SharedEvent W T
  | .dropListener id => { s with owners := s.owners.erase id }
  | .dropEvent => { s with event := false }
  | _ => s

def step [Usize] (s : SharedEvent W T) : Act W T → Option (SharedEvent W T × Out W T)
  | .call op =>
    if !s.available op then none
    else if s.inside.isSome then some (s.give op, .refused)
    else some ((s.give op).enter op)
  | .resume => s.inside.map s.proceed
  | .unwind => s.inside.map fun _ => ({ s with inside := none }, .unwound)

def machine [Usize] : Machine (SharedEvent W T) (Act W T) (Out W T) where
  init s := s = new
  step := step

end SharedEvent

/-! ### What is left of a call -/

namespace Inner

variable {inner : Inner (Clone W) T}

/-- The first listeners of `ids` that are not notified. -/
def choose (inner : Inner (Clone W) T) (count : Nat) (ids : List Nat) : List Nat :=
  (ids.filter fun id => (inner.listeners.get? id).any fun entry => !entry.isNotified).take count

/-- The rest of the loop of `notify`, which has given out `notified` values before. -/
def notifyRest (inner : Inner (Clone W) T) (tag : T) (count notified : Nat) (ids : List Nat) :
    Inner (Clone W) T :=
  { inner with notified := inner.notified + notified }.grant tag
    (inner.choose (count - notified) ids)

/-- The rest of the loop of `Event::drop`. -/
def closeRest (inner : Inner (Clone W) T) (ids : List Nat) : Inner (Clone W) T :=
  { inner with
    listeners := inner.listeners.map fun id entry =>
      if id ∈ ids then { entry with waker := none } else entry
    woken := inner.woken ++
      ids.filterMap fun id => (inner.listeners.get? id).bind ListenerEntry.waker }

theorem choose_keys (count : Nat) :
    inner.choose count inner.listeners.keys = inner.waiting.take count := by
  have same : ∀ e ∈ inner.listeners.entries, ((inner.listeners.get? e.1).any
      fun entry => !entry.isNotified) = !e.2.isNotified := by
    intro e member
    simp [(inner.listeners.get?_eq_some_iff e.1 e.2).mpr member]
  simp only [choose, waiting, OrderedMap.keys, OrderedMap.keysWith, List.filter_map,
    Function.comp_def, List.filter_congr same]

theorem closeRest_keys :
    { inner with closed := true }.closeRest inner.listeners.keys = Event.drop inner := by
  rw [Event.drop_eq]
  simp only [closeRest, Inner.mk.injEq, true_and, List.append_cancel_left_eq]
  constructor
  · apply OrderedMap.ext_get?
    intro id
    rw [OrderedMap.get?_map, OrderedMap.get?_map]
    cases found : inner.listeners.get? id with
    | none => rfl
    | some entry =>
      have member : id ∈ inner.listeners.keys := (OrderedMap.mem_keys_iff _ _).mpr ⟨entry, found⟩
      simp [member]
  · rw [OrderedMap.keys, List.filterMap_map]
    apply List.filterMap_congr
    intro e member
    simp [(inner.listeners.get?_eq_some_iff e.1 e.2).mpr member]

/-- A listener with a notification, or without an entry, is passed over. -/
theorem notifyRest_skip (tag : T) {count notified id : Nat} {ids : List Nat}
    (skips : ((inner.listeners.get? id).any fun entry => !entry.isNotified) = false) :
    inner.notifyRest tag count notified (id :: ids) = inner.notifyRest tag count notified ids := by
  simp [notifyRest, choose, skips]

theorem notifyRest_stop (tag : T) {count notified : Nat} {ids : List Nat}
    (ends : ids = [] ∨ count ≤ notified) :
    inner.notifyRest tag count notified ids =
      { inner with notified := inner.notified + notified } := by
  have nobody : inner.choose (count - notified) ids = [] := by
    rcases ends with rfl | full
    · simp [choose]
    · simp [choose, Nat.sub_eq_zero_of_le full]
  simp [notifyRest, nobody, grant, OrderedMap.overwrite, OrderedMap.map]

/-- One turn of the loop gives a value out and wakes the waker of the listener. -/
theorem notifyRest_cons (tag : T) {count notified id : Nat} {ids : List Nat}
    {entry : ListenerEntry (Clone W) T} (fresh : id ∉ ids) (less : notified < count)
    (found : inner.listeners.get? id = some entry) (empty : entry.value = none) :
    inner.notifyRest tag count notified (id :: ids) =
      { inner with
        listeners := inner.listeners.insert id ⟨none, some tag⟩
        woken := inner.woken ++ entry.waker.toList }.notifyRest tag count (notified + 1) ids := by
  have more : count - notified = count - (notified + 1) + 1 := by omega
  -- the entries of the other listeners are what they were
  have others : ∀ j ∈ ids, (inner.listeners.insert id ⟨none, some tag⟩).get? j =
      inner.listeners.get? j := by
    intro j member
    exact OrderedMap.get?_insert_of_ne _ _ fun same => fresh (same ▸ member)
  have chosen : inner.choose (count - notified) (id :: ids) = id ::
      { inner with
        listeners := inner.listeners.insert id ⟨none, some tag⟩
        woken := inner.woken ++ entry.waker.toList }.choose (count - (notified + 1)) ids := by
    have first : ((inner.listeners.get? id).any fun entry => !entry.isNotified) = true := by
      simp [found, ListenerEntry.isNotified, empty]
    rw [choose, List.filter_cons, if_pos first, more, List.take_succ_cons, choose]
    congr 2
    apply List.filter_congr
    intro j member
    rw [others j member]
  rw [notifyRest, chosen]
  generalize picked : choose _ _ ids = js
  have within : ∀ j ∈ js, j ∈ ids := by
    intro j member
    rw [← picked] at member
    exact (List.mem_filter.mp (List.mem_of_mem_take member)).1
  simp only [notifyRest, picked, grant, Inner.mk.injEq, true_and]
  refine ⟨?_, by simp only [List.length_cons]; omega, ?_⟩
  · apply OrderedMap.ext_get?
    intro j
    simp only [OrderedMap.get?_overwrite, OrderedMap.get?_insert, List.mem_cons]
    by_cases same : j = id
    · subst same
      have absent : j ∉ js := fun member => fresh (within j member)
      simp [absent, found]
    · simp [same]
  · rw [List.append_assoc, List.filterMap_cons]
    have rest : js.filterMap (fun j => ((inner.listeners.insert id ⟨none, some tag⟩).get? j).bind
        ListenerEntry.waker) =
        js.filterMap fun j => (inner.listeners.get? j).bind ListenerEntry.waker := by
      apply List.filterMap_congr
      intro j member
      rw [others j (within j member)]
    rw [rest]
    cases stored : entry.waker <;> simp [found, stored]

theorem closeRest_skip {id : Nat} {ids : List Nat}
    (skips : (inner.listeners.get? id).bind ListenerEntry.waker = none) :
    inner.closeRest (id :: ids) = inner.closeRest ids := by
  simp only [closeRest, List.filterMap_cons, skips, Inner.mk.injEq, and_true]
  apply OrderedMap.ext_get?
  intro j
  rw [OrderedMap.get?_map, OrderedMap.get?_map]
  by_cases same : j = id
  · subst same
    cases found : inner.listeners.get? j with
    | none => rfl
    | some entry =>
      rw [found] at skips
      obtain ⟨waker, value⟩ := entry
      cases show waker = none from skips
      simp
  · simp [same]

/-- One turn of the loop wakes a waker. -/
theorem closeRest_cons {id : Nat} {ids : List Nat} {clone : Clone W} {value : Option T}
    (fresh : id ∉ ids) (found : inner.listeners.get? id = some ⟨some clone, value⟩) :
    inner.closeRest (id :: ids) =
      { inner with
        listeners := inner.listeners.insert id ⟨none, value⟩
        woken := inner.woken ++ [clone] }.closeRest ids := by
  simp only [closeRest, Inner.mk.injEq, true_and]
  constructor
  · apply OrderedMap.ext_get?
    intro j
    simp only [OrderedMap.get?_map, OrderedMap.get?_insert, List.mem_cons]
    by_cases same : j = id
    · subst same
      simp [fresh, found]
    · simp [same]
  · rw [List.append_assoc, List.filterMap_cons, found]
    simp only [Option.bind_some, List.singleton_append, List.append_cancel_left_eq,
      List.cons.injEq, true_and]
    apply List.filterMap_congr
    intro j member
    have other : j ≠ id := fun same => fresh (same ▸ member)
    rw [OrderedMap.get?_insert_of_ne _ _ other]

end Inner

namespace SharedEvent

open Listeners (Op Res)

/-- What the call makes of the event if nothing unwinds it. -/
def settleAt (inner : Inner (Clone W) T) : Inside W T → Inner (Clone W) T
  | .tagging value count notified id _ rest =>
    inner.notifyRest value.tag count notified (id :: rest)
  | .waking value count notified rest => inner.notifyRest value.tag count (notified + 1) rest
  | .cloning id entry clone =>
    { inner with listeners := inner.listeners.insert id { entry with waker := some clone } }
  | .handing .. => { inner with notified := inner.notified + 1 }
  | .closing rest => inner.closeRest rest
  | .replacing .. | .leaving .. => inner

/-- What the call relies on when the other code is through. -/
def Fits (inner : Inner (Clone W) T) : Inside W T → Prop
  | .tagging _ count notified id entry rest => notified < count ∧ (id :: rest).Nodup ∧
    inner.listeners.get? id = some entry ∧ entry.value = none
  | .waking _ _ _ rest | .closing rest => rest.Nodup
  | .cloning id entry _ => inner.listeners.get? id = some entry ∧ entry.value = none
  | _ => True

/-- The call `op` is on its way to `target` and `res`, or has come there. -/
inductive Leads (s : SharedEvent W T) (op : Op W T) (res : Res T) (target : Inner (Clone W) T) :
    SharedEvent W T × Out W T → Prop
  | stops {inner} (place : Inside W T) (call : place.op = op) (result : place.res = res)
      (fits : Fits inner place) (settles : settleAt inner place = target) :
      Leads s op res target ({ s with inner := inner, inside := some place }, .outside)
  | returns : Leads s op res target ({ s with inner := target, inside := none }, .returned op res)

variable {s : SharedEvent W T}

/-- Where the call sets out from does not matter. -/
theorem Leads.of_setInner {inner target : Inner (Clone W) T} {op : Op W T} {res : Res T}
    {out : SharedEvent W T × Out W T} (leads : Leads (s.setInner inner) op res target out) :
    Leads s op res target out := by
  cases leads with
  | stops place call result fits settles => exact .stops place call result fits settles
  | returns => exact .returns

theorem turn_leads (value : Notification T) (count notified : Nat) {ids : List Nat}
    (distinct : ids.Nodup) : Leads s (.notify value) .done
      (s.inner.notifyRest value.tag count notified ids) (s.turn value count notified ids) := by
  -- induction on the listeners that the loop has not visited
  induction ids with
  | nil =>
    rw [Inner.notifyRest_stop value.tag (.inl rfl)]
    exact .returns
  | cons id rest ih =>
    simp only [turn]
    split
    next full =>
      rw [Inner.notifyRest_stop value.tag (.inr full)]
      exact .returns
    next more =>
      split
      next absent =>
        rw [Inner.notifyRest_skip value.tag (by simp [absent])]
        exact ih (List.nodup_cons.mp distinct).2
      next entry found =>
        split
        next already =>
          rw [Inner.notifyRest_skip value.tag (by simp [found, already])]
          exact ih (List.nodup_cons.mp distinct).2
        next empty =>
          exact .stops (.tagging value count notified id entry rest) rfl rfl
            ⟨by omega, distinct, found, by simpa [ListenerEntry.isNotified] using empty⟩ rfl

theorem close_leads {ids : List Nat} (distinct : ids.Nodup) :
    Leads s .dropEvent .done (s.inner.closeRest ids) (s.close ids) := by
  induction ids with
  | nil =>
    have nothing : s.inner.closeRest [] = s.inner := by
      simp [Inner.closeRest, OrderedMap.map]
    rw [nothing]
    exact .returns
  | cons id rest ih =>
    obtain ⟨fresh, others⟩ := List.nodup_cons.mp distinct
    simp only [close]
    split
    next clone value found =>
      rw [Inner.closeRest_cons fresh found]
      exact .stops (.closing rest) rfl rfl others rfl
    next skips =>
      rw [Inner.closeRest_skip ?_]
      · exact ih others
      · rcases found : s.inner.listeners.get? id with - | ⟨- | clone, value⟩
        · rfl
        · rfl
        · exact absurd found (skips clone value)

theorem leave_leads (id : Nat) (waker : Option (Clone W)) (value : Option T) :
    Leads s (.dropListener id) .done s.inner (s.leave id waker value) := by
  simp only [leave]
  split
  · exact .stops (.leaving id) rfl rfl trivial rfl
  · exact .returns

theorem retire_leads (id : Nat) :
    Leads s (.dropListener id) .done (EventListener.drop id s.inner) (s.retire id) := by
  cases found : s.inner.listeners.get? id with
  | none =>
    simp only [retire, EventListener.drop, found]
    exact .returns
  | some entry =>
    simp only [retire, EventListener.drop, found]
    by_cases early : (!entry.isNotified || s.inner.notified == 0) = true
    · -- the early return: the notification, if it has one, goes with the listener
      simp only [early, ite_true]
      exact (leave_leads id _ _).of_setInner
    · simp only [early, Bool.false_eq_true, ite_false]
      cases (s.inner.listeners.erase id).find? fun e => !e.isNotified with
      | none => exact (leave_leads id _ _).of_setInner
      | some next =>
        obtain ⟨next, waker, value⟩ := next
        cases waker with
        | none =>
          simp only [Option.toList_none, List.append_nil]
          exact (leave_leads id _ _).of_setInner
        | some clone => exact .stops (.handing id entry.waker) rfl rfl trivial rfl

/-- Code that comes back lets the call go on to where it was going. -/
theorem proceed_leads {place : Inside W T} (fits : Fits s.inner place) :
    Leads s place.op place.res (settleAt s.inner place) (s.proceed place) := by
  cases place with
  | tagging value count notified id entry rest =>
    obtain ⟨less, distinct, found, empty⟩ := fits
    obtain ⟨fresh, others⟩ := List.nodup_cons.mp distinct
    simp only [settleAt, Inner.notifyRest_cons value.tag fresh less found empty, proceed]
    cases stored : entry.waker with
    | none =>
      simp only [Option.toList_none, List.append_nil]
      exact (turn_leads value count (notified + 1) others).of_setInner
    | some clone => exact .stops (.waking value count notified rest) rfl rfl others rfl
  | waking value count notified rest => exact turn_leads value count (notified + 1) fits
  | cloning id entry clone =>
    simp only [proceed]
    split
    · exact .stops (.replacing id clone) rfl rfl trivial rfl
    · exact .returns
  | replacing | leaving => exact .returns
  | handing id waker => exact (leave_leads id waker none).of_setInner
  | closing rest => exact close_leads fits

/-- The owners after a call, which `give` has taken the dropped one from. -/
def heirs (owners : List Nat) : Res T → List Nat
  | .listening id => id :: owners
  | _ => owners

/-- What a call does on its own, whatever has been unwound before. -/
inductive Taken [Usize] (l : Listeners W T) : Op W T → Listeners W T → Res T → Prop
  | listens : Taken l .listen { l with inner := l.inner.listen.2 } (.listening l.inner.nextId)
  | notifies {value} : Taken l (.notify value) { l with inner := Event.notify value l.inner } .done
  | yields {id waker old tag} (found : l.inner.listeners.get? id = some ⟨old, some tag⟩) :
      Taken l (.poll id waker) ⟨{ l.inner with
        listeners := l.inner.listeners.insert id ⟨old, none⟩
        notified := l.inner.notified - 1 }, l.polls + 1⟩ (.polled (.ready tag))
  | waits {id waker old} (found : l.inner.listeners.get? id = some ⟨old, none⟩) :
      Taken l (.poll id waker) ⟨l.inner.await id ⟨l.polls, waker⟩, l.polls + 1⟩ (.polled .pending)
  | drops {id} : Taken l (.dropListener id) { l with inner := EventListener.drop id l.inner } .done
  | closes : Taken l .dropEvent { l with inner := Event.drop l.inner } .done

theorem taken_of_step [Usize] {l l' : Listeners W T} {op : Op W T} {res : Res T}
    (taken : l.step op = some (l', res)) : Taken l op l' res := by
  cases op with
  | listen =>
    simp only [Listeners.step] at taken
    split at taken
    · cases taken
    · cases taken
      exact .listens
  | notify value =>
    simp only [Listeners.step] at taken
    split at taken
    · cases taken
    · cases taken
      exact .notifies
  | poll id waker =>
    simp only [Listeners.step, EventListener.poll] at taken
    rcases found : l.inner.listeners.get? id with - | ⟨old, - | tag⟩
    · simp [found] at taken
    · simp only [found, Option.some.injEq, Prod.mk.injEq] at taken
      obtain ⟨rfl, rfl⟩ := taken
      exact .waits found
    · simp only [found, Option.some.injEq, Prod.mk.injEq] at taken
      obtain ⟨rfl, rfl⟩ := taken
      exact .yields found
  | dropListener id =>
    simp only [Listeners.step] at taken
    split at taken
    · cases taken
    · cases taken
      exact .drops
  | dropEvent =>
    simp only [Listeners.step] at taken
    split at taken
    · cases taken
    · cases taken
      exact .closes

/-- A call sets out for what it does to `Listeners`. -/
theorem enter_leads [Usize] {op : Op W T} {l : Listeners W T} {res : Res T}
    (taken : s.toListeners.step op = some (l, res)) :
    Leads { s with
      polls := l.polls
      owners := heirs s.owners res } op res l.inner (s.enter op) := by
  cases taken_of_step taken with
  | listens => exact .returns
  | @notifies value =>
    -- the loop starts with all listeners before it
    have whole : Event.notify value s.inner = s.inner.notifyRest value.tag
        (Event.limit value s.inner) 0 s.inner.listeners.keys := by
      rw [Event.notify_eq_loop, Event.notifyLoop_eq_grant, Inner.notifyRest, Nat.sub_zero,
        Inner.choose_keys]
      rfl
    simp only [whole]
    exact turn_leads value _ 0 s.inner.listeners.keys_nodup
  | yields found =>
    simp only [enter, found]
    exact .returns
  | @waits id waker old found =>
    simp only [enter, found]
    exact .stops (.cloning id ⟨old, none⟩ ⟨s.polls, waker⟩) rfl rfl ⟨found, rfl⟩ rfl
  | drops => exact retire_leads _
  | closes =>
    simp only [enter, ← Inner.closeRest_keys]
    exact (close_leads s.inner.listeners.keys_nodup).of_setInner

/-! ### The handles -/

theorem give_listeners (s : SharedEvent W T) (op : Op W T) :
    (s.give op).toListeners = s.toListeners := by cases op <;> rfl

theorem give_inside (s : SharedEvent W T) (op : Op W T) : (s.give op).inside = s.inside := by
  cases op <;> rfl

/-- Each handle that is alive has its entry, and no two have the same. -/
structure Held (inner : Inner (Clone W) T) (owners : List Nat) (event : Bool) : Prop where
  below : ∀ id ∈ inner.listeners.keys, id < inner.nextId
  owned : ∀ id ∈ owners, id ∈ inner.listeners.keys
  distinct : owners.Nodup
  alive : event = true → inner.closed = false

structure Inv (s : SharedEvent W T) : Prop where
  held : Held s.inner s.owners s.event
  fits : ∀ place, s.inside = some place → Fits s.inner place

/-- The rest of a call neither adds nor removes listeners. -/
theorem mem_keys_settleAt {inner : Inner (Clone W) T} {place : Inside W T}
    (fits : Fits inner place) (id : Nat) :
    id ∈ (settleAt inner place).listeners.keys ↔ id ∈ inner.listeners.keys := by
  cases place with
  | tagging | waking => simp [settleAt, Inner.notifyRest, Inner.grant]
  | cloning j entry clone =>
    have present : j ∈ inner.listeners.keys := (OrderedMap.mem_keys_iff _ _).mpr ⟨entry, fits.1⟩
    exact OrderedMap.mem_keys_insert_of_mem _ _ present id
  | closing rest => simp [settleAt, Inner.closeRest]
  | _ => rfl

@[simp] theorem nextId_settleAt (inner : Inner (Clone W) T) (place : Inside W T) :
    (settleAt inner place).nextId = inner.nextId := by cases place <;> rfl

@[simp] theorem closed_settleAt (inner : Inner (Clone W) T) (place : Inside W T) :
    (settleAt inner place).closed = inner.closed := by cases place <;> rfl

theorem Held.same {inner later : Inner (Clone W) T} {owners : List Nat} {event : Bool}
    (held : Held inner owners event)
    (keys : ∀ id, id ∈ later.listeners.keys ↔ id ∈ inner.listeners.keys)
    (nextId : later.nextId = inner.nextId) (closed : later.closed = inner.closed) :
    Held later owners event where
  below id member := nextId ▸ held.below id ((keys id).mp member)
  owned id member := (keys id).mpr (held.owned id member)
  distinct := held.distinct
  alive open_ := closed ▸ held.alive open_

theorem Held.settle_iff {inner : Inner (Clone W) T} {place : Inside W T} {owners : List Nat}
    {event : Bool} (fits : Fits inner place) :
    Held (settleAt inner place) owners event ↔ Held inner owners event := by
  have keys := mem_keys_settleAt fits
  exact ⟨fun held => held.same (fun id => (keys id).symm) (by simp) (by simp),
    fun held => held.same keys (by simp) (by simp)⟩

theorem Leads.inv {op : Op W T} {res : Res T} {target : Inner (Clone W) T}
    {out : SharedEvent W T × Out W T} (leads : Leads s op res target out)
    (held : Held target s.owners s.event) : out.1.Inv := by
  cases leads with
  | @stops inner place call result fits settles =>
    refine ⟨(Held.settle_iff fits).mp (settles ▸ held), fun other same => ?_⟩
    cases same
    exact fits
  | returns => exact ⟨held, by simp⟩

/-- A call on a handle that somebody has is possible when nothing is in flight. -/
theorem Inv.takes [Usize] (inv : s.Inv) {op : Op W T} (available : s.available op = true) :
    ∃ l res, s.toListeners.step op = some (l, res) := by
  have handle := (Bool.and_eq_true_iff.mp available).1
  cases op with
  | listen | notify | dropEvent => simp [Listeners.step, inv.held.alive handle]
  | poll id waker =>
    obtain ⟨entry, found⟩ := (OrderedMap.mem_keys_iff _ _).mp
      (inv.held.owned id (by simpa using handle))
    simp only [Listeners.step, EventListener.poll, found]
    cases entry.value <;> simp
  | dropListener id =>
    obtain ⟨entry, found⟩ := (OrderedMap.mem_keys_iff _ _).mp
      (inv.held.owned id (by simpa using handle))
    simp [Listeners.step, found]

/-- The dropped listener leaves the map, whatever the counter says. -/
theorem mem_keys_drop (inner : Inner (Clone W) T) (id j : Nat) :
    j ∈ (EventListener.drop id inner).listeners.keys ↔ j ≠ id ∧ j ∈ inner.listeners.keys := by
  rw [← OrderedMap.mem_keys_erase]
  cases found : inner.listeners.get? id with
  | none => simp [EventListener.drop, found, OrderedMap.erase_of_get?_none _ found]
  | some entry =>
    simp only [EventListener.drop, found]
    split
    · rfl
    · split
      · rfl
      next next heir first =>
        -- the heir has an entry already
        have present : next ∈ (inner.listeners.erase id).keys := (OrderedMap.mem_keys_iff _ _).mpr
          ⟨heir, (OrderedMap.get?_eq_some_iff _ _ _).mpr (List.mem_of_find?_eq_some first)⟩
        exact OrderedMap.mem_keys_insert_of_mem _ _ present j

/-- What a call does to the map, the id that comes next and the flag. -/
structure Turns (op : Op W T) (res : Res T) (before after : Inner (Clone W) T) : Prop where
  keys : ∀ j, j ∈ after.listeners.keys ↔
    res = .listening j ∨ op ≠ .dropListener j ∧ j ∈ before.listeners.keys
  listens : ∀ j, res = .listening j → j = before.nextId ∧ j < after.nextId
  nextId : before.nextId ≤ after.nextId
  closed : after.closed = true ↔ op = .dropEvent ∨ before.closed = true

theorem turns_step [Usize] {l l' : Listeners W T} {op : Op W T} {res : Res T}
    (taken : l.step op = some (l', res)) : Turns op res l.inner l'.inner := by
  -- a poll puts a new entry in the place of the old one
  have kept : ∀ {id entry} (new : ListenerEntry (Clone W) T) (j : Nat),
      l.inner.listeners.get? id = some entry →
      (j ∈ (l.inner.listeners.insert id new).keys ↔ j ∈ l.inner.listeners.keys) :=
    fun new j found => OrderedMap.mem_keys_insert_of_mem _ new
      ((OrderedMap.mem_keys_iff _ _).mpr ⟨_, found⟩) j
  cases taken_of_step taken with
  | listens =>
    refine ⟨fun j => ?_, fun j same => ?_, Nat.le_succ _, by simp [Inner.listen]⟩
    · rw [Inner.listen, OrderedMap.mem_keys_insert]
      simp [eq_comm]
    · cases same
      exact ⟨rfl, Nat.lt_succ_self _⟩
  | @notifies value =>
    obtain ⟨count, granted⟩ := Event.notify_eq_grant value l.inner
    exact ⟨by simp, by simp, by simp [granted, Inner.grant], by simp [Event.closed_notify]⟩
  | yields found => exact ⟨fun j => by simp [kept _ j found], by simp, le_rfl, by simp⟩
  | waits found =>
    exact ⟨fun j => by simp [Inner.await, kept _ j found], by simp, le_rfl, by simp [Inner.await]⟩
  | drops =>
    exact ⟨by simp [mem_keys_drop, eq_comm], by simp, by simp, by simp [EventListener.closed_drop]⟩
  | closes => exact ⟨by simp, by simp, by simp [Event.drop_eq], by simp [Event.drop_eq]⟩

/-- The owners follow the map. -/
theorem mem_heirs (distinct : s.owners.Nodup) (op : Op W T) (res : Res T) (j : Nat) :
    j ∈ heirs (s.give op).owners res ↔
      res = .listening j ∨ op ≠ .dropListener j ∧ j ∈ s.owners := by
  have given : j ∈ (s.give op).owners ↔ op ≠ .dropListener j ∧ j ∈ s.owners := by
    cases op <;> simp [give, distinct.mem_erase_iff, eq_comm]
  cases res <;> simp [heirs, given, eq_comm]

theorem Held.give (held : Held s.inner s.owners s.event) (op : Op W T) :
    Held (s.give op).inner (s.give op).owners (s.give op).event := by
  obtain ⟨below, owned, distinct, alive⟩ := held
  cases op with
  | dropListener id => exact ⟨below, fun j member => owned j (List.mem_of_mem_erase member),
      distinct.erase id, alive⟩
  | dropEvent => exact ⟨below, owned, distinct, by simp [SharedEvent.give]⟩
  | _ => exact ⟨below, owned, distinct, alive⟩

theorem Held.step [Usize] {op : Op W T} {l : Listeners W T} {res : Res T}
    (held : Held s.inner s.owners s.event) (taken : s.toListeners.step op = some (l, res)) :
    Held l.inner (heirs (s.give op).owners res) (s.give op).event := by
  have turns := turns_step taken
  have after := held.give op
  refine ⟨fun j member => ?_, fun j member => ?_, ?_, fun alive => ?_⟩
  · rcases (turns.keys j).mp member with new | ⟨_, old⟩
    · exact (turns.listens j new).2
    · exact (held.below j old).trans_le turns.nextId
  · rw [turns.keys]
    exact ((mem_heirs held.distinct op res j).mp member).imp_right fun ⟨stays, owned⟩ =>
      ⟨stays, held.owned j owned⟩
  · cases res with
    | listening id =>
      -- the id is new, and all owners have older ones
      have fresh : id ∉ (s.give op).owners := by
        intro member
        have old := after.below id (after.owned id member)
        rw [give_listeners, ← (turns.listens id rfl).1] at old
        exact old.false
      exact List.nodup_cons.mpr ⟨fresh, after.distinct⟩
    | done | polled => exact after.distinct
  · have open_ := after.alive alive
    rw [give_listeners] at open_
    rw [← Bool.not_eq_true, turns.closed]
    rintro (rfl | closed)
    · cases alive
    · rw [open_] at closed
      cases closed

/-! ### What a step can do -/

inductive Stepped [Usize] (s : SharedEvent W T) : Act W T → SharedEvent W T × Out W T → Prop
  | enters {op l res out} (idle : s.inside = none) (available : s.available op = true)
      (taken : s.toListeners.step op = some (l, res))
      (leads : Leads { s.give op with
        polls := l.polls
        owners := heirs (s.give op).owners res } op res l.inner out) :
      Stepped s (.call op) out
  | refuses {op place} (inside : s.inside = some place) (available : s.available op = true) :
      Stepped s (.call op) (s.give op, .refused)
  | proceeds {place out} (inside : s.inside = some place) (fits : Fits s.inner place)
      (leads : Leads s place.op place.res (settleAt s.inner place) out) :
      Stepped s .resume out
  | unwinds {place} (inside : s.inside = some place) :
      Stepped s .unwind ({ s with inside := none }, .unwound)

theorem step_spec [Usize] (inv : s.Inv) {act : Act W T} {out : SharedEvent W T × Out W T}
    (taken : s.step act = some out) : Stepped s act out := by
  cases act with
  | call op =>
    simp only [step] at taken
    split at taken
    · cases taken
    next available =>
      have available : s.available op = true := by simpa using available
      split at taken
      next busy =>
        obtain ⟨place, inside⟩ := Option.isSome_iff_exists.mp busy
        cases taken
        exact .refuses inside available
      next idle =>
        cases taken
        obtain ⟨l, res, taken⟩ := inv.takes available
        have given : (s.give op).toListeners.step op = some (l, res) := by
          rw [give_listeners, taken]
        exact .enters (by simpa using idle) available taken (enter_leads given)
  | resume =>
    obtain ⟨place, inside, rfl⟩ := Option.map_eq_some_iff.mp taken
    exact .proceeds inside (inv.fits place inside) (proceed_leads (inv.fits place inside))
  | unwind =>
    obtain ⟨place, inside, rfl⟩ := Option.map_eq_some_iff.mp taken
    exact .unwinds inside

namespace Inv

theorem new : (SharedEvent.new : SharedEvent W T).Inv where
  held := ⟨by simp [SharedEvent.new, Listeners.new, Event.new, OrderedMap.empty, OrderedMap.keys],
    by simp [SharedEvent.new], List.nodup_nil, fun _ => rfl⟩
  fits := by simp [SharedEvent.new]

theorem stepped [Usize] (inv : s.Inv) {act : Act W T} {out : SharedEvent W T × Out W T}
    (stepped : Stepped s act out) : out.1.Inv := by
  cases stepped with
  | enters idle available taken leads => exact leads.inv (inv.held.step taken)
  | @refuses op place inside available =>
    refine ⟨inv.held.give op, ?_⟩
    simpa only [give_inside, give_listeners] using inv.fits
  | proceeds inside fits leads => exact leads.inv ((Held.settle_iff fits).mpr inv.held)
  | unwinds inside => exact ⟨inv.held, by simp⟩

theorem of_run [Usize] {ts} (run : machine.Run ts s) : s.Inv := by
  refine run.invariant ?_ fun _ _ _ _ inv taken => inv.stepped (step_spec inv taken)
  rintro _ rfl
  exact Inv.new

end Inv

/-! ### Without panics the calls are atomic -/

/-- The call that ends with the transition, and what it returns. -/
def Out.answer : Out W T → Option (Op W T × Res T)
  | .returned op res => some (op, res)
  | _ => none

/-- `Listeners` before the call in flight, which makes it what it comes to. -/
def Abstracts [Usize] (s : SharedEvent W T) (l : Listeners W T) : Prop :=
  match s.inside with
  | none => l = s.toListeners
  | some place => l.step place.op = some (⟨settleAt s.inner place, s.polls⟩, place.res)

section

variable [Usize] {ts : List (Machine.Transition (SharedEvent W T) (Act W T) (Out W T))}

theorem Leads.abstracts {op : Op W T} {res : Res T} {target : Inner (Clone W) T}
    {out : SharedEvent W T × Out W T} {l : Listeners W T} (leads : Leads s op res target out)
    (taken : l.step op = some (⟨target, s.polls⟩, res)) :
    (out.2.answer = none ∧ out.1.Abstracts l) ∨
      (out.2.answer = some (op, res) ∧ out.1.Abstracts ⟨target, s.polls⟩) := by
  cases leads with
  | stops place call result fits settles =>
    subst call result settles
    exact .inl ⟨rfl, taken⟩
  | returns => exact .inr ⟨rfl, rfl⟩

theorem Abstracts.step {act : Act W T} {out : SharedEvent W T × Out W T} {l : Listeners W T}
    (abstracts : s.Abstracts l) (stepped : Stepped s act out) (smooth : act ≠ .unwind) :
    (out.2.answer = none ∧ out.1.Abstracts l) ∨
      ∃ op l' res, l.step op = some (l', res) ∧ out.2.answer = some (op, res) ∧
        out.1.Abstracts l' := by
  cases stepped with
  | @enters op l' res out idle available taken leads =>
    -- with nothing in flight, `Listeners` is in this very state
    simp only [Abstracts, idle] at abstracts
    subst abstracts
    exact (leads.abstracts taken).imp_right fun after => ⟨op, l', res, taken, after⟩
  | @refuses op place inside available =>
    left
    simp only [Abstracts, inside] at abstracts
    refine ⟨rfl, ?_⟩
    simp only [Abstracts, give_inside, inside, give_listeners]
    exact abstracts
  | @proceeds place out inside fits leads =>
    simp only [Abstracts, inside] at abstracts
    exact (leads.abstracts abstracts).imp_right fun after => ⟨_, _, _, abstracts, after⟩
  | unwinds => exact absurd rfl smooth

/-- If no call is unwound, the calls that return are those of a run of `Listeners`, in
their order and with their results, whatever the code that they run tries to call; and a
call in flight will do to that what `Listeners` does in one step. -/
theorem atomic_calls (run : machine.Run ts s) (smooth : ∀ t ∈ ts, t.act ≠ .unwind) :
    ∃ us l, Listeners.machine.Run us l ∧
      us.map (fun u => (u.act, u.out)) = ts.filterMap (fun t => t.out.answer) ∧
      s.Abstracts l := by
  induction run with
  | start first =>
    cases first
    exact ⟨[], _, .start rfl, rfl, rfl⟩
  | @next ts s act s' out prior taken ih =>
    simp only [List.mem_append, List.mem_singleton] at smooth
    obtain ⟨us, l, run, same, abstracts⟩ := ih fun t member => smooth t (.inl member)
    have stepped := step_spec (Inv.of_run prior) taken
    rcases abstracts.step stepped (smooth _ (.inr rfl)) with ⟨silent, after⟩ |
      ⟨op, l', res, step, answered, after⟩
    · exact ⟨us, l, run, by simpa [silent] using same, after⟩
    · exact ⟨_, l', run.next step, by simp [same, answered], after⟩

end

/-- A waker is called that notifies the event again and is refused. -/
theorem refused_call_is_atomic : ∃ ts, ∃ s : SharedEvent Nat Unit, machine.Run ts s ∧
    ts.map Machine.Transition.act = [.call .listen, .call (.poll 0 7), .resume,
      .call (.notify (.usize 1)), .resume, .call (.notify (.usize 1)), .resume] ∧
    ∃ us l, Listeners.machine.Run us l ∧
      us.map (fun u => (u.act, u.out)) = [(.listen, .listening 0), (.poll 0 7, .polled .pending),
        (.notify (.usize 1), .done)] ∧
      l = s.toListeners := by
  obtain ⟨ts, s, run, acts, idle, answers⟩ := Machine.exists_run
    (m := machine (W := Nat) (T := Unit))
    (P := fun ts s => s.inside = none ∧ ts.filterMap (fun t => t.out.answer) =
      [(.listen, .listening 0), (.poll 0 7, .polled .pending), (.notify (.usize 1), .done)])
    [.call .listen, .call (.poll 0 7), .resume, .call (.notify (.usize 1)), .resume,
      .call (.notify (.usize 1)), .resume] rfl ⟨_, rfl, rfl, rfl⟩
  have smooth : ∀ t ∈ ts, t.act ≠ .unwind := by
    intro t member unwinds
    have act := List.mem_map_of_mem (f := Machine.Transition.act) member
    rw [acts, unwinds] at act
    simp at act
  obtain ⟨us, l, abstract, same, abstracts⟩ := atomic_calls run smooth
  simp only [Abstracts, idle] at abstracts
  exact ⟨ts, s, run, acts, us, l, abstract, same.trans answers, abstracts⟩

end SharedEvent

end Eneste
