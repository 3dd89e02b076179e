import Eneste.Event.StreamsEnd
import Eneste.Executor.Executor

/-!
# Tasks that wait for events

The executor and the events that its tasks await, as one machine. A task that polls a
listener or a stream leaves its waker with the event. Whoever notifies the event, drops it
or drops one of its handles calls wakers, on the executor's thread and one after the other,
and each of these calls is one of `Header::schedule`.
-/

namespace Eneste

variable {T : Type}

/-- A poll of a handle that has returned `Pending`. -/
structure Asked where
  task : Nat
  /-- How many polls of the task had begun. -/
  poll : Nat
  /-- How many wakers the event had woken. -/
  since : Nat
  /-- Whether the event was still there. -/
  opened : Bool
  deriving DecidableEq

def Frame.isSchedule : Frame → Bool
  | .schedule _ => true
  | _ => false

/-- The handle that a call uses. -/
def Handles.Op.handle : Handles.Op Nat T → Option Nat
  | .poll name _ | .pollNext name _ | .dropHandle name => some name
  | _ => none

/-- The task whose poll of a handle had nothing to return. -/
def Handles.Op.waits : Handles.Op Nat T → Handles.Res T → Option Nat
  | .poll _ task, .polled .pending | .pollNext _ task, .next .pending => some task
  | _, _ => none

structure Runtime (T : Type) where
  executor : Executor
  events : Nat → Handles Nat T
  /-- The wakers that the call of an event has still to call. -/
  toWake : List Nat
  /-- The last poll of each handle, if it returned `Pending`; no code reads it. -/
  asked : Nat → Nat → Option Asked

namespace Runtime

def new : Runtime T := ⟨Executor.new, fun _ => Handles.new, [], fun _ _ => none⟩

inductive Act (T : Type) where
  /-- The executor or another thread goes on. -/
  | run (act : Executor.Act)
  /-- User code uses an event or one of its handles. -/
  | use (event : Nat) (op : Handles.Op Nat T)
  /-- The next waker is called. -/
  | wake

variable (s : Runtime T)

/-- A task polls with its own waker; for the rest any user code will do. -/
def mayUse : Handles.Op Nat T → Bool
  | .poll _ task | .pollNext _ task =>
    match s.executor.stack with
    | .poll id :: _ => id == task
    | _ => false
  | _ => s.executor.userMode

/-- Until all wakers have been called, the executor's thread has nothing else to do. -/
def mayRun : Executor.Act → Bool
  | .wakeThread _ | .stepThread _ => true
  | .advance => s.toWake.isEmpty || s.executor.stack.head?.any Frame.isSchedule
  | _ => s.toWake.isEmpty

/-- The poll of a handle is noted if it had nothing to return, and until the handle is used
again. -/
def ask (polls : Nat → Nat) (h : Handles Nat T) (asked : Nat → Option Asked)
    (op : Handles.Op Nat T) (r : Handles.Res T) : Nat → Option Asked :=
  match op.handle with
  | none => asked
  | some name =>
    Function.update asked name ((op.waits r).map fun task =>
      ⟨task, polls task, h.inner.woken.length, !h.inner.closed⟩)

variable [Usize]

def step : Act T → Option (Runtime T × Executor.Event)
  | .run act =>
    if s.mayRun act then
      (s.executor.step act).map fun (e, ev) => ({ s with executor := e }, ev)
    else none
  | .use event op =>
    if s.toWake = [] ∧ s.mayUse op then
      match (s.events event).step op with
      | none => none
      | some (h, r) =>
        some ({ s with
          events := Function.update s.events event h
          toWake := h.inner.woken.drop (s.events event).inner.woken.length
          asked := Function.update s.asked event
            (ask s.executor.polls (s.events event) (s.asked event) op r) }, .quiet)
    else none
  | .wake =>
    match s.toWake with
    | [] => none
    | task :: rest =>
      (s.executor.step (.wake task)).map fun (e, ev) =>
        ({ s with executor := e, toWake := rest }, ev)

def machine : Machine (Runtime T) (Act T) Executor.Event where
  init s := s = new
  step s := s.step

end Runtime

/-! ### Handles that wait -/

namespace Handles

variable {h h' : Handles Nat T} {name : Nat} {a : Asked}

/-- The handle listens, and the event has the waker or has called it. -/
def Parked (name : Nat) (a : Asked) (h : Handles Nat T) : Prop :=
  ∃ id, h.states name = some (.listening id) ∧ h.inner.Tracks ⟨id, a.task, a.since⟩ ∧
    (a.opened = true → h.inner.Registered a.task id → h.inner.closed = false)

/-- The handle has been notified, or its event dropped, since it was polled. -/
def Informed (name : Nat) (a : Asked) (h : Handles Nat T) : Prop :=
  ∃ id, h.states name = some (.listening id) ∧
    (EventListener.isNotified id h.inner = true ∨ a.opened = true ∧ h.inner.closed = true)

/-- The waker has been called since. -/
def Called (a : Asked) (h : Handles Nat T) : Prop := a.task ∈ h.inner.woken.drop a.since

theorem Parked.called (parked : h.Parked name a) (informed : h.Informed name a) :
    h.Called a := by
  obtain ⟨id, listens, ⟨within, entry, found, state⟩, opened⟩ := parked
  obtain ⟨_, same, why⟩ := informed
  cases listens.symm.trans same
  rcases state with ⟨stored, empty⟩ | ⟨_, _, woke⟩
  · -- a listener whose waker is stored has neither been notified nor has its event gone
    have registered : h.inner.Registered a.task id := by
      rw [Inner.Registered, found, ← stored, ← empty]
    rcases why with notified | ⟨there, gone⟩
    · exact absurd (registered.silent.symm.trans notified) Bool.false_ne_true
    · exact absurd ((opened there registered).symm.trans gone) Bool.false_ne_true
  · exact woke

theorem Stepped.grown {op : Op Nat T} {r : Res T} (inv : h.Inv) (stepped : Stepped h op h' r) :
    ∃ extra, h'.inner.woken = h.inner.woken ++ extra := by
  cases stepped with
  | attaches | reads | awaits => exact ⟨[], (List.append_nil _).symm⟩
  | notifies => exact ⟨_, rfl⟩
  | polls _ _ _ polled => exact ⟨[], by simp [polled.woken]⟩
  | @drops name handle held =>
    cases state : handle.state with
    | next | done => exact ⟨[], (List.append_nil _).symm⟩
    | listening id =>
      simp only [StreamState.drop, StreamState.listener]
      obtain ⟨⟨old, value⟩, found⟩ := inv.streams.present name id (by
        rw [states_of_get? held, state])
      cases value with
      | none =>
        rw [EventListener.drop_waiting found]
        exact ⟨[], (List.append_nil _).symm⟩
      | some tag =>
        rw [EventListener.drop_notified inv.streams.wf found]
        exact ⟨_, rfl⟩
  | closes =>
    rw [Event.drop_eq]
    exact ⟨_, rfl⟩

/-- A waker that another listener's drop leaves was there before it. -/
private theorem registered_of_drop {inner : Inner Nat T} (wf : inner.WF) {id own task : Nat}
    (other : id ≠ own) (registered : (EventListener.drop own inner).Registered task id) :
    inner.Registered task id := by
  unfold Inner.Registered at registered ⊢
  cases found : inner.listeners.get? own with
  | none => simpa [EventListener.drop, found] using registered
  | some entry =>
    obtain ⟨old, value⟩ := entry
    cases value with
    | none =>
      rw [EventListener.drop_waiting found] at registered
      exact (OrderedMap.get?_erase_of_ne _ other).symm.trans registered
    | some tag =>
      rw [EventListener.drop_notified wf found, Inner.get?_grant] at registered
      split at registered
      · -- a listener that was granted has no waker
        obtain ⟨_, _, impossible⟩ := Option.map_eq_some_iff.mp registered
        cases impossible
      · exact (OrderedMap.get?_erase_of_ne _ other).symm.trans registered

/-- What happens to other handles leaves a handle parked. -/
theorem Parked.stepped {op : Op Nat T} {r : Res T} (parked : h.Parked name a) (inv : h.Inv)
    (stepped : Stepped h op h' r) (others : op.handle ≠ some name) : h'.Parked name a := by
  obtain ⟨id, listens, tracks, opened⟩ := parked
  obtain ⟨handle, live, state⟩ := Option.map_eq_some_iff.mp listens
  -- another handle listens elsewhere
  have apart : ∀ other found, other ≠ name → h.live.get? other = some found →
      found.state ≠ .listening id := by
    intro other found differs held same
    exact differs (inv.streams.distinct _ _ _ (by rw [states_of_get? held, same]) listens)
  have same : ∀ {inner : Inner Nat T} {live : OrderedMap Nat Handle} {created : Nat},
      live.get? name = h.live.get? name →
      (⟨inner, live, created⟩ : Handles Nat T).states name = some (.listening id) := by
    intro inner live created same
    exact (congrArg (Option.map Handle.state) same).trans listens
  cases stepped with
  | attaches =>
    have old : name ≠ h.created := (inv.named name handle live).ne
    have here := inv.streams.listener_ne listens
    refine ⟨id, same (OrderedMap.get?_insert_of_ne _ _ old), ?_, fun was there => ?_⟩
    · exact tracks.frame (List.append_nil _).symm (fun closed => closed)
        (OrderedMap.get?_insert_of_ne _ _ here)
    · exact opened was ((OrderedMap.get?_insert_of_ne _ _ here).symm.trans there)
  | notifies count alive => exact ⟨id, same rfl, tracks.grant _ _, fun _ _ => alive⟩
  | @reads other own w tag held found | @awaits other own w old held found =>
    have differs : other ≠ name := fun same => others (congrArg some same)
    have elsewhere : id ≠ own := fun same =>
      apart other _ differs held (by rw [Handle.state, same])
    refine ⟨id, same rfl, ?_, fun was there => ?_⟩
    · exact tracks.frame (List.append_nil _).symm (fun closed => closed)
        (OrderedMap.get?_insert_of_ne _ _ elsewhere)
    · exact opened was ((OrderedMap.get?_insert_of_ne _ _ elsewhere).symm.trans there)
  | @polls other w _ _ _ _ _ held _ _ polled =>
    have differs : other ≠ name := fun same => others (congrArg some same)
    obtain ⟨entry, found⟩ := inv.streams.present name id listens
    have kept := polled.frame inv.streams.wf found (apart other _ differs held)
    refine ⟨id, same (OrderedMap.get?_insert_of_ne _ _ differs.symm), ?_, fun was there => ?_⟩
    · exact tracks.frame (polled.woken.trans (List.append_nil _).symm)
        (fun closed => polled.closed.trans closed) kept
    · exact polled.closed.trans (opened was (kept.symm.trans there))
  | @drops other handle held =>
    have differs : other ≠ name := fun same => others (congrArg some same)
    refine ⟨id, same (OrderedMap.get?_erase_of_ne _ differs.symm), ?_, fun was there => ?_⟩
    · cases state : handle.state with
      | listening own =>
        have elsewhere : id ≠ own := fun same => apart other _ differs held (by rw [state, same])
        exact tracks.drop inv.streams.wf elsewhere
      | next | done => exact tracks
    · rw [handle.state.closed_drop]
      cases state : handle.state with
      | listening own =>
        have elsewhere : id ≠ own := fun same => apart other _ differs held (by rw [state, same])
        rw [state] at there
        exact opened was (registered_of_drop inv.streams.wf elsewhere there)
      | next | done =>
        rw [state] at there
        exact opened was there
  | closes =>
    refine ⟨id, same rfl, tracks.close.1, fun _ there => ?_⟩
    -- the drop has taken every waker
    obtain ⟨_, entry, found, _⟩ := tracks
    simp [Inner.Registered, Event.drop_eq, found] at there

/-- A handle that was polled and had nothing to return is parked. -/
theorem Stepped.parks {op : Op Nat T} {r : Res T} {task poll : Nat}
    (stepped : Stepped h op h' r) (polled : op.handle = some name)
    (pending : op.waits r = some task) :
    h'.Parked name ⟨task, poll, h.inner.woken.length, !h.inner.closed⟩ := by
  cases stepped with
  | attaches _ hands =>
    cases op with
    | listen | stream | subscribe => cases polled
    | _ => cases hands
  | notifies | reads | drops | closes => cases pending
  | @awaits _ id _ _ held found =>
    cases polled
    cases pending
    refine ⟨id, states_of_get? held, ⟨Nat.le_refl _, _, OrderedMap.get?_insert_self _ _ _,
      .inl ⟨rfl, rfl⟩⟩, fun there _ => ?_⟩
    exact (Bool.not_eq_true' _).mp there
  | @polls _ _ _ result _ _ _ held wraps streams waited =>
    cases polled
    cases result with
    | ready => cases pending
    | pending =>
      cases pending
      obtain ⟨id, rfl, tracks⟩ := waited.tracks
      refine ⟨id, ?_, tracks, fun there _ => waited.closed.trans (by simpa using there)⟩
      rw [states, OrderedMap.get?_insert_self, Option.map_some, wraps]

end Handles

/-! ### Which wakers an event has -/

/-- All wakers that listeners have left. -/
def Stores (P : Nat → Prop) (listeners : OrderedMap Nat (ListenerEntry Nat T)) : Prop :=
  ∀ id entry w, listeners.get? id = some entry → entry.waker = some w → P w

namespace Stores

variable {P : Nat → Prop} {listeners : OrderedMap Nat (ListenerEntry Nat T)}

theorem insert (stores : Stores P listeners) {id : Nat} {entry : ListenerEntry Nat T}
    (own : ∀ w, entry.waker = some w → P w) : Stores P (listeners.insert id entry) := by
  intro j other w found left
  rw [OrderedMap.get?_insert] at found
  split at found
  · cases found
    exact own w left
  · exact stores j other w found left

theorem erase (stores : Stores P listeners) (id : Nat) : Stores P (listeners.erase id) := by
  intro j other w found left
  rw [OrderedMap.get?_erase] at found
  split at found
  · cases found
  · exact stores j other w found left

/-- Whoever is granted a notification has its waker called. -/
theorem grant {inner : Inner Nat T} (stores : Stores P inner.listeners) (tag : T)
    (ids : List Nat) : Stores P (inner.grant tag ids).listeners ∧
      ∀ w ∈ (inner.grant tag ids).woken.drop inner.woken.length, P w := by
  constructor
  · intro j other w found left
    rw [Inner.get?_grant] at found
    split at found
    · obtain ⟨_, _, rfl⟩ := Option.map_eq_some_iff.mp found
      cases left
    · exact stores j other w found left
  · intro w woken
    simp only [Inner.grant, List.drop_left, List.mem_filterMap, Option.bind_eq_some_iff] at woken
    obtain ⟨id, _, entry, found, left⟩ := woken
    exact stores id entry w found left

end Stores

/-- A call of the event leaves and calls wakers that were there, or the one of its caller. -/
theorem Handles.Stepped.stores {h h' : Handles Nat T} {op : Handles.Op Nat T}
    {r : Handles.Res T} {P : Nat → Prop} (stepped : Handles.Stepped h op h' r) (inv : h.Inv)
    (stores : Stores P h.inner.listeners) (own : ∀ w, op.waits r = some w → P w) :
    Stores P h'.inner.listeners ∧ ∀ w ∈ h'.inner.woken.drop h.inner.woken.length, P w := by
  have silent : ∀ {inner : Inner Nat T}, inner.woken = h.inner.woken →
      ∀ w ∈ inner.woken.drop h.inner.woken.length, P w := by
    intro inner same w member
    simp [same] at member
  cases stepped with
  | attaches | reads => exact ⟨stores.insert nofun, silent rfl⟩
  | notifies => exact stores.grant _ _
  | awaits =>
    refine ⟨stores.insert ?_, silent rfl⟩
    rintro _ ⟨⟩
    exact own _ rfl
  | @polls _ _ handle _ _ _ _ held _ _ polled =>
    refine ⟨?_, silent polled.woken⟩
    clear held
    generalize handle.state = state at polled
    cases polled with
    | yields | closes | abandons => exact stores.erase _
    | waits | rearms =>
      refine stores.insert ?_
      rintro _ ⟨⟩
      exact own _ rfl
    | ends | ended => exact stores
  | @drops name handle held =>
    cases state : handle.state with
    | next | done => exact ⟨stores, silent rfl⟩
    | listening id =>
      obtain ⟨⟨old, value⟩, found⟩ := inv.streams.present name id (by
        rw [Handles.states_of_get? held, state])
      simp only [StreamState.drop, StreamState.listener]
      cases value with
      | none =>
        rw [EventListener.drop_waiting found]
        exact ⟨stores.erase id, silent rfl⟩
      | some tag =>
        rw [EventListener.drop_notified inv.streams.wf found]
        have consumed : Stores P (h.inner.consume id).listeners := stores.erase id
        exact consumed.grant tag _
  | closes =>
    rw [Event.drop_eq]
    refine ⟨fun j other w found left => ?_, fun w woken => ?_⟩
    · rw [OrderedMap.get?_map] at found
      obtain ⟨_, _, rfl⟩ := Option.map_eq_some_iff.mp found
      cases left
    · simp only [List.drop_left, List.mem_filterMap] at woken
      obtain ⟨⟨id, entry⟩, member, left⟩ := woken
      exact stores id entry w ((OrderedMap.get?_eq_some_iff _ _ _).mpr member) left

end Eneste
