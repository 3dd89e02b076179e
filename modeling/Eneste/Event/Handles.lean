import Eneste.Library.Machine
import Eneste.Event.Streams

/-!
# The handles of an event

An event with all that a program can hold of it: `EventListener`s it awaits itself,
`EventStream`s, and the `EmitterStream`s of an `Emitter`. Which listeners are alive is
known from the handles, not from the map of the event: that the two agree is the
bookkeeping invariant, and no path of the code that would notice a difference is taken.
-/

namespace Eneste

variable {W T : Type}

inductive Handle where
  | listener (id : Nat)
  | eventStream (state : StreamState)
  | emitterStream (state : StreamState)
  deriving DecidableEq

/-- A listener on its own is like one that a stream listens on. -/
def Handle.state : Handle → StreamState
  | .listener id => .listening id
  | .eventStream state | .emitterStream state => state

def Handle.isStream : Handle → Bool
  | .listener _ => false
  | .eventStream _ | .emitterStream _ => true

structure Handles (W T : Type) where
  inner : Inner W T
  live : OrderedMap Nat Handle
  /-- Handles made so far: their names. -/
  created : Nat

namespace Handles

def new : Handles W T := ⟨Event.new, OrderedMap.empty, 0⟩

inductive Op (W T : Type) where
  /-- `Event::listen`. -/
  | listen
  /-- `Event::stream`. -/
  | stream
  /-- `Emitter::subscribe`. -/
  | subscribe
  | notify (value : Notification T)
  | poll (handle : Nat) (waker : W)
  | pollNext (handle : Nat) (waker : W)
  | dropHandle (handle : Nat)
  | dropEvent

inductive Res (T : Type) where
  | done
  | created (handle : Nat)
  | polled (result : Poll T)
  | next (result : Poll (Option T))
  deriving DecidableEq

/-- Register a listener and hand it out. -/
def attach (make : Nat → Handle) (h : Handles W T) : Option (Handles W T × Res T) :=
  if h.inner.closed then none
  else
    let (id, inner) := h.inner.listen
    some (⟨inner, h.live.insert h.created (make id), h.created + 1⟩, .created h.created)

/-- The `Inner` is kept alive by the event and by every live listener. -/
def strong (h : Handles W T) : Bool :=
  !h.inner.closed || h.live.entries.any fun e => e.2.state.listener.isSome

/-- What `Weak::upgrade` finds: an `EventStream` refers to the `Inner`, an `EmitterStream` to
the `Event`. -/
def upgrades (h : Handles W T) : Handle → Bool
  | .emitterStream _ => !h.inner.closed
  | _ => h.strong

/-- `poll_next` of a stream, which leaves it in the state that `make` wraps. -/
def pollStream (name : Nat) (waker : W) (h : Handles W T) (handle : Handle)
    (make : StreamState → Handle) : Option (Handles W T × Res T) :=
  match streamPoll (h.upgrades handle) waker h.inner handle.state with
  | none => none
  | some (result, (inner, state)) =>
    some ({ h with inner := inner, live := h.live.insert name (make state) }, .next result)

section

variable [Usize]

/-- One call. Only the event itself can be listened to, notified or dropped. -/
def step (h : Handles W T) : Op W T → Option (Handles W T × Res T)
  | .listen => h.attach .listener
  | .stream => h.attach fun id => .eventStream (.listening id)
  | .subscribe => h.attach fun id => .emitterStream (.listening id)
  | .notify value =>
    if h.inner.closed then none
    else some ({ h with inner := Event.notify value h.inner }, .done)
  | .poll name waker =>
    match h.live.get? name with
    | some (.listener id) =>
      match EventListener.poll id waker h.inner with
      | none => none
      | some (result, inner) => some ({ h with inner := inner }, .polled result)
    | _ => none
  | .pollNext name waker =>
    match h.live.get? name with
    | some (.eventStream state) => h.pollStream name waker (.eventStream state) .eventStream
    | some (.emitterStream state) => h.pollStream name waker (.emitterStream state) .emitterStream
    | _ => none
  | .dropHandle name =>
    match h.live.get? name with
    | none => none
    | some handle =>
      some ({ h with inner := handle.state.drop h.inner, live := h.live.erase name }, .done)
  | .dropEvent =>
    if h.inner.closed then none else some ({ h with inner := Event.drop h.inner }, .done)

def machine : Machine (Handles W T) (Op W T) (Res T) where
  init h := h = new
  step := step

end

/-! ### What a call can do -/

/-- The calls that hand out a listener or a stream. -/
def Op.attaches : Op W T → Bool
  | .listen | .stream | .subscribe => true
  | _ => false

inductive Stepped (h : Handles W T) : Op W T → Handles W T → Res T → Prop
  | attaches {op} {make : Nat → Handle} (alive : h.inner.closed = false)
      (hands : op.attaches = true) (listens : ∀ id, (make id).state = .listening id) :
      Stepped h op ⟨h.inner.listen.2, h.live.insert h.created (make h.inner.nextId), h.created + 1⟩
        (.created h.created)
  | notifies {value} (count : Nat) (alive : h.inner.closed = false) :
      Stepped h (.notify value)
        { h with inner := h.inner.grant value.tag (h.inner.waiting.take count) } .done
  | reads {name id waker tag} (held : h.live.get? name = some (.listener id))
      (found : h.inner.listeners.get? id = some ⟨none, some tag⟩) :
      Stepped h (.poll name waker) { h with inner := h.inner.read id } (.polled (.ready tag))
  | awaits {name id waker old} (held : h.live.get? name = some (.listener id))
      (found : h.inner.listeners.get? id = some ⟨old, none⟩) :
      Stepped h (.poll name waker) { h with inner := h.inner.await id waker } (.polled .pending)
  | polls {name waker handle result inner state} {make : StreamState → Handle}
      (held : h.live.get? name = some handle)
      (wraps : ∀ s, (make s).state = s) (streams : ∀ s, (make s).isStream = true)
      (polled : StreamPolled (h.upgrades handle) waker h.inner handle.state result inner state) :
      Stepped h (.pollNext name waker)
        { h with inner := inner, live := h.live.insert name (make state) } (.next result)
  | drops {name handle} (held : h.live.get? name = some handle) :
      Stepped h (.dropHandle name)
        { h with inner := handle.state.drop h.inner, live := h.live.erase name } .done
  | closes (alive : h.inner.closed = false) :
      Stepped h .dropEvent { h with inner := Event.drop h.inner } .done

/-- The states of the handles, for `Streams`. -/
def states (h : Handles W T) (name : Nat) : Option StreamState :=
  (h.live.get? name).map Handle.state

/-- The handles listen on the listeners of the event, each on its own. -/
structure Inv (h : Handles W T) : Prop where
  streams : Streams h.inner h.states
  covered : ∀ id ∈ h.inner.listeners.keys, ∃ name, h.states name = some (.listening id)
  named : ∀ name handle, h.live.get? name = some handle → name < h.created

section

variable {h h' : Handles W T} {name : Nat} {handle : Handle}

theorem states_of_get? (held : h.live.get? name = some handle) :
    h.states name = some handle.state := by
  rw [states, held, Option.map_some]

private theorem states_insert {inner : Inner W T} {created j : Nat} :
    (⟨inner, h.live.insert name handle, created⟩ : Handles W T).states j =
      if j = name then some handle.state else h.states j := by
  simp only [states, OrderedMap.get?_insert]
  split <;> rfl

private theorem states_erase {inner : Inner W T} {created j : Nat} :
    (⟨inner, h.live.erase name, created⟩ : Handles W T).states j =
      if j = name then none else h.states j := by
  simp only [states, OrderedMap.get?_erase]
  split <;> rfl

private theorem attach_spec {op : Op W T} {r : Res T} {make : Nat → Handle}
    (hands : op.attaches = true) (listens : ∀ id, (make id).state = .listening id)
    (taken : h.attach make = some (h', r)) : Stepped h op h' r := by
  unfold attach at taken
  split at taken
  · cases taken
  next alive =>
    cases taken
    exact .attaches (by simpa using alive) hands listens

private theorem pollStream_spec {waker : W} {r : Res T} {make : StreamState → Handle}
    (streams : Streams h.inner h.states) (held : h.live.get? name = some handle)
    (wraps : ∀ s, (make s).state = s) (remains : ∀ s, (make s).isStream = true)
    (taken : h.pollStream name waker handle make = some (h', r)) :
    Stepped h (.pollNext name waker) h' r := by
  unfold pollStream at taken
  split at taken
  · cases taken
  next polled =>
    cases taken
    refine .polls held wraps remains (streamPoll_spec _ waker (fun id listening => ?_) polled)
    exact streams.present name id (by rw [states_of_get? held, listening])

theorem step_spec [Usize] {op : Op W T} {r : Res T} (streams : Streams h.inner h.states)
    (taken : h.step op = some (h', r)) : Stepped h op h' r := by
  cases op with
  | listen =>
    have attached : h.attach .listener = some (h', r) := taken
    exact attach_spec rfl (fun _ => rfl) attached
  | stream =>
    have attached : h.attach (fun id => .eventStream (.listening id)) = some (h', r) := taken
    exact attach_spec rfl (fun _ => rfl) attached
  | subscribe =>
    have attached : h.attach (fun id => .emitterStream (.listening id)) = some (h', r) := taken
    exact attach_spec rfl (fun _ => rfl) attached
  | notify value =>
    simp only [step] at taken
    split at taken
    · cases taken
    next alive =>
      cases taken
      obtain ⟨count, granted⟩ := Event.notify_eq_grant value h.inner
      rw [granted]
      exact .notifies count (by simpa using alive)
  | poll name waker =>
    simp only [step] at taken
    split at taken
    next id held =>
      obtain ⟨⟨old, value⟩, found⟩ := streams.present name id (states_of_get? held)
      cases value with
      | none =>
        simp only [EventListener.poll_waiting _ found, Option.some.injEq, Prod.mk.injEq] at taken
        obtain ⟨rfl, rfl⟩ := taken
        exact .awaits held found
      | some tag =>
        -- the stored waker of a notified listener has been taken
        cases (streams.wf.asleep _ _ found rfl : old = none)
        simp only [EventListener.poll, found, Option.some.injEq, Prod.mk.injEq] at taken
        obtain ⟨rfl, rfl⟩ := taken
        exact .reads held found
    next => cases taken
  | pollNext name waker =>
    simp only [step] at taken
    split at taken
    next held => exact pollStream_spec streams held (fun _ => rfl) (fun _ => rfl) taken
    next held => exact pollStream_spec streams held (fun _ => rfl) (fun _ => rfl) taken
    next => cases taken
  | dropHandle name =>
    simp only [step] at taken
    split at taken
    · cases taken
    next held =>
      cases taken
      exact .drops held
  | dropEvent =>
    simp only [step] at taken
    split at taken
    · cases taken
    next alive =>
      cases taken
      exact .closes (by simpa using alive)

/-! ### The invariant is kept -/

namespace Inv

theorem new : (Handles.new : Handles W T).Inv where
  streams := Streams.new
  covered := by simp [Handles.new, Event.new, OrderedMap.empty, OrderedMap.keys]
  named := by simp [Handles.new]

private theorem insert_named (inv : h.Inv) {created : Nat} (known : name < created)
    (later : h.created ≤ created) : ∀ other found,
      (h.live.insert name handle).get? other = some found → other < created := by
  intro other found held
  rw [OrderedMap.get?_insert] at held
  split at held
  next same => exact same ▸ known
  next => exact (inv.named other found held).trans_le later

/-- Reading and awaiting a listener leave it with its handle. -/
private theorem keep (inv : h.Inv) {inner : Inner W T} (wf : inner.WF)
    (keys : ∀ id, id ∈ inner.listeners.keys ↔ id ∈ h.inner.listeners.keys) :
    ({ h with inner := inner } : Handles W T).Inv where
  streams := by
    refine ⟨wf, fun k id listening => ?_, inv.streams.distinct⟩
    rw [← OrderedMap.mem_keys_iff, keys, OrderedMap.mem_keys_iff]
    exact inv.streams.present k id listening
  covered id member := inv.covered id ((keys id).mp member)
  named := inv.named

theorem attach (inv : h.Inv) {make : Nat → Handle}
    (listens : ∀ id, (make id).state = .listening id) :
    (⟨h.inner.listen.2, h.live.insert h.created (make h.inner.nextId), h.created + 1⟩ :
      Handles W T).Inv where
  streams := by
    refine inv.streams.subscribe (k := h.created) ?_
      fun j other => states_insert.trans (if_neg other)
    rw [states_insert, if_pos rfl, listens]
  covered id member := by
    rcases (OrderedMap.mem_keys_insert _ _ _ _).mp member with fresh | old
    · exact ⟨h.created, by rw [states_insert, if_pos rfl, listens, fresh]⟩
    · obtain ⟨name, listening⟩ := inv.covered id old
      -- names in use are below the new one
      have other : name ≠ h.created := by
        rintro rfl
        obtain ⟨handle, held, _⟩ := Option.map_eq_some_iff.mp listening
        exact absurd (inv.named _ _ held) (lt_irrefl _)
      exact ⟨name, by rw [states_insert, if_neg other, listening]⟩
  named := inv.insert_named (Nat.lt_succ_self _) (Nat.le_succ _)

theorem poll (inv : h.Inv) {waker : W} {inner : Inner W T} {state : StreamState}
    {result : Poll (Option T)} {make : StreamState → Handle}
    (held : h.live.get? name = some handle) (wraps : ∀ s, (make s).state = s)
    (polled : StreamPolled (h.upgrades handle) waker h.inner handle.state result inner state) :
    ({ h with inner := inner, live := h.live.insert name (make state) } : Handles W T).Inv where
  streams := by
    refine inv.streams.poll (states_of_get? held) polled ?_ fun j other =>
      states_insert.trans (if_neg other)
    rw [states_insert, if_pos rfl, wraps]
  covered id member := by
    rcases polled.mem_keys member with own | ⟨before, differs⟩
    · exact ⟨name, by rw [states_insert, if_pos rfl, wraps, own]⟩
    · obtain ⟨other, listening⟩ := inv.covered id before
      have apart : other ≠ name := by
        rintro rfl
        rw [states_of_get? held] at listening
        exact differs (Option.some.inj listening)
      exact ⟨other, by rw [states_insert, if_neg apart, listening]⟩
  named := inv.insert_named (inv.named name handle held) le_rfl

theorem drop (inv : h.Inv) (held : h.live.get? name = some handle) :
    ({ h with inner := handle.state.drop h.inner, live := h.live.erase name } :
      Handles W T).Inv where
  streams := inv.streams.drop (states_of_get? held) (states_erase.trans (if_pos rfl))
    fun j other => states_erase.trans (if_neg other)
  covered id member := by
    -- the erased listener is that of the handle
    have kept : id ∈ h.inner.listeners.keys ∧ handle.state ≠ .listening id := by
      cases listening : handle.state with
      | next | done =>
        exact ⟨by simpa [listening, StreamState.drop, StreamState.listener] using member, by simp⟩
      | listening own =>
        simp only [listening, StreamState.drop, StreamState.listener] at member
        rw [EventListener.keys_drop inv.streams.wf] at member
        obtain ⟨differs, present⟩ := (OrderedMap.mem_keys_erase _ _ _).mp member
        exact ⟨present, by simp [Ne.symm differs]⟩
    obtain ⟨other, listening⟩ := inv.covered id kept.1
    have apart : other ≠ name := by
      rintro rfl
      rw [states_of_get? held] at listening
      exact kept.2 (Option.some.inj listening)
    exact ⟨other, by rw [states_erase, if_neg apart, listening]⟩
  named other found live := by
    rw [OrderedMap.get?_erase] at live
    split at live
    next => cases live
    next => exact inv.named other found live

theorem stepped {op : Op W T} {r : Res T} (inv : h.Inv) (stepped : Stepped h op h' r) :
    h'.Inv := by
  have wf := inv.streams.wf
  cases stepped with
  | attaches alive hands listens => exact inv.attach listens
  | @notifies value count =>
    exact inv.keep (wf.grant value.tag (h.inner.waiting_nodup.sublist (List.take_sublist _ _))
      (List.take_subset _ _)) fun id => by simp [Inner.grant]
  | @reads name id waker tag held found =>
    have present := (OrderedMap.mem_keys_iff _ _).mpr ⟨_, found⟩
    refine inv.keep (wf.read id found rfl) fun j => (OrderedMap.mem_keys_insert _ _ _ _).trans ?_
    exact or_iff_right_of_imp fun same => same ▸ present
  | @awaits name id waker old held found =>
    have present := (OrderedMap.mem_keys_iff _ _).mpr ⟨_, found⟩
    refine inv.keep (wf.await id waker found rfl) fun j =>
      (OrderedMap.mem_keys_insert _ _ _ _).trans ?_
    exact or_iff_right_of_imp fun same => same ▸ present
  | polls held wraps _ polled => exact inv.poll held wraps polled
  | drops held => exact inv.drop held
  | closes => exact inv.keep wf.close fun id => by simp

theorem of_run [Usize] {ts} (run : machine.Run ts h) : h.Inv := by
  refine run.invariant ?_ fun _ _ _ _ inv taken => inv.stepped (step_spec inv.streams taken)
  rintro _ rfl
  exact Inv.new

end Inv

end

end Handles

end Eneste
