import Eneste.Event.Bookkeeping

/-!
# When a listener says that it is terminated

`FusedFuture::is_terminated` tells combinators that a future need not be polled any
more. `EventListener` says so of itself while it holds a notification nobody has read.
-/

namespace Eneste

/-- A listener whose entry is there is terminated exactly while it is notified. -/
theorem EventListener.isTerminated_eq {W T : Type} {id : Nat} {inner : Inner W T}
    (present : ∃ entry, inner.listeners.get? id = some entry) :
    isTerminated id inner = isNotified id inner := by
  obtain ⟨entry, found⟩ := present
  simp [isTerminated, isNotified, found]

namespace Handles

variable {W T : Type}

section

variable [Usize]

/-- If the listener says that it is terminated, then no poll of it returns `Ready` from
here on, whatever else is called in between. -/
def Honours (name : Nat) (h : Handles W T) : Prop :=
  ∀ id, h.live.get? name = some (.listener id) → EventListener.isTerminated id h.inner = true →
    ∀ later after waker tag, machine.Moves h later →
      machine.step later (.poll name waker) ≠ some (after, .polled (.ready tag))

/-- The call gives the listener a notification: the listener is among the waiting ones that
`notify` has to notify, or the first of them when a notified one is dropped. -/
def reaches (h : Handles W T) (id : Nat) : Op W T → Bool
  | .notify value =>
    (h.inner.waiting.take
      (quota value h.inner.listeners.size h.inner.notified - h.inner.notified)).contains id
  | .dropHandle name =>
    match (h.live.get? name).bind fun handle => handle.state.listener with
    | some own => EventListener.isNotified own h.inner && h.inner.waiting.head? == some id
    | none => false
  | _ => false

/-- The handle is no listener that holds a notification. -/
def Unnotified (name : Nat) (h : Handles W T) : Prop :=
  ∀ id, h.live.get? name = some (.listener id) → EventListener.isNotified id h.inner = false

variable {h h' : Handles W T} {name : Nat}

/-- In any state, a listener honours the contract only by having nothing to deliver. -/
theorem honours_iff [Inhabited W] (inv : h.Inv) : Honours name h ↔ Unnotified name h := by
  constructor
  · intro honours id held
    have present := inv.streams.present name id (states_of_get? held)
    obtain ⟨⟨old, value⟩, found⟩ := present
    cases value with
    | none => simp [EventListener.isNotified, found, ListenerEntry.isNotified]
    | some tag =>
      -- it says that it is terminated, and the very next poll returns the tag
      have terminated : EventListener.isTerminated id h.inner = true := by
        simp [EventListener.isTerminated, found, ListenerEntry.isNotified]
      have polled : ∃ after, machine.step h (.poll name default) =
          some (after, .polled (.ready tag)) :=
        ⟨_, by simp only [machine, step, held, EventListener.poll, found]; rfl⟩
      obtain ⟨after, ready⟩ := polled
      exact absurd ready (honours id held terminated h after default tag .refl)
  · intro quiet id held terminated
    have present := inv.streams.present name id (states_of_get? held)
    rw [EventListener.isTerminated_eq present, quiet id held] at terminated
    cases terminated

/-- A listener that holds a notification does not honour the contract. -/
theorem not_honours [Inhabited W] {id : Nat} (inv : h.Inv)
    (held : h.live.get? name = some (.listener id))
    (notified : EventListener.isNotified id h.inner = true) : ¬Honours name h := by
  intro honours
  have quiet := (honours_iff inv).mp honours id held
  rw [notified] at quiet
  cases quiet

/-- A call that leaves the handle what it is. -/
private theorem unnotified_iff {op : Op W T}
    (same : h'.live.get? name = h.live.get? name)
    (after : ∀ id, h.live.get? name = some (.listener id) →
      EventListener.isNotified id h'.inner = h.reaches id op) :
    Unnotified name h' ↔
      ∀ id, h.live.get? name = some (.listener id) → h.reaches id op = false := by
  rw [Unnotified, same]
  exact forall₂_congr fun id held => by rw [after id held]

omit [Usize] in
/-- No other handle listens on the listener. -/
private theorem state_ne (inv : h.Inv) {j id : Nat} {handle : Handle}
    (listener : h.live.get? name = some (.listener id)) (held : h.live.get? j = some handle)
    (own : name ≠ j) : handle.state ≠ .listening id := fun same =>
  own (inv.streams.distinct name j id (states_of_get? listener)
    ((states_of_get? held).trans (congrArg some same)))

/-- A listener that has nothing to deliver has something after a call that reaches it. -/
theorem unnotified_step {op : Op W T} {r : Res T} (inv : h.Inv) (quiet : Unnotified name h)
    (taken : h.step op = some (h', r)) :
    Unnotified name h' ↔
      ∀ id, h.live.get? name = some (.listener id) → h.reaches id op = false := by
  have wf := inv.streams.wf
  have present : ∀ id, h.live.get? name = some (.listener id) →
      ∃ entry, h.inner.listeners.get? id = some entry :=
    fun id held => inv.streams.present name id (states_of_get? held)
  cases step_spec inv.streams taken with
  | @attaches op make alive hands listens =>
    have spared : ∀ id, h.reaches id op = false := by
      intro id
      cases op with
      | listen | stream | subscribe => rfl
      | _ => cases hands
    by_cases own : name = h.created
    · -- the handle is new, and so is its listener
      have unused : ∀ handle, h.live.get? name ≠ some handle :=
        fun handle held => absurd (inv.named name handle held) (by simp [own])
      refine iff_of_true (fun id held => ?_) fun id held => absurd held (unused _)
      simp only [own, OrderedMap.get?_insert_self, Option.some.injEq] at held
      have fresh := listens h.inner.nextId
      rw [held] at fresh
      cases fresh
      simp [EventListener.isNotified, Inner.listen, ListenerEntry.isNotified]
    · apply unnotified_iff (OrderedMap.get?_insert_of_ne _ _ own)
      intro id held
      have other : id ≠ h.inner.nextId := inv.streams.listener_ne (states_of_get? held)
      rw [spared, ← quiet id held]
      simp only [EventListener.isNotified, Inner.listen]
      rw [OrderedMap.get?_insert_of_ne _ _ other]
  | @notifies value count alive =>
    refine unnotified_iff rfl fun id held => ?_
    -- it is the notification of `notify`, which gives as many as its quota
    have granted : Event.notify value h.inner =
        h.inner.grant value.tag (h.inner.waiting.take count) := by
      simp only [step, alive, Bool.false_eq_true, ite_false, Option.some.injEq, Prod.mk.injEq,
        Handles.mk.injEq] at taken
      exact taken.1.1
    rw [← granted, notify_eq_grant_quota wf, Bool.eq_iff_iff,
      EventListener.isNotified_grant _ (List.take_subset _ _)]
    simp [reaches, quiet id held]
  | @reads j own waker tag listener found =>
    refine unnotified_iff rfl fun id held => ?_
    have notified : EventListener.isNotified own h.inner = true := by
      simp [EventListener.isNotified, found, ListenerEntry.isNotified]
    have other : id ≠ own := by
      rintro rfl
      rw [quiet id held] at notified
      cases notified
    refine Eq.trans ?_ (quiet id held)
    simp only [EventListener.isNotified, Inner.read]
    rw [OrderedMap.get?_insert_of_ne _ _ other]
  | @awaits j own waker old listener found =>
    refine unnotified_iff rfl fun id held => ?_
    by_cases other : id = own
    · simp [other, reaches, EventListener.isNotified, Inner.await, ListenerEntry.isNotified]
    · refine Eq.trans ?_ (quiet id held)
      simp only [EventListener.isNotified, Inner.await]
      rw [OrderedMap.get?_insert_of_ne _ _ other]
  | @polls j waker handle result inner state make held wraps streams polled =>
    by_cases own : name = j
    · -- it was a stream and still is one
      subst own
      refine iff_of_true (fun id listener => ?_) fun _ _ => rfl
      have stream := streams state
      simp only [OrderedMap.get?_insert_self, Option.some.injEq] at listener
      rw [listener] at stream
      cases stream
    · refine unnotified_iff (OrderedMap.get?_insert_of_ne _ _ own) fun id listener => ?_
      obtain ⟨entry, found⟩ := present id listener
      refine Eq.trans ?_ (quiet id listener)
      simp only [EventListener.isNotified]
      rw [polled.frame wf found (state_ne inv listener held own)]
  | @drops j handle dropped =>
    by_cases own : name = j
    · subst own
      refine iff_of_true (fun id held => by simp at held) fun id held => ?_
      cases dropped.symm.trans held
      simp [reaches, held, Handle.state, StreamState.listener, quiet id held]
    · refine unnotified_iff (OrderedMap.get?_erase_of_ne _ own) fun id listener => ?_
      cases state : handle.state with
      | listening other =>
        have differs : id ≠ other := fun same =>
          state_ne inv listener dropped own (by rw [state, same])
        rw [Bool.eq_iff_iff]
        simp [StreamState.drop, StreamState.listener, reaches, dropped, state,
          EventListener.isNotified_drop wf differs, quiet id listener]
      | next | done =>
        simp [StreamState.drop, StreamState.listener, reaches, dropped, state, quiet id listener]
  | closes alive =>
    refine unnotified_iff rfl fun id held => ?_
    rw [EventListener.isNotified_close, quiet id held]
    rfl

variable [Inhabited W] {ts : List (Machine.Transition (Handles W T) (Op W T) (Res T))}

/-- The contract of `FusedFuture` holds for a listener throughout a run exactly when no
call gives it a notification. -/
theorem terminated_iff (run : machine.Run ts h) (name : Nat) :
    (Honours name h ∧ ∀ t ∈ ts, Honours name t.before) ↔
      ∀ t ∈ ts, ∀ id, t.before.live.get? name = some (.listener id) →
        t.before.reaches id t.act = false := by
  apply run.safe_iff_guard Inv (Honours name)
    (fun h op => ∀ id, h.live.get? name = some (.listener id) → h.reaches id op = false)
  · exact fun _ _ run => Inv.of_run run
  · rintro _ rfl id held
    simp [new] at held
  · intro h op h' r inv honours taken
    have quiet := (honours_iff inv).mp honours
    rw [honours_iff (inv.stepped (step_spec inv.streams taken))]
    exact unnotified_step inv quiet taken

end

/-- A listener that has been notified, and one that was handed the notification of another,
are terminated, and yet their next poll returns `Ready`. -/
theorem terminated_before_ready :
    (∃ ts, ∃ h : Handles Nat Unit, machine.Run ts h ∧
      ts.map Machine.Transition.act = [.listen, .notify (.usize 1)] ∧
      EventListener.isTerminated 0 h.inner = true ∧ ¬Honours 0 h) ∧
    ∃ ts, ∃ h : Handles Nat Unit, machine.Run ts h ∧
      ts.map Machine.Transition.act = [.listen, .listen, .notify (.usize 1), .dropHandle 0] ∧
      EventListener.isTerminated 1 h.inner = true ∧ ¬Honours 1 h := by
  constructor
  · obtain ⟨ts, h, run, acts, terminated, live, notified⟩ := Machine.exists_run
      (m := machine (W := Nat) (T := Unit))
      (P := fun _ h => EventListener.isTerminated 0 h.inner = true ∧
        h.live.get? 0 = some (.listener 0) ∧ EventListener.isNotified 0 h.inner = true)
      [.listen, .notify (.usize 1)] rfl (by decide)
    exact ⟨ts, h, run, acts, terminated, not_honours (Inv.of_run run) live notified⟩
  · obtain ⟨ts, h, run, acts, terminated, live, notified⟩ := Machine.exists_run
      (m := machine (W := Nat) (T := Unit))
      (P := fun _ h => EventListener.isTerminated 1 h.inner = true ∧
        h.live.get? 1 = some (.listener 1) ∧ EventListener.isNotified 1 h.inner = true)
      [.listen, .listen, .notify (.usize 1), .dropHandle 0] rfl (by decide)
    exact ⟨ts, h, run, acts, terminated, not_honours (Inv.of_run run) live notified⟩

/-- The second of two listeners: the only notification goes to the first one, which reads it
before it is dropped. -/
theorem unreached_listener_honours : ∃ ts, ∃ h : Handles Nat Unit, machine.Run ts h ∧
    ts.map Machine.Transition.act = [.notify (.usize 1), .listen, .listen, .notify (.usize 1),
      .poll 1 7, .poll 0 7, .dropHandle 0, .dropEvent] ∧
    Honours 1 h ∧ ∀ t ∈ ts, Honours 1 t.before := by
  obtain ⟨ts, h, run, acts, spared⟩ := Machine.exists_run (m := machine (W := Nat) (T := Unit))
    (P := fun ts _ => ∀ t ∈ ts, (t.before.live.get? 1 = none ∨
      t.before.live.get? 1 = some (.listener 1)) ∧ t.before.reaches 1 t.act = false)
    [.notify (.usize 1), .listen, .listen, .notify (.usize 1), .poll 1 7, .poll 0 7,
      .dropHandle 0, .dropEvent] rfl (by decide)
  refine ⟨ts, h, run, acts, (terminated_iff run 1).mpr fun t member id held => ?_⟩
  obtain ⟨known, unreached⟩ := spared t member
  rcases known with absent | own
  · rw [absent] at held
    cases held
  · cases own.symm.trans held
    exact unreached

end Handles

end Eneste
