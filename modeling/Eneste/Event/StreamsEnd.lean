import Eneste.Event.Bookkeeping

/-!
# How streams end

Once the event or the emitter is dropped nothing registers a listener again, and a
stream can only yield what is stored for it. Whoever waited was woken by the drop.
-/

namespace Eneste

variable {W T : Type}

namespace StreamPolled

variable {alive : Bool} {waker : W} {inner inner' : Inner W T} {state state' : StreamState}
  {result : Poll (Option T)}

/-- A stream of a dropped event yields what is stored for it, and otherwise it ends. -/
theorem after_close (polled : StreamPolled alive waker inner state result inner' state')
    (closed : inner.closed = true) :
    result = .ready (state.stored inner) ∧
      state' = if (state.stored inner).isSome then .next else .done := by
  cases polled with
  | yields found | closes found =>
    simp [StreamState.stored, StreamState.listener, found]
  | waits found opened | rearms _ opened =>
    rw [closed] at opened
    cases opened
  | abandons | ends | ended => exact ⟨rfl, rfl⟩

/-- A stream that waits has left its waker with the event. -/
theorem tracks (polled : StreamPolled alive waker inner state .pending inner' state') :
    ∃ id, state' = .listening id ∧ inner'.Tracks ⟨id, waker, inner.woken.length⟩ := by
  have listening : ∃ id, state' = .listening id := by
    cases polled with
    | waits | rearms => exact ⟨_, rfl⟩
  obtain ⟨id, rfl⟩ := listening
  have woken := polled.woken
  exact ⟨id, rfl, by rw [woken], _, polled.listens.2, .inl ⟨rfl, rfl⟩⟩

end StreamPolled

namespace Handles

variable {h h' : Handles W T} {name : Nat}

/-- What the polls of a stream returned, in order. -/
def results (name : Nat) (ts : List (Machine.Transition (Handles W T) (Op W T) (Res T))) :
    List (Poll (Option T)) :=
  ts.filterMap fun t =>
    match t.act, t.out with
    | .pollNext stream _, .next result => if stream = name then some result else none
    | _, _ => none

/-- At most one more value, and the end of the stream from then on. -/
def Ended (results : List (Poll (Option T))) : Prop :=
  ∃ first n, results = first ++ List.replicate n (.ready none) ∧
    (first = [] ∨ ∃ value, first = [.ready (some value)])

theorem Ended.snoc {results : List (Poll (Option T))} (ended : Ended results) :
    Ended (results ++ [.ready none]) := by
  obtain ⟨first, n, rfl, short⟩ := ended
  exact ⟨first, n + 1, by rw [List.append_assoc, ← List.replicate_succ'], short⟩

/-- Where a stream stands after some calls on a dropped event. -/
structure Ending (name : Nat) (ts : List (Machine.Transition (Handles W T) (Op W T) (Res T)))
    (h : Handles W T) : Prop where
  closed : h.inner.closed = true
  listening : ∀ id, h.states name = some (.listening id) → results name ts = []
  next : h.states name = some .next →
    results name ts = [] ∨ ∃ value, results name ts = [.ready (some value)]
  ended : Ended (results name ts)

namespace Ending

variable {ts : List (Machine.Transition (Handles W T) (Op W T) (Res T))}
  {u : Machine.Transition (Handles W T) (Op W T) (Res T)}

private theorem keep (ending : Ending name ts h) (closed : h'.inner.closed = true)
    (same : h'.states name = none ∨ h'.states name = h.states name)
    (silent : results name [u] = []) : Ending name (ts ++ [u]) h' := by
  have results_eq : results name (ts ++ [u]) = results name ts := by
    rw [results, List.filterMap_append]
    exact (congrArg _ silent).trans (List.append_nil _)
  refine ⟨closed, fun id listens => ?_, fun here => ?_, ?_⟩
  · rw [results_eq]
    rcases same with gone | same
    · rw [gone] at listens
      cases listens
    · exact ending.listening id (same ▸ listens)
  · rw [results_eq]
    rcases same with gone | same
    · rw [gone] at here
      cases here
    · exact ending.next (same ▸ here)
  · rw [results_eq]
    exact ending.ended

/-- The stream itself is polled. -/
private theorem poll (ending : Ending name ts h) {state : StreamState}
    (live : h.states name = some state) (closed : h'.inner.closed = true)
    (states : h'.states name =
      some (if (state.stored h.inner).isSome then .next else .done))
    (returned : results name [u] = [.ready (state.stored h.inner)]) :
    Ending name (ts ++ [u]) h' := by
  have results_eq : results name (ts ++ [u]) =
      results name ts ++ [.ready (state.stored h.inner)] := by
    rw [← returned, results, results, results, List.filterMap_append]
  cases holds : state.stored h.inner with
  | none =>
    -- the stream is done, and the end is reported once more
    rw [holds] at states results_eq
    refine ⟨closed, fun id listens => ?_, fun here => ?_, ?_⟩
    · rw [states] at listens
      cases listens
    · rw [states] at here
      cases here
    · rw [results_eq]
      exact ending.ended.snoc
  | some value =>
    -- only a stream that has listened since the drop has a value stored
    have fresh : results name ts = [] := by
      cases state with
      | listening id => exact ending.listening id live
      | next | done => cases holds
    rw [holds] at states results_eq
    rw [fresh, List.nil_append] at results_eq
    refine ⟨closed, fun id listens => ?_, fun _ => .inr ⟨value, results_eq⟩, ?_⟩
    · rw [states] at listens
      cases listens
    · exact ⟨_, 0, by rw [results_eq, List.replicate_zero, List.append_nil], .inr ⟨value, rfl⟩⟩

theorem stepped (ending : Ending name ts u.before)
    (stepped : Stepped u.before u.act u.after u.out) : Ending name (ts ++ [u]) u.after := by
  have closed := ending.closed
  obtain ⟨h, op, r, h'⟩ := u
  simp only at stepped ending closed ⊢
  cases stepped with
  | attaches alive | notifies _ alive | closes alive =>
    rw [closed] at alive
    cases alive
  | reads | awaits => exact ending.keep closed (.inr rfl) rfl
  | @polls stream waker handle result inner state make held wraps _ polled =>
    have still : inner.closed = true := polled.closed.trans closed
    obtain ⟨result_eq, state_eq⟩ := polled.after_close closed
    by_cases this : stream = name
    · subst this
      apply ending.poll (states_of_get? held) still
      · simp [states, wraps, state_eq]
      · simp [results, result_eq]
    · refine ending.keep still (.inr ?_) (by simp [results, this])
      simp [states, OrderedMap.get?_insert_of_ne _ _ (Ne.symm this)]
  | @drops dropped handle held =>
    refine ending.keep ?_ ?_ rfl
    · rw [StreamState.closed_drop]
      exact closed
    · by_cases this : name = dropped
      · exact .inl (by simp [states, this])
      · exact .inr (by simp [states, OrderedMap.get?_erase_of_ne _ this])

end Ending

theorem Stepped.of_dropEvent {r : Res T} (stepped : Stepped h .dropEvent h' r) :
    h'.inner = Event.drop h.inner := by
  cases stepped with
  | attaches _ hands => cases hands
  | closes => rfl

/-! ### Who waits is woken -/

/-- The stream has waited since its last poll, which left the waker of `p`. -/
def Sleeping (name : Nat) (p : Sleeper W) (h : Handles W T) : Prop :=
  ∃ handle, h.live.get? name = some handle ∧ handle.isStream = true ∧
    handle.state = .listening p.listener ∧ h.inner.Tracks p

theorem Sleeping.stepped {p : Sleeper W} {op : Op W T} {r : Res T}
    (sleeping : Sleeping name p h) (inv : h.Inv) (stepped : Stepped h op h' r)
    (others : ∀ waker, op ≠ .pollNext name waker) (stays : op ≠ .dropHandle name) :
    Sleeping name p h' := by
  obtain ⟨handle, live, isStream, listens, tracks⟩ := sleeping
  have listening : h.states name = some (.listening p.listener) := by
    rw [states_of_get? live, listens]
  -- another handle listens elsewhere
  have apart : ∀ other found, other ≠ name → h.live.get? other = some found →
      found.state ≠ .listening p.listener := by
    intro other found differs held same
    exact differs (inv.streams.distinct _ _ _ (by rw [states_of_get? held, same]) listening)
  -- a listener that is awaited on its own is not that of a stream
  have elsewhere : ∀ {other id}, h.live.get? other = some (.listener id) → p.listener ≠ id := by
    intro other id held same
    have differs : other ≠ name := by
      rintro rfl
      cases live.symm.trans held
      cases isStream
    exact apart other _ differs held (by rw [Handle.state, same])
  cases stepped with
  | attaches =>
    have old : name ≠ h.created := (inv.named name handle live).ne
    refine ⟨handle, (OrderedMap.get?_insert_of_ne _ _ old).trans live, isStream, listens, ?_⟩
    exact tracks.frame (List.append_nil _).symm (fun closed => closed)
      (OrderedMap.get?_insert_of_ne _ _ (inv.streams.listener_ne listening))
  | notifies => exact ⟨handle, live, isStream, listens, tracks.grant _ _⟩
  | reads held | awaits held =>
    exact ⟨handle, live, isStream, listens, tracks.frame (List.append_nil _).symm
      (fun closed => closed) (OrderedMap.get?_insert_of_ne _ _ (elsewhere held))⟩
  | @polls stream waker _ _ _ _ _ held _ _ polled =>
    have differs : stream ≠ name := fun same => others waker (same ▸ rfl)
    obtain ⟨entry, found⟩ := inv.streams.present name _ listening
    refine ⟨handle, (OrderedMap.get?_insert_of_ne _ _ differs.symm).trans live, isStream, listens,
      ?_⟩
    exact tracks.frame (polled.woken.trans (List.append_nil _).symm)
      (fun closed => polled.closed.trans closed)
      (polled.frame inv.streams.wf found (apart stream _ differs held))
  | @drops dropped other held =>
    have differs : dropped ≠ name := fun same => stays (same ▸ rfl)
    refine ⟨handle, (OrderedMap.get?_erase_of_ne _ differs.symm).trans live, isStream, listens, ?_⟩
    have own := apart dropped other differs held
    cases state : other.state with
    | listening id =>
      exact tracks.drop inv.streams.wf fun same => own (by rw [state, same])
    | next | done => exact tracks
  | closes => exact ⟨handle, live, isStream, listens, tracks.close.1⟩

/-- The value stored for the listener of a handle. -/
def stored (h : Handles W T) (name : Nat) : Option T :=
  (h.states name).bind (StreamState.stored h.inner)

section

variable [Usize] {before later : List (Machine.Transition (Handles W T) (Op W T) (Res T))}
  {t : Machine.Transition (Handles W T) (Op W T) (Res T)}

theorem ending_of_run (run : machine.Run (before ++ t :: later) h) (closes : t.act = .dropEvent)
    (name : Nat) : Ending name later h := by
  refine run.since (P := Ending name) (fun prior taken => ?_) fun us u prior ending taken =>
    ending.stepped (step_spec (Inv.of_run prior).streams taken)
  have stepped := step_spec (Inv.of_run prior).streams taken
  rw [closes] at stepped
  refine ⟨?_, fun _ _ => rfl, fun _ => .inl rfl, [], 0, rfl, .inl rfl⟩
  rw [stepped.of_dropEvent, Event.drop_eq]

/-- What one poll returns after the drop. -/
theorem polls_after_drop (run : machine.Run (before ++ t :: later) h) (closes : t.act = .dropEvent)
    {u : Machine.Transition (Handles W T) (Op W T) (Res T)} (member : u ∈ later) {waker : W}
    (act : u.act = .pollNext name waker) : u.out = .next (.ready (u.before.stored name)) := by
  obtain ⟨first, rest, rfl⟩ := List.append_of_mem member
  rw [← List.cons_append, ← List.append_assoc] at run
  obtain ⟨prior, taken, _⟩ := run.upTo.of_append
  have closed := (ending_of_run prior closes name).closed
  have stepped := step_spec (Inv.of_run prior).streams taken
  rw [act] at stepped
  generalize u.after = after at stepped
  generalize u.out = out at stepped ⊢
  cases stepped with
  | attaches _ hands => cases hands
  | polls held _ _ polled =>
    rw [stored, states_of_get? held, (polled.after_close closed).1]
    rfl

/-- The drop wakes a stream whose last poll returned `Pending`. -/
theorem woken_by_drop {since : List (Machine.Transition (Handles W T) (Op W T) (Res T))}
    {p : Machine.Transition (Handles W T) (Op W T) (Res T)}
    (run : machine.Run (before ++ p :: (since ++ t :: later)) h) (closes : t.act = .dropEvent)
    {waker : W} (act : p.act = .pollNext name waker) (pending : p.out = .next .pending)
    (last : ∀ u ∈ since, (∀ w, u.act ≠ .pollNext name w) ∧ u.act ≠ .dropHandle name) :
    waker ∈ t.after.inner.woken.drop p.before.inner.woken.length := by
  rw [← List.cons_append, ← List.append_assoc] at run
  obtain ⟨prior, taken, _⟩ := run.upTo.of_append
  have asleep : ∃ id, Sleeping name ⟨id, waker, p.before.inner.woken.length⟩ t.before := by
    refine prior.since (P := fun us h => (∀ u ∈ us, (∀ w, u.act ≠ .pollNext name w) ∧
      u.act ≠ .dropHandle name) →
      ∃ id, Sleeping name ⟨id, waker, p.before.inner.woken.length⟩ h) ?_ ?_ last
    · intro earlier polled _
      have stepped := step_spec (Inv.of_run earlier).streams polled
      rw [act, pending] at stepped
      generalize p.after = after at stepped
      cases stepped with
      | polls held wraps streams polled =>
        obtain ⟨id, rfl, tracks⟩ := polled.tracks
        exact ⟨id, _, OrderedMap.get?_insert_self _ _ _, streams _, wraps _, tracks⟩
    · intro us u earlier ih taken quiet
      obtain ⟨id, sleeping⟩ := ih fun v member => quiet v (List.mem_append_left _ member)
      have inv := Inv.of_run earlier
      obtain ⟨others, stays⟩ := quiet u (by simp)
      exact ⟨id, sleeping.stepped inv (step_spec inv.streams taken) others stays⟩
  obtain ⟨id, _, _, _, _, tracks⟩ := asleep
  have stepped := step_spec (Inv.of_run prior).streams taken
  rw [closes] at stepped
  rw [stepped.of_dropEvent]
  exact tracks.close.2

/-- From the drop of the event on, a stream yields at most one value, the one stored for
it, and then ends for good; a stream that waited has been woken by the drop. -/
theorem streams_end_cleanly (run : machine.Run (before ++ t :: later) h)
    (closes : t.act = .dropEvent) (name : Nat) :
    Ended (results name later) ∧
    (∀ u ∈ later, ∀ waker, u.act = .pollNext name waker →
      u.out = .next (.ready (u.before.stored name))) ∧
    (∀ handle waker, h.live.get? name = some handle → handle.isStream = true →
      h.step (.pollNext name waker) ≠ none) ∧
    ∀ first (p : Machine.Transition (Handles W T) (Op W T) (Res T)) since waker,
      before = first ++ p :: since → p.act = .pollNext name waker → p.out = .next .pending →
      (∀ u ∈ since, (∀ w, u.act ≠ .pollNext name w) ∧ u.act ≠ .dropHandle name) →
      waker ∈ t.after.inner.woken.drop p.before.inner.woken.length := by
  refine ⟨(ending_of_run run closes name).ended,
    fun u member waker act => polls_after_drop run closes member act, ?_, ?_⟩
  · intro handle waker live isStream
    have total := (Inv.of_run run).booked.streams name handle waker live
    cases handle with
    | listener => cases isStream
    | eventStream state | emitterStream state =>
      simp only [step, live, pollStream]
      split
      next polled => exact absurd polled total
      next => simp
  · rintro first p since waker rfl act pending last
    rw [List.append_assoc, List.cons_append] at run
    exact woken_by_drop run closes act pending last

end

/-- A notified listener is dropped after the event and hands its value to a stream that
waits, while another stream keeps the shared state alive. -/
theorem stream_ends_after_hand_off :
    ∃ before : List (Machine.Transition (Handles Nat Unit) (Op Nat Unit) (Res Unit)),
    ∃ t later h, machine.Run (before ++ t :: later) h ∧
    before.map Machine.Transition.act = [.listen, .stream, .subscribe, .pollNext 1 7,
      .pollNext 2 8, .notify (.usize 1)] ∧ t.act = .dropEvent ∧
    later.map Machine.Transition.act = [.dropHandle 0, .pollNext 1 7, .pollNext 1 7,
      .pollNext 2 8] ∧
    results 1 later = [.ready (some ()), .ready none] ∧ Ended (results 1 later) := by
  obtain ⟨before, t, later, h, run, first, act, rest, yields⟩ :=
    Machine.exists_run_at (m := machine (W := Nat) (T := Unit))
      (P := fun _ _ later _ => results 1 later = [.ready (some ()), .ready none])
      [.listen, .stream, .subscribe, .pollNext 1 7, .pollNext 2 8, .notify (.usize 1)] .dropEvent
      [.dropHandle 0, .pollNext 1 7, .pollNext 1 7, .pollNext 2 8] rfl (by decide)
  exact ⟨before, t, later, h, run, first, act, rest, yields, (streams_end_cleanly run act 1).1⟩

end Handles

end Eneste
