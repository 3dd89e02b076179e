import Eneste.Emitter.Emitter

/-!
# What a stream yields

A stream should yield emissions made since it subscribed, each at most once and in
order. `EventListener::drop` passes an unread emission to the first listener without
one, which may belong to a stream that is not to have it: it subscribed later, or
has yielded the emission already.
-/

namespace Eneste

variable {W T : Type}

/-- The stream may still yield the emission: it was made since the stream subscribed,
and after everything the stream has yielded. -/
def Subscriber.Awaits (s : Subscriber T) (emission : Emission T) : Prop :=
  s.since ≤ emission.number ∧ ∀ e ∈ s.received, e.number < emission.number

/-- What a stream has yielded so far is as it should be. -/
structure Subscriber.Ok (emitted : List (Emission T)) (s : Subscriber T) : Prop where
  since : s.since ≤ emitted.length
  ordered : s.received.Pairwise fun e f => e.number < f.number
  genuine : ∀ e ∈ s.received, e ∈ emitted ∧ s.since ≤ e.number

namespace Emitter

/-- The emission with number `n` is the `n`th. -/
def Numbered (emitted : List (Emission T)) : Prop := emitted.map Emission.number =
  List.range emitted.length

/-- A stream is dropped with an unread emission, and the first listener that is not
notified belongs to a stream that does not await it. -/
def Replays (m : Emitter W T) (op : Op W T) : Prop :=
  ∃ k s id waker emission heir t next, op = .dropStream k ∧ m.streams.get? k = some s ∧
    s.state = .listening id ∧ m.event.listeners.get? id = some ⟨waker, some emission⟩ ∧
    m.streams.get? heir = some t ∧ t.state = .listening next ∧
    m.event.waiting.head? = some next ∧ ¬t.Awaits emission

/-- What one stream has yielded and what its listener holds are as they should be. -/
structure Sound (event : Inner W (Emission T)) (emitted : List (Emission T))
    (s : Subscriber T) : Prop where
  ok : s.Ok emitted
  holds : ∀ id, s.state = .listening id → ∃ entry, event.listeners.get? id = some entry ∧
    ∀ emission, entry.value = some emission → emission ∈ emitted ∧ s.Awaits emission

structure Inv (m : Emitter W T) : Prop where
  wf : m.event.WF
  numbered : Numbered m.emitted
  named : ∀ k s, m.streams.get? k = some s → k < m.created
  sound : ∀ k s, m.streams.get? k = some s → Sound m.event m.emitted s
  distinct : ∀ k j s t id, m.streams.get? k = some s → m.streams.get? j = some t →
    s.state = .listening id → t.state = .listening id → k = j

theorem Numbered.lt {emitted : List (Emission T)} (numbered : Numbered emitted)
    {e : Emission T} (member : e ∈ emitted) : e.number < emitted.length := by
  have mapped := List.mem_map_of_mem (f := Emission.number) member
  rw [numbered] at mapped
  exact List.mem_range.mp mapped

theorem Numbered.snoc {emitted : List (Emission T)} (numbered : Numbered emitted) (value : T) :
    Numbered (emitted ++ [⟨emitted.length, value⟩]) := by
  unfold Numbered at *
  simp [numbered, List.range_succ]

/-- Ordered yields of emissions since `since` leave out some of them. -/
theorem Numbered.sublist {emitted : List (Emission T)} (numbered : Numbered emitted)
    {s : Subscriber T} (ok : s.Ok emitted) : s.received.Sublist (emitted.drop s.since) := by
  -- both lists are ordered by number, so being a subset is being a sublist
  have increasing : (emitted.map Emission.number).Pairwise (· < ·) := by
    rw [numbered]
    exact List.pairwise_lt_range
  rw [List.pairwise_map] at increasing
  have late : s.received ⊆ emitted.drop s.since := by
    intro e member
    -- an emission numbered `since` or later is not among the first `since`
    obtain ⟨present, since⟩ := ok.genuine e member
    rw [← List.take_append_drop s.since emitted] at present
    rcases List.mem_append.mp present with early | late
    · have mapped := List.mem_map_of_mem (f := Emission.number) early
      rw [List.map_take, numbered, List.take_range, List.mem_range] at mapped
      omega
    · exact late
  have distinct : s.received.Nodup :=
    ok.ordered.imp fun before same => absurd (congrArg Emission.number same) before.ne
  have : Std.Antisymm fun e f : Emission T => e.number < f.number :=
    ⟨fun _ _ before after => absurd before (Nat.lt_asymm after)⟩
  exact List.sublist_of_subperm_of_pairwise (List.subperm_of_subset distinct late) ok.ordered
    (increasing.sublist (List.drop_sublist _ _))

/-! ### One stream -/

namespace Sound

variable {event event' : Inner W (Emission T)} {emitted : List (Emission T)} {s : Subscriber T}

/-- Only the value in the stream's own entry matters. -/
theorem frame (sound : Sound event emitted s)
    (same : ∀ id, s.state = .listening id → (event'.listeners.get? id).map ListenerEntry.value =
      (event.listeners.get? id).map ListenerEntry.value) : Sound event' emitted s where
  ok := sound.ok
  holds id listening := by
    obtain ⟨entry, found, expected⟩ := sound.holds id listening
    -- the waker may differ, the value does not
    have kept := same id listening
    rw [found] at kept
    obtain ⟨entry', found', value⟩ := Option.map_eq_some_iff.mp kept
    exact ⟨entry', found', by rwa [value]⟩

/-- A stream that awaits the emission may be granted it. -/
theorem grant (sound : Sound event emitted s) {emission : Emission T} {ids : List Nat}
    (genuine : emission ∈ emitted)
    (awaits : ∀ id ∈ ids, s.state = .listening id → s.Awaits emission) :
    Sound (event.grant emission ids) emitted s where
  ok := sound.ok
  holds id listening := by
    obtain ⟨entry, found, expected⟩ := sound.holds id listening
    rw [Inner.get?_grant]
    split
    next member =>
      refine ⟨⟨none, some emission⟩, by simp [found], ?_⟩
      rintro _ ⟨⟩
      exact ⟨genuine, awaits id member listening⟩
    next => exact ⟨entry, found, expected⟩

/-- A new emission is awaited by every stream. -/
theorem emit (sound : Sound event emitted s) (numbered : Numbered emitted) (value : T) :
    Sound event (emitted ++ [⟨emitted.length, value⟩]) s ∧ s.Awaits ⟨emitted.length, value⟩ := by
  refine ⟨⟨⟨?_, sound.ok.ordered, ?_⟩, ?_⟩, sound.ok.since, ?_⟩
  · have since := sound.ok.since
    simp only [List.length_append]
    omega
  · intro e member
    obtain ⟨present, since⟩ := sound.ok.genuine e member
    exact ⟨List.mem_append_left _ present, since⟩
  · intro id listening
    obtain ⟨entry, found, expected⟩ := sound.holds id listening
    refine ⟨entry, found, fun e holds => ?_⟩
    obtain ⟨present, awaits⟩ := expected e holds
    exact ⟨List.mem_append_left _ present, awaits⟩
  · intro e member
    exact numbered.lt (sound.ok.genuine e member).1

/-- A stream yields the emission it holds. -/
theorem received (sound : Sound event emitted s) {id : Nat} {waker : Option W}
    {emission : Emission T} (listening : s.state = .listening id)
    (found : event.listeners.get? id = some ⟨waker, some emission⟩) :
    Sound event' emitted
      { s with state := .next, received := s.received ++ [emission] } := by
  obtain ⟨entry, stored, expected⟩ := sound.holds id listening
  cases found.symm.trans stored
  -- what the listener holds is awaited: it comes after everything yielded
  obtain ⟨present, since, later⟩ := expected emission rfl
  refine ⟨⟨sound.ok.since, ?_, ?_⟩, by rintro _ ⟨⟩⟩
  · simp only [List.pairwise_append, List.pairwise_singleton, List.mem_singleton, forall_eq,
      true_and]
    exact ⟨sound.ok.ordered, later⟩
  · intro e member
    rcases List.mem_append.mp member with old | new
    · exact sound.ok.genuine e old
    · cases List.mem_singleton.mp new
      exact ⟨present, since⟩

/-- A stream that yields nothing may change its state, if it then holds nothing. -/
theorem silent (sound : Sound event emitted s) {state : StreamState}
    (empty : ∀ id, state = .listening id →
      ∃ waker, event'.listeners.get? id = some ⟨waker, none⟩) :
    Sound event' emitted { s with state := state, received := s.received ++ [] } where
  ok := by
    obtain ⟨since, ordered, genuine⟩ := sound.ok
    exact ⟨since, by simpa using ordered, by simpa using genuine⟩
  holds id listening := by
    obtain ⟨waker, found⟩ := empty id listening
    exact ⟨_, found, by simp⟩

end Sound

/-! ### The invariant -/

namespace Inv

variable {m m' : Emitter W T}

theorem new : (Emitter.new : Emitter W T).Inv where
  wf := Inner.WF.new
  numbered := rfl
  named := by simp [Emitter.new]
  sound := by simp [Emitter.new]
  distinct := by simp [Emitter.new]

/-- No stream listens on the next listener's id. -/
theorem listener_ne (inv : m.Inv) {k id : Nat} {s : Subscriber T}
    (live : m.streams.get? k = some s) (listening : s.state = .listening id) :
    id ≠ m.event.nextId := by
  rintro rfl
  obtain ⟨entry, found, _⟩ := (inv.sound k s live).holds _ listening
  rw [inv.wf.fresh] at found
  cases found

theorem subscribe (inv : m.Inv) : m.subscribe.Inv := by
  refine ⟨inv.wf.listen, inv.numbered, ?_, ?_, ?_⟩
  · intro k s live
    simp only [Emitter.subscribe, OrderedMap.get?_insert] at live ⊢
    split at live
    · omega
    · have := inv.named k s live
      omega
  · intro k s live
    simp only [Emitter.subscribe, OrderedMap.get?_insert] at live
    split at live
    · cases live
      refine ⟨⟨le_refl _, List.Pairwise.nil, by simp⟩, ?_⟩
      rintro _ ⟨⟩
      exact ⟨⟨none, none⟩, by simp [Emitter.subscribe, Inner.listen], by simp⟩
    · apply (inv.sound k s live).frame
      intro id listening
      simp [Emitter.subscribe, Inner.listen,
        OrderedMap.get?_insert_of_ne _ _ (inv.listener_ne live listening)]
  · intro k j s t id live found listening listens
    simp only [Emitter.subscribe, OrderedMap.get?_insert] at live found
    split at live <;> split at found
    · simp_all
    · cases live
      -- the new stream and an old one cannot share the fresh listener
      cases listening
      exact absurd rfl (inv.listener_ne found listens)
    · cases found
      cases listens
      exact absurd rfl (inv.listener_ne live listening)
    · exact inv.distinct k j s t id live found listening listens

theorem emit [Usize] (inv : m.Inv) (value : T) : (m.emit value).Inv := by
  refine ⟨inv.wf.notify ((Notification.usize Usize.max).with ⟨m.emitted.length, value⟩),
    inv.numbered.snoc value, inv.named, ?_, inv.distinct⟩
  intro k s live
  -- broadcast: every waiting listener is granted, and every stream awaits the new emission
  obtain ⟨sound, awaits⟩ := (inv.sound k s live).emit inv.numbered value
  simp only [Emitter.emit, Event.notify, Notification.with, Notification.usize,
    Bool.false_eq_true, ite_false, Event.notifyInner, Event.notifyLoop_eq_grant]
  exact sound.grant (List.mem_append_right _ List.mem_cons_self) fun _ _ _ => awaits

/-- A poll of stream `k`, which leaves the listeners of the others alone. -/
private theorem replace (inv : m.Inv) {k : Nat} {s s' : Subscriber T}
    {event : Inner W (Emission T)} (live : m.streams.get? k = some s) (wf : event.WF)
    (sound : Sound event m.emitted s')
    (listener : ∀ id, s'.state = .listening id →
      s.state = .listening id ∨ id = m.event.nextId)
    (others : ∀ j t id, j ≠ k → m.streams.get? j = some t → t.state = .listening id →
      event.listeners.get? id = m.event.listeners.get? id) :
    ({ m with event := event, streams := m.streams.insert k s' } : Emitter W T).Inv := by
  refine ⟨wf, inv.numbered, ?_, ?_, ?_⟩
  · intro j t found
    rw [OrderedMap.get?_insert] at found
    split at found
    next same => exact same ▸ inv.named k s live
    next => exact inv.named j t found
  · intro j t found
    rw [OrderedMap.get?_insert] at found
    split at found
    · cases found
      exact sound
    next differs =>
      exact (inv.sound j t found).frame fun id listening => by
        rw [others j t id differs found listening]
  · intro i j t u id first second listens hears
    simp only [OrderedMap.get?_insert] at first second
    split at first <;> split at second
    · simp_all
    next here other =>
      cases first
      subst here
      rcases listener id listens with same | new
      · exact inv.distinct i j s u id live second same hears
      · exact absurd new (inv.listener_ne second hears)
    next other here =>
      cases second
      subst here
      rcases listener id hears with same | new
      · exact inv.distinct i j t s id first live listens same
      · exact absurd new (inv.listener_ne first listens)
    · exact inv.distinct i j t u id first second listens hears

theorem pollNext {k : Nat} {waker : W} {r : Res T} (inv : m.Inv)
    (taken : m.pollNext k waker = some (m', r)) : m'.Inv := by
  unfold Emitter.pollNext at taken
  split at taken
  · cases taken
  next s live =>
    have sound := inv.sound k s live
    split at taken
    · cases taken
    next result event state polled =>
      cases taken
      have present : ∀ id, s.state = .listening id →
          ∃ entry, m.event.listeners.get? id = some entry := by
        intro id listening
        obtain ⟨entry, found, _⟩ := sound.holds id listening
        exact ⟨entry, found⟩
      have outcome := streamPoll_spec m.alive waker present polled
      -- the other streams listen on other listeners
      have others : ∀ j t id, j ≠ k → m.streams.get? j = some t → t.state = .listening id →
          event.listeners.get? id = m.event.listeners.get? id := by
        intro j t id differs found listens
        obtain ⟨entry, stored, _⟩ := (inv.sound j t found).holds id listens
        exact outcome.frame inv.wf stored fun same =>
          differs (inv.distinct j k t s id found live listens same)
      have empty : ∀ id, state = .listening id →
          ∃ waker, event.listeners.get? id = some ⟨waker, none⟩ := by
        rintro id rfl
        exact ⟨_, outcome.listens.2⟩
      refine inv.replace live (outcome.wf inv.wf) ?_ ?_ others
      · generalize started : s.state = before at outcome
        cases outcome with
        | yields found => exact sound.received started found
        | waits | closes | rearms | abandons | ends | ended => exact sound.silent empty
      · rintro id rfl
        exact outcome.listens.1

theorem dropStream {k : Nat} {r : Res T} (inv : m.Inv) (safe : ¬m.Replays (.dropStream k))
    (taken : m.dropStream k = some (m', r)) : m'.Inv := by
  unfold Emitter.dropStream at taken
  split at taken
  · cases taken
  next s live =>
    cases taken
    have event : ∀ event : Inner W (Emission T), event.WF →
        (∀ j t, j ≠ k → m.streams.get? j = some t → Sound event m.emitted t) →
        ({ m with event := event, streams := m.streams.erase k } : Emitter W T).Inv := by
      intro event wf sound
      have still : ∀ j t, (m.streams.erase k).get? j = some t →
          j ≠ k ∧ m.streams.get? j = some t := by
        intro j t found
        rw [OrderedMap.get?_erase] at found
        split at found
        · cases found
        next differs => exact ⟨differs, found⟩
      refine ⟨wf, inv.numbered, fun j t found => inv.named j t (still j t found).2,
        fun j t found => sound j t (still j t found).1 (still j t found).2, ?_⟩
      intro i j t u id first second
      exact inv.distinct i j t u id (still i t first).2 (still j u second).2
    cases listening : s.state with
    | next => exact event m.event inv.wf fun j t _ => inv.sound j t
    | done => exact event m.event inv.wf fun j t _ => inv.sound j t
    | listening id =>
      refine event _ (inv.wf.drop id) fun j t differs found => ?_
      simp only [StreamState.listener]
      obtain ⟨⟨waker, value⟩, stored, expected⟩ := (inv.sound k s live).holds id listening
      -- the other streams listen elsewhere, so the erased listener is not theirs
      have apart : ∀ other, t.state = .listening other → other ≠ id := by
        rintro other listens rfl
        exact differs (inv.distinct j k t s other found live listens listening)
      cases value with
      | none =>
        rw [EventListener.drop_waiting stored]
        exact (inv.sound j t found).frame fun other listens => by
          rw [Inner.forget, OrderedMap.get?_erase_of_ne _ (apart other listens)]
      | some emission =>
        -- the unread emission goes to the first listener that waits
        rw [EventListener.drop_notified inv.wf stored, Inner.waiting_consume stored rfl]
        have sound : Sound (m.event.consume id) m.emitted t :=
          (inv.sound j t found).frame fun other listens => by
            rw [Inner.consume, OrderedMap.get?_erase_of_ne _ (apart other listens)]
        apply sound.grant (expected emission rfl).1
        intro other member listens
        -- an heir that does not await the emission makes this drop a replay
        by_contra unawaited
        refine safe ⟨k, s, id, waker, emission, j, t, other, rfl, live, listening, stored, found,
          listens, ?_, unawaited⟩
        cases waiting : m.event.waiting with
        | nil => simp [waiting] at member
        | cons first rest => simpa [waiting] using (List.mem_singleton.mp (by
            simpa [waiting] using member)).symm

theorem dropEmitter (inv : m.Inv) :
    ({ m with event := Event.drop m.event, alive := false } : Emitter W T).Inv := by
  refine ⟨inv.wf.close, inv.numbered, inv.named, fun k s live => ?_, inv.distinct⟩
  apply (inv.sound k s live).frame
  intro id listening
  simp [Event.drop_eq, Function.comp_def]

theorem step [Usize] {op : Op W T} {r : Res T} (inv : m.Inv) (safe : ¬m.Replays op)
    (taken : m.step op = some (m', r)) : m'.Inv := by
  cases op with
  | subscribe =>
    simp only [Emitter.step] at taken
    split at taken
    · cases taken
      exact inv.subscribe
    · cases taken
  | emit value =>
    simp only [Emitter.step] at taken
    split at taken
    · cases taken
      exact inv.emit value
    · cases taken
  | pollNext k waker => exact inv.pollNext taken
  | dropStream k => exact inv.dropStream safe taken
  | dropEmitter =>
    simp only [Emitter.step] at taken
    split at taken
    · cases taken
      exact inv.dropEmitter
    · cases taken

end Inv

/-- Unless a dropped stream passes an emission on to a stream that does not await it,
each stream yields emissions made since it subscribed, each at most once and in order. -/
theorem delivers_without_replay [Usize] {m : Emitter W T} {ts} (run : machine.Run ts m)
    (safe : ∀ t ∈ ts, ¬t.before.Replays t.act) :
    Numbered m.emitted ∧
      ∀ k s, m.streams.get? k = some s → s.received.Sublist (m.emitted.drop s.since) := by
  have inv : m.Inv := by
    refine run.invariant_where (fun m op => ¬m.Replays op) ?_ ?_ safe
    · rintro _ rfl
      exact Inv.new
    · exact fun _ _ _ _ inv safe taken => inv.step safe taken
  exact ⟨inv.numbered, fun k s live => inv.numbered.sublist (inv.sound k s live).ok⟩

/-- The second stream yields an emission and waits again; the first one is dropped before
it has read the same emission, and the second yields it once more. -/
theorem emission_replayed : ∃ ts, ∃ m : Emitter Nat Nat, machine.Run ts m ∧
    ts.map Machine.Transition.act = [.subscribe, .subscribe, .emit 7, .pollNext 1 0,
      .pollNext 1 0, .dropStream 0, .pollNext 1 0] ∧
    ∃ s ∈ m.streams.get? 1, s.received.map Emission.value = [7, 7] ∧
      m.emitted.map Emission.value = [7] ∧ ¬s.received.Sublist (m.emitted.drop s.since) := by
  exact Machine.exists_run (m := machine)
    (P := fun _ (m : Emitter Nat Nat) => ∃ s ∈ m.streams.get? 1,
      s.received.map Emission.value = [7, 7] ∧ m.emitted.map Emission.value = [7] ∧
      ¬s.received.Sublist (m.emitted.drop s.since))
    [.subscribe, .subscribe, .emit 7, .pollNext 1 0, .pollNext 1 0, .dropStream 0,
      .pollNext 1 0] rfl (by decide)

/-- Here the second stream does await what the first leaves behind: it was still holding
an older emission when that one was made. -/
theorem emission_handed_on : ∃ ts, ∃ m : Emitter Nat Nat, machine.Run ts m ∧
    ts.map Machine.Transition.act = [.subscribe, .subscribe, .emit 7, .pollNext 0 0,
      .pollNext 0 0, .emit 8, .pollNext 1 0, .pollNext 1 0, .dropStream 0, .pollNext 1 0] ∧
    ∃ s ∈ m.streams.get? 1, s.received.map Emission.value = [7, 8] ∧
      s.received.Sublist (m.emitted.drop s.since) := by
  obtain ⟨ts, m, run, acts, ⟨s, live, received⟩, safe⟩ := Machine.exists_run
    (m := machine (W := Nat) (T := Nat))
    (P := fun ts m => (∃ s ∈ m.streams.get? 1, s.received.map Emission.value = [7, 8]) ∧
      ∀ t ∈ ts, t.act = .dropStream 0 →
        (∀ l ∈ t.before.event.listeners.entries, ∀ e ∈ l.2.value, e.number = 1) ∧
        ∀ s ∈ t.before.streams.entries, s.2.since ≤ 1 ∧ ∀ e ∈ s.2.received, e.number < 1)
    [.subscribe, .subscribe, .emit 7, .pollNext 0 0, .pollNext 0 0, .emit 8, .pollNext 1 0,
      .pollNext 1 0, .dropStream 0, .pollNext 1 0] rfl (by decide)
  refine ⟨ts, m, run, acts, s, live, received, (delivers_without_replay run ?_).2 1 s live⟩
  rintro t member ⟨k, _, id, _, emission, heir, awaiting, _, act, _, _, unread, there, _, _, late⟩
  -- only the first stream is dropped in this run
  have dropped : k = 0 := by
    have known := List.mem_map_of_mem (f := Machine.Transition.act) member
    rw [acts, act] at known
    simpa using known
  subst dropped
  obtain ⟨numbers, streams⟩ := safe t member act
  have number := numbers _ ((OrderedMap.get?_eq_some_iff _ _ _).mp unread) emission rfl
  apply late
  rw [Subscriber.Awaits, number]
  exact streams _ ((OrderedMap.get?_eq_some_iff _ _ _).mp there)

end Emitter

end Eneste
