import Eneste.PollLock.LockedSink

/-!
# What the locked sink forwards

`Flow` is a buffer of one item, as the order of events it allows: an item is accepted
when the slot is empty, and leaves it when the inner sink, ready under the lock, is sent
it. The log of a locked sink is such an order.
-/

namespace Eneste

variable {S W M E : Type}

/-- The items that `LockedSink::start_send` was given. -/
def accepted (log : List (SinkEvent M E)) : List M :=
  log.filterMap fun
    | .accepted item => some item
    | _ => none

/-- The items that were passed to the inner `start_send`. -/
def forwarded (log : List (SinkEvent M E)) : List M :=
  log.filterMap fun
    | .called _ (.startSend item _) => some item
    | _ => none

/-- Events that concern no item. -/
def SinkEvent.Plain : SinkEvent M E → Prop
  | .accepted _ => False
  | .called _ (.startSend _ _) => False
  | _ => True

theorem accepted_append (xs ys : List (SinkEvent M E)) :
    accepted (xs ++ ys) = accepted xs ++ accepted ys := List.filterMap_append

theorem accepted_plain {event : SinkEvent M E} (plain : event.Plain) (log : List (SinkEvent M E)) :
    accepted (event :: log) = accepted log := by
  cases event with
  | accepted item => exact absurd plain id
  | _ => rfl

theorem forwarded_plain {event : SinkEvent M E} (plain : event.Plain) (log : List (SinkEvent M E)) :
    forwarded (event :: log) = forwarded log := by
  cases event with
  | called locked call =>
    cases call with
    | startSend => exact absurd plain id
    | _ => rfl
  | _ => rfl

/-- The orders of events that take a buffer of one item from one content to another. -/
inductive Flow : Option M → List (SinkEvent M E) → Option M → Prop
  | done (slot) : Flow slot [] slot
  | pass {slot event log slot'} (plain : event.Plain) (rest : Flow slot log slot') :
      Flow slot (event :: log) slot'
  | accept {item log slot'} (rest : Flow (some item) log slot') :
      Flow none (.accepted item :: log) slot'
  | send {item answer log slot'} (rest : Flow none log slot') :
      Flow (some item) (.called true (.pollReady (.ready (.ok ()))) ::
        .called true (.startSend item answer) :: log) slot'

namespace Flow

variable {a b c : Option M} {xs ys : List (SinkEvent M E)}

theorem append (first : Flow a xs b) (second : Flow b ys c) : Flow a (xs ++ ys) c := by
  induction first with
  | done => exact second
  | pass plain _ ih => exact .pass plain (ih second)
  | accept _ ih => exact .accept (ih second)
  | send _ ih => exact .send (ih second)

/-- Every item in the buffer was accepted, and leaves it once and in order. -/
theorem balance (flow : Flow a xs b) : a.toList ++ accepted xs = forwarded xs ++ b.toList := by
  induction flow with
  | done => simp [accepted, forwarded]
  | pass plain _ ih => rw [accepted_plain plain, forwarded_plain plain, ih]
  | accept _ ih => simpa [accepted, forwarded] using ih
  | send _ ih => simpa [accepted, forwarded] using ih

/-- An item is sent under the lock and directly after the inner sink was ready for it. -/
theorem sent_when_ready (flow : Flow a xs b) {earlier later : List (SinkEvent M E)}
    {locked : Bool} {item : M} {answer : Except E Unit}
    (split : xs = earlier ++ .called locked (.startSend item answer) :: later) :
    locked = true ∧
      ∃ before, earlier = before ++ [SinkEvent.called true (.pollReady (.ready (.ok ())))] := by
  induction flow generalizing earlier with
  | done => simp at split
  | @pass slot event log slot' plain _ ih =>
    cases earlier with
    | nil =>
      obtain ⟨rfl, _⟩ := List.cons.inj split
      exact absurd plain id
    | cons first earlier =>
      rw [List.cons_append] at split
      obtain ⟨rfl, rest⟩ := List.cons.inj split
      obtain ⟨held, before, rfl⟩ := ih rest
      exact ⟨held, event :: before, rfl⟩
  | @accept taken log slot' _ ih =>
    cases earlier with
    | nil => cases (List.cons.inj split).1
    | cons first earlier =>
      rw [List.cons_append] at split
      obtain ⟨rfl, rest⟩ := List.cons.inj split
      obtain ⟨held, before, rfl⟩ := ih rest
      exact ⟨held, _ :: before, rfl⟩
  | @send sent reply log slot' _ ih =>
    cases earlier with
    | nil => cases (List.cons.inj split).1
    | cons first earlier =>
      rw [List.cons_append] at split
      obtain ⟨rfl, rest⟩ := List.cons.inj split
      cases earlier with
      | nil =>
        -- this is the item that was just found ready
        cases (List.cons.inj rest).1
        exact ⟨rfl, [], rfl⟩
      | cons second earlier =>
        rw [List.cons_append] at rest
        obtain ⟨rfl, tail⟩ := List.cons.inj rest
        obtain ⟨held, before, rfl⟩ := ih tail
        exact ⟨held, _ :: _ :: before, rfl⟩

end Flow

namespace LockedSink

variable {s s' s'' : LockedSink S W M E} {new : List (SinkEvent M E)}

/-- An event that neither concerns an item nor asks whether one may be sent. -/
def Quiet (event : SinkEvent M E) : Prop :=
  event.Plain ∧ ∀ locked answer, event ≠ .called locked (.pollReady answer)

/-- What a call other than `start_send` adds to the log is a flow of the slot, and a
refusal by the inner sink leaves the slot as it was. -/
structure Adds (s s' : LockedSink S W M E) (new : List (SinkEvent M E)) : Prop where
  log : s'.log = s.log ++ new
  flow : Flow s.slot new s'.slot
  silent : accepted new = []
  kept : ∀ locked answer, .called locked (.pollReady answer) ∈ new →
    answer ≠ .ready (.ok ()) → s'.slot = s.slot

namespace Adds

theorem nothing (log : s'.log = s.log) (slot : s'.slot = s.slot) : Adds s s' [] where
  log := by simp [log]
  flow := slot ▸ .done _
  silent := rfl
  kept := by simp

theorem snoc (adds : Adds s s' new) {event : SinkEvent M E} (quiet : Quiet event)
    (log : s''.log = s'.log ++ [event]) (slot : s''.slot = s'.slot) :
    Adds s s'' (new ++ [event]) where
  log := by simp [log, adds.log]
  flow := slot ▸ adds.flow.append (.pass quiet.1 (.done _))
  silent := by rw [accepted_append, adds.silent, List.nil_append, accepted_plain quiet.1]; rfl
  kept locked answer member unready := by
    rcases List.mem_append.mp member with old | last
    · exact slot.trans (adds.kept locked answer old unready)
    · exact absurd (List.mem_singleton.mp last).symm (quiet.2 locked answer)

theorem cons (adds : Adds s' s'' new) {event : SinkEvent M E} (quiet : Quiet event)
    (log : s'.log = s.log ++ [event]) (slot : s'.slot = s.slot) : Adds s s'' (event :: new) where
  log := by rw [adds.log, log, List.append_assoc, List.singleton_append]
  flow := .pass quiet.1 (slot ▸ adds.flow)
  silent := by rw [accepted_plain quiet.1, adds.silent]
  kept locked answer member unready := by
    rcases List.mem_cons.mp member with first | later
    · exact absurd first.symm (quiet.2 locked answer)
    · exact (adds.kept locked answer later unready).trans slot

/-- One event that concerns no item. -/
theorem one {event : SinkEvent M E} (quiet : Quiet event) (log : s'.log = s.log ++ [event])
    (slot : s'.slot = s.slot) : Adds s s' [event] := by
  simpa using (nothing (s := s) rfl rfl).snoc quiet log slot

end Adds

theorem quiet_acquired : Quiet (.acquired : SinkEvent M E) := ⟨trivial, by simp⟩

theorem quiet_released : Quiet (.released : SinkEvent M E) := ⟨trivial, by simp⟩

variable {waker : W} {result : Poll (Except E Unit)}

/-- Flushing the slot under the lock. -/
theorem Flushed.adds (flushed : Flushed s result s') (held : s.lock.value.lock.locked = true) :
    ∃ new, Adds s s' new := by
  cases flushed with
  | empty free => exact ⟨[], .nothing rfl rfl⟩
  | @refused _ inner unready =>
    refine ⟨[.called true (.pollReady result)], by simp [called, held], ?_, rfl,
      fun _ _ _ _ => rfl⟩
    exact .pass trivial (.done _)
  | @sent item answer ready inner buffered =>
    refine ⟨[.called true (.pollReady (.ready (.ok ()))), .called true (.startSend item answer)],
      by simp [called, held], ?_, rfl, ?_⟩
    · rw [buffered]
      exact .send (.done _)
    · intro locked other member unready
      simp only [List.mem_cons, SinkEvent.called.injEq, SinkCall.pollReady.injEq, reduceCtorEq,
        and_false, List.not_mem_nil, or_false] at member
      exact absurd member.2 unready

theorem quiet_pollFlush (locked : Bool) (answer : Poll (Except E Unit)) :
    Quiet (.called locked (.pollFlush answer) : SinkEvent M E) := ⟨trivial, by simp⟩

theorem quiet_pollClose (locked : Bool) (answer : Poll (Except E Unit)) :
    Quiet (.called locked (.pollClose answer) : SinkEvent M E) := ⟨trivial, by simp⟩

section

variable [Usize] {sink : Sink S W M E}

/-- A body that runs under the lock adds what it does between taking it and giving it back. -/
theorem withLock_adds {body : LockedSink S W M E → Poll (Except E Unit) × LockedSink S W M E}
    (tied : Users.Tied AsyncMutex.asyncMutex s.lock.value)
    (adds : ∀ s s' result, s.lock.value.lock.locked = true → body s = (result, s') →
      ∃ new, Adds s s' new)
    (taken : s.withLock body waker = some (result, s')) : ∃ new, Adds s s' new := by
  rcases withLock_spec taken with ⟨_, lock, _, rfl⟩ | ⟨guard, lock, last, lock', r, polled, ran, _,
    rfl⟩
  · exact ⟨[], .nothing rfl rfl⟩
  · obtain ⟨new, middle⟩ := adds _ _ _ (PollMutex.locked_of_ready tied polled) ran
    have held : Adds s last (.acquired :: new) := middle.cons quiet_acquired rfl rfl
    exact ⟨_, held.snoc quiet_released rfl rfl⟩

omit [Usize] in
theorem flushThen_adds {finish : W → S → Poll (Except E Unit) × S}
    {call : Poll (Except E Unit) → SinkCall M E}
    (quiet : ∀ locked answer, Quiet (.called locked (call answer)))
    (held : s.lock.value.lock.locked = true)
    (flushed : s.flushThen sink finish call waker = (result, s')) : ∃ new, Adds s s' new := by
  rcases flushThen_spec flushed with ⟨_, stopped⟩ | ⟨middle, inner, emptied, rfl⟩
  · exact stopped.adds held
  · obtain ⟨new, before⟩ := emptied.adds held
    exact ⟨_, before.snoc (quiet _ _) rfl rfl⟩

/-- Calls other than `start_send`. -/
theorem step_adds {op : Op S W M} {r : Res E} (tied : Users.Tied AsyncMutex.asyncMutex s.lock.value)
    (others : ∀ item, op ≠ .startSend item) (taken : s.step sink op = some (s', r)) :
    ∃ new, Adds s s' new := by
  cases op with
  | user op =>
    simp only [step, user] at taken
    cases stepped : s.lock.user op with
    | none => simp [stepped] at taken
    | some out =>
      simp only [stepped, Option.map_some, Option.some.injEq, Prod.mk.injEq] at taken
      obtain ⟨rfl, _⟩ := taken
      refine ⟨noted op out.2, rfl, ?_, ?_, fun _ _ _ _ => rfl⟩
      all_goals unfold noted
      all_goals split
      · exact .pass trivial (.done _)
      · exact .pass trivial (.done _)
      · exact .done _
      all_goals rfl
  | access value =>
    simp only [step] at taken
    split at taken
    · cases taken
    · cases taken
      exact ⟨[], .nothing rfl rfl⟩
  | pollLock waker =>
    simp only [step, pollLock] at taken
    cases polled : s.lock.pollLock waker with
    | none => simp [polled] at taken
    | some out =>
      obtain ⟨guard | _, lock⟩ := out
      · simp only [polled, Option.map_some, Option.some.injEq, Prod.mk.injEq] at taken
        obtain ⟨rfl, _⟩ := taken
        exact ⟨[.acquired], .one quiet_acquired rfl rfl⟩
      · simp only [polled, Option.map_some, Option.some.injEq, Prod.mk.injEq] at taken
        obtain ⟨rfl, _⟩ := taken
        exact ⟨[], .nothing rfl rfl⟩
  | pollReady waker =>
    obtain ⟨⟨result, _⟩, polled, same⟩ := Option.map_eq_some_iff.mp taken
    cases same
    rcases pollReady_spec polled with ⟨_, _, rfl⟩ | flushed
    · exact ⟨[], .nothing rfl rfl⟩
    · exact withLock_adds tied (fun _ _ _ held ran => (pollFlushSlot_spec ran).adds held) flushed
  | startSend item => exact absurd rfl (others item)
  | pollFlush waker =>
    obtain ⟨⟨result, _⟩, polled, same⟩ := Option.map_eq_some_iff.mp taken
    cases same
    exact withLock_adds tied
      (fun _ _ _ held ran => flushThen_adds quiet_pollFlush held ran) polled
  | pollClose waker =>
    obtain ⟨⟨result, _⟩, polled, same⟩ := Option.map_eq_some_iff.mp taken
    cases same
    exact withLock_adds tied
      (fun _ _ _ held ran => flushThen_adds quiet_pollClose held ran) polled

/-- A flush or a close that succeeds ends with the inner sink's success. -/
theorem finished {finish : W → S → Poll (Except E Unit) × S}
    {call : Poll (Except E Unit) → SinkCall M E}
    (tied : Users.Tied AsyncMutex.asyncMutex s.lock.value)
    (taken : s.withLock (flushThen sink finish call waker) waker = some (.ready (.ok ()), s')) :
    s'.slot = none ∧
      ∃ before, s'.log = before ++ [SinkEvent.called true (call (.ready (.ok ()))), .released] := by
  rcases withLock_spec taken with ⟨⟨⟩, _⟩ | ⟨guard, lock, last, lock', r, polled, ran, _, rfl⟩
  have held := PollMutex.locked_of_ready tied polled
  rcases flushThen_spec ran with ⟨failed, _⟩ | ⟨middle, inner, emptied, rfl⟩
  · exact absurd rfl failed
  · refine ⟨emptied.slot, middle.log, ?_⟩
    simp [called, emptied.lock, held]

/-- The items given to `LockedSink::start_send` along a run. -/
def given (ts : List (Machine.Transition (LockedSink S W M E) (Op S W M) (Res E))) : List M :=
  ts.filterMap fun t =>
    match t.act with
    | .startSend item => some item
    | _ => none

theorem flow_of_run {value : S} {ts} (run : (machine sink value).Run ts s)
    (free : ∀ t ∈ ts, ∀ item, t.act = .startSend item → t.before.slot = none) :
    Flow none s.log s.slot ∧ accepted s.log = given ts := by
  induction run with
  | start fresh =>
    cases fresh
    exact ⟨.done _, rfl⟩
  | @next ts s op s' r prior taken ih =>
    obtain ⟨flow, same⟩ := ih fun t member => free t (by simp [member])
    by_cases sends : ∃ item, op = .startSend item
    · obtain ⟨item, rfl⟩ := sends
      cases taken
      rw [free _ (List.mem_append_right _ (List.mem_singleton_self _)) item rfl] at flow
      refine ⟨flow.append (.accept (.done _)), ?_⟩
      rw [accepted_append, same]
      simp [given, accepted]
    · push Not at sends
      obtain ⟨new, adds⟩ := step_adds (tied_of_run prior) sends taken
      refine ⟨adds.log ▸ flow.append adds.flow, ?_⟩
      rw [adds.log, accepted_append, adds.silent, same]
      cases op with
      | startSend item => exact absurd rfl (sends item)
      | _ => simp [given]

/-- The items given to the sink reach the inner sink once and in order, each under the lock
and directly after the inner sink was ready for it; a refusal keeps the item in the slot,
and a flush or close succeeds only with the slot empty and after the inner sink's own. -/
theorem forwards_in_order {value : S} {ts} (run : (machine sink value).Run ts s)
    (free : ∀ t ∈ ts, ∀ item, t.act = .startSend item → t.before.slot = none) :
    forwarded s.log ++ s.slot.toList = given ts ∧
    (∀ earlier locked item answer later,
      s.log = earlier ++ .called locked (.startSend item answer) :: later →
      locked = true ∧ ∃ before, earlier = before ++ [.called true (.pollReady (.ready (.ok ())))]) ∧
    (∀ t ∈ ts, ∀ locked answer,
      .called locked (.pollReady answer) ∈ t.after.log.drop t.before.log.length →
      answer ≠ .ready (.ok ()) → t.after.slot = t.before.slot) ∧
    ∀ t ∈ ts, t.out = .polled (.ready (.ok ())) →
      (∀ waker, t.act = .pollFlush waker → t.after.slot = none ∧ ∃ before,
        t.after.log = before ++ [.called true (.pollFlush (.ready (.ok ()))), .released]) ∧
      ∀ waker, t.act = .pollClose waker → t.after.slot = none ∧ ∃ before,
        t.after.log = before ++ [.called true (.pollClose (.ready (.ok ()))), .released] := by
  obtain ⟨flow, same⟩ := flow_of_run run free
  refine ⟨?_, ?_, ?_, ?_⟩
  · rw [← same]
    simpa using flow.balance.symm
  · exact fun _ _ _ _ _ split => flow.sent_when_ready split
  · intro t member locked answer asked unready
    obtain ⟨⟨_, prior⟩, taken⟩ := run.step_of_mem member
    by_cases sends : ∃ item, t.act = .startSend item
    · obtain ⟨item, act⟩ := sends
      rw [act] at taken
      generalize t.after = after, t.out = out at taken asked
      cases taken
      simp at asked
    · push Not at sends
      obtain ⟨new, adds⟩ := step_adds (tied_of_run prior) sends taken
      rw [adds.log, List.drop_left] at asked
      exact adds.kept locked answer asked unready
  · intro t member succeeded
    obtain ⟨⟨_, prior⟩, taken⟩ := run.step_of_mem member
    rw [succeeded] at taken
    refine ⟨fun waker act => ?_, fun waker act => ?_⟩
    · rw [act] at taken
      obtain ⟨⟨_, _⟩, polled, same⟩ := Option.map_eq_some_iff.mp taken
      obtain ⟨rfl, ⟨⟩⟩ := Prod.mk.inj same
      exact finished (tied_of_run prior) polled
    · rw [act] at taken
      obtain ⟨⟨_, _⟩, polled, same⟩ := Option.map_eq_some_iff.mp taken
      obtain ⟨rfl, ⟨⟩⟩ := Prod.mk.inj same
      exact finished (tied_of_run prior) polled

end

/-- A sink that keeps what it is sent and is never busy. -/
def collecting : Sink (List Nat) Nat Nat Unit where
  pollReady _ items := (.ready (.ok ()), items)
  startSend item items := (.ok (), items ++ [item])
  pollFlush _ items := (.ready (.ok ()), items)
  pollClose _ items := (.ready (.ok ()), items)

/-- Somebody else holds the lock while an item waits; the next flush forwards both items. -/
theorem items_forwarded : ∃ ts, ∃ s : LockedSink (List Nat) Nat Nat Unit,
    (machine collecting []).Run ts s ∧
    ts.map Machine.Transition.act =
      [.startSend 5, .user (.lock .lockRc), .user (.poll 0 0), .pollReady 1,
        .user (.dropGuard .lockRc), .pollReady 1, .startSend 6, .pollFlush 2] ∧
    s.inner = [5, 6] ∧ forwarded s.log ++ s.slot.toList = [5, 6] := by
  obtain ⟨ts, s, run, acts, free, inner, items⟩ := Machine.exists_run (m := machine collecting [])
    (P := fun ts s => (∀ t ∈ ts, given [t] ≠ [] → t.before.slot = none) ∧
      s.inner = [5, 6] ∧ given ts = [5, 6])
    [.startSend 5, .user (.lock .lockRc), .user (.poll 0 0), .pollReady 1,
      .user (.dropGuard .lockRc), .pollReady 1, .startSend 6, .pollFlush 2] rfl (by decide)
  refine ⟨ts, s, run, acts, inner, ?_⟩
  rw [← items]
  exact (forwards_in_order run fun t member item act => free t member (by simp [given, act])).1

end LockedSink

end Eneste
