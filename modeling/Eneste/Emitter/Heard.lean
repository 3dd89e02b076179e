import Eneste.Emitter.Callbacks
import Eneste.Emitter.Listener

/-!
# What futures hear

A future hears what its stream's mailbox holds at each turn of its polls. The mailbox is shut
while the callback runs, so nothing that is emitted meanwhile is heard.
-/

namespace Eneste

open Upgrade

section

variable {W T V : Type} [Usize]

namespace Mailbox

/-- The values that are offered to the mailbox. -/
def offered (ops : List (Op T)) : List T :=
  ops.filterMap fun op =>
    match op with
    | .emit value => some value
    | .poll => none

omit [Usize] in
/-- As long as it has yielded nothing, a mailbox holds the first value it was offered. -/
theorem run_of_silent {ops : List (Op T)} (silent : (run ops).2.filterMap Listener.item = []) :
    (run ops).1 = .armed (offered ops).head? := by
  induction ops using List.reverseRecOn with
  | nil => rfl
  | append_singleton ops op ih =>
    rw [run_append] at silent ⊢
    rw [List.foldl_cons, List.foldl_nil] at silent ⊢
    rcases before : run ops with ⟨mailbox, answers⟩
    rw [before] at silent ih
    cases op with
    | emit value =>
      obtain rfl := ih silent
      simp only [next, offered, List.filterMap_append, List.filterMap_cons, List.filterMap_nil]
      cases List.filterMap _ ops <;> rfl
    | poll =>
      have same : offered (ops ++ [.poll]) = offered ops := by simp [offered]
      simp only [next, List.filterMap_append, List.append_eq_nil_iff] at silent ⊢
      obtain ⟨quiet, empty⟩ := silent
      obtain rfl := ih quiet
      rw [same]
      cases first : (offered ops).head? with
      | none => rfl
      | some value => simp [first, poll, Listener.item] at empty

end Mailbox

namespace Emitter

variable {m m' : Emitter W T} {op : Op W T} {r : Res T} {k : Nat} {mb : Mailbox T}

/-- What the drop of the stream `j` hands on to the stream `k`. -/
def handed (m : Emitter W T) (k j : Nat) : Option (Emission T) :=
  match m.states j, m.states k with
  | some state, some (.listening id) =>
    if m.event.waiting.head? = some id then state.stored m.event else none
  | _, _ => none

omit [Usize] in
theorem mailboxOf_stored {event event' : Inner W (Emission T)} {state : StreamState}
    (same : state.stored event' = state.stored event) :
    mailboxOf event' state = mailboxOf event state := by
  cases state with
  | listening id => simp only [mailboxOf, same]
  | next | done => rfl

omit [Usize] in
/-- What a listener holds shows in its entry only. -/
private theorem stored_of_get? {event event' : Inner W (Emission T)} {id : Nat}
    (same : event'.listeners.get? id = event.listeners.get? id) :
    (StreamState.listening id).stored event' = (StreamState.listening id).stored event := by
  simp [StreamState.stored, StreamState.listener, same]

/-- The calls on other streams leave what a stream holds alone. -/
private theorem stored_kept (kept : m.Kept) {id : Nat} (live : m.states k = some (.listening id))
    (taken : m.step op = some (m', r)) (others : op.on k = false)
    (quiet : ∀ value, op ≠ .emit value) (undropped : ∀ j, op ≠ .dropStream j) :
    (StreamState.listening id).stored m'.event = (StreamState.listening id).stored m.event := by
  cases op with
  | subscribe =>
    simp only [step] at taken
    split at taken <;> cases taken
    exact stored_of_get? (OrderedMap.get?_insert_of_ne _ _ (kept.streams.listener_ne live))
  | emit value => exact absurd rfl (quiet value)
  | pollNext j waker =>
    obtain ⟨s, _, _, _, here, polled, _, rfl⟩ := pollNext_spec kept.streams taken
    obtain ⟨entry, found⟩ := kept.streams.present k id live
    apply stored_of_get?
    apply polled.frame kept.streams.wf found
    intro same
    have own := kept.streams.distinct j k id (by rw [states_of_get? here, same]) live
    simp [Op.on, own] at others
  | dropStream j => exact absurd rfl (undropped j)
  | dropEmitter =>
    simp only [step] at taken
    split at taken <;> cases taken
    cases found : m.event.listeners.get? id <;>
      simp [StreamState.stored, StreamState.listener, Event.drop_eq, found]

omit [Usize] in
/-- A stream that is dropped hands on what it has not yielded. -/
private theorem stored_drop (kept : m.Kept) {j id : Nat} {state : StreamState}
    (live : m.states k = some (.listening id)) (gone : m.states j = some state) (other : j ≠ k) :
    (StreamState.listening id).stored (state.drop m.event) =
      ((m.handed k j).orElse fun _ => (StreamState.listening id).stored m.event) := by
  have handed : m.handed k j =
      if m.event.waiting.head? = some id then state.stored m.event else none := by
    simp only [Emitter.handed, live, gone]
  cases state with
  | next | done => simp [handed, StreamState.stored, StreamState.listener, StreamState.drop]
  | listening own =>
    have differs : id ≠ own := fun same =>
      other (kept.streams.distinct j k id (same ▸ gone) live)
    obtain ⟨⟨old, value⟩, found⟩ := kept.streams.present j own gone
    have holds : (StreamState.listening own).stored m.event = value := by
      simp [StreamState.stored, StreamState.listener, found]
    rw [holds] at handed
    simp only [StreamState.drop, StreamState.listener]
    cases value with
    | none =>
      rw [EventListener.drop_waiting found, handed, ite_self]
      exact stored_of_get? (OrderedMap.get?_erase_of_ne _ differs)
    | some tag =>
      -- the first listener that waits is given the value
      have first : id ∈ m.event.waiting.take 1 ↔ m.event.waiting.head? = some id := by
        cases m.event.waiting <;> simp [eq_comm]
      have entry : (m.event.consume own).listeners.get? id = m.event.listeners.get? id :=
        OrderedMap.get?_erase_of_ne _ differs
      obtain ⟨mine, here⟩ := kept.streams.present k id live
      rw [EventListener.drop_notified kept.streams.wf found, Inner.waiting_consume found rfl,
        handed]
      simp only [StreamState.stored, StreamState.listener, Option.bind_some, Inner.get?_grant,
        first, entry, here]
      split <;> rfl

omit [Usize] in
/-- Whoever is handed a value has none. -/
private theorem handed_spec {j : Nat} {e : Emission T}
    (handed : m.handed k j = some e) : m.mailbox k = some (.armed none) := by
  unfold Emitter.handed at handed
  split at handed
  next state id gone live =>
    split at handed
    next first =>
      obtain ⟨entry, found, empty⟩ := (m.event.mem_waiting id).mp (List.mem_of_head? first)
      simp [mailbox, live, mailboxOf, StreamState.stored, StreamState.listener, found, empty]
    next => cases handed
  next => cases handed

/-- What a call on the emitter, or on another stream, does to the mailbox of a stream. -/
def Op.offers (m : Emitter W T) (k : Nat) : Op W T → Option T
  | .emit value => some value
  | .dropStream j => (m.handed k j).map Emission.value
  | _ => none

theorem mailbox_offer (kept : m.Kept) (taken : m.step op = some (m', r))
    (others : op.on k = false) (here : m.mailbox k = some mb) :
    m'.mailbox k = some ((op.offers m k).elim mb mb.emit) := by
  obtain ⟨state, live, holds⟩ := Option.bind_eq_some_iff.mp here
  have still := states_kept kept taken live others
  have after : m'.mailbox k = mailboxOf m'.event state := by
    rw [mailbox, still, Option.bind_some]
  have quiet : state.stored m'.event = state.stored m.event → m'.mailbox k = some mb := by
    intro same
    rw [after, mailboxOf_stored same, holds]
  have silent : (∀ value, op ≠ .emit value) → (∀ j, op ≠ .dropStream j) →
      m'.mailbox k = some mb := by
    intro unheard undropped
    cases state with
    | listening id => exact quiet (stored_kept kept live taken others unheard undropped)
    | next | done => exact quiet rfl
  cases op with
  | emit value =>
    simp only [step] at taken
    split at taken <;> cases taken
    exact mailbox_emit kept value here
  | dropStream j =>
    have other : j ≠ k := by simpa [Op.on] using others
    simp only [step, dropStream] at taken
    split at taken
    · cases taken
    next s gone =>
      cases taken
      simp only [Op.offers]
      cases state with
      | next | done =>
        have none : m.handed k j = none := by simp [handed, live]
        simpa [none] using quiet rfl
      | listening id =>
        have stored := stored_drop kept live (states_of_get? gone) other
        cases offered : m.handed k j with
        | none =>
          rw [offered] at stored
          exact quiet stored
        | some e =>
          -- the mailbox was empty, and holds what it is handed
          rw [handed_spec offered, Option.some.injEq] at here
          rw [offered] at stored
          rw [after, mailboxOf, ← here]
          exact congrArg (fun v => some (Mailbox.armed (v.map Emission.value))) stored
  | subscribe | pollNext | dropEmitter => exact silent (by simp) (by simp)

/-- The emitter is there until its event is closed. -/
def Bound (m : Emitter W T) : Prop := m.event.closed = !m.alive

theorem Bound.step (kept : m.Kept) (bound : m.Bound) (taken : m.step op = some (m', r)) :
    m'.Bound := by
  unfold Bound at bound ⊢
  cases op with
  | subscribe =>
    simp only [Emitter.step] at taken
    split at taken <;> cases taken
    exact bound
  | emit value =>
    simp only [Emitter.step] at taken
    split at taken <;> cases taken
    exact (Event.closed_notify _ _).trans bound
  | pollNext j waker =>
    obtain ⟨_, _, _, _, _, polled, _, rfl⟩ := pollNext_spec kept.streams taken
    exact polled.closed.trans bound
  | dropStream j =>
    simp only [Emitter.step, dropStream] at taken
    split at taken
    · cases taken
    next s live =>
      cases taken
      exact (s.state.closed_drop m.event).trans bound
  | dropEmitter =>
    simp only [Emitter.step] at taken
    split at taken <;> cases taken
    simp [Event.drop_eq]

/-- A poll of a stream is a poll of its mailbox, until the emitter is gone and the mailbox is
empty. -/
theorem mailbox_polled (kept : m.Kept) (bound : m.Bound) {waker : W}
    {result : Poll (Option (Emission T))}
    (taken : m.step (.pollNext k waker) = some (m', .polled result))
    (here : m.mailbox k = some mb) :
    (answer result = mb.poll.2 ∧ m'.mailbox k = some mb.poll.1 ∧
        (m.alive = true ∨ mb.poll.2 ≠ .pending)) ∨
      m.alive = false ∧ result = .ready none ∧ mb.poll = (.armed none, .pending) ∧
        m'.states k = some .done := by
  obtain ⟨s, _, event, state, live, polled, same, rfl⟩ := pollNext_spec kept.streams taken
  cases same
  rw [mailbox, states_of_get? live, Option.bind_some] at here
  have dead : m.event.closed = true → m.alive = false := by
    intro closed
    simpa [closed] using bound.symm
  have after : ({ m with
      event := event
      streams := m.streams.insert k
        { s with state := state, received := s.received ++ yielded result } } :
        Emitter W T).states k = some state := by
    simp [states]
  rw [mailbox, after, Option.bind_some]
  generalize s.state = before at polled here
  cases polled with
  | yields found =>
    simp only [mailboxOf, StreamState.stored, StreamState.listener, Option.bind_some, found,
      Option.some.injEq] at here
    subst here
    exact .inl ⟨rfl, rfl, .inr (by simp [Mailbox.poll])⟩
  | waits found opened =>
    simp only [mailboxOf, StreamState.stored, StreamState.listener, Option.bind_some, found,
      Option.some.injEq] at here
    subst here
    refine .inl ⟨rfl, ?_, .inl (by simpa [opened] using bound.symm)⟩
    simp [mailboxOf, StreamState.stored, StreamState.listener, Inner.await, Mailbox.poll]
  | closes found closed =>
    simp only [mailboxOf, StreamState.stored, StreamState.listener, Option.bind_some, found,
      Option.some.injEq] at here
    subst here
    exact .inr ⟨dead closed, rfl, rfl, rfl⟩
  | rearms upgraded =>
    cases here
    refine .inl ⟨rfl, ?_, .inl upgraded⟩
    simp [mailboxOf, StreamState.stored, StreamState.listener, Inner.register, Mailbox.poll]
  | abandons _ closed =>
    cases here
    exact .inr ⟨dead closed, rfl, rfl, rfl⟩
  | ends gone =>
    cases here
    exact .inr ⟨gone, rfl, rfl, rfl⟩
  | ended => cases here

/-- The mailbox of a stream; one that has ended is empty for good. -/
inductive Tuned (m : Emitter W T) (k : Nat) : Mailbox T → Prop
  | mailed {mb : Mailbox T} (here : m.mailbox k = some mb) : Tuned m k mb
  | ended (done : m.states k = some .done) (dead : m.alive = false) : Tuned m k (.armed none)

namespace Tuned

theorem offer (tuned : m.Tuned k mb) (kept : m.Kept) (taken : m.step op = some (m', r))
    (others : op.on k = false) : m'.Tuned k ((op.offers m k).elim mb mb.emit) := by
  cases tuned with
  | mailed here => exact .mailed (mailbox_offer kept taken others here)
  | ended done dead =>
    have still := states_kept kept taken done others
    have handed : ∀ j, m.handed k j = none := fun j => by simp [handed, done]
    cases op with
    | subscribe | emit | dropEmitter => simp [step, dead] at taken
    | pollNext =>
      obtain ⟨_, _, _, _, _, _, _, rfl⟩ := pollNext_spec kept.streams taken
      exact .ended still dead
    | dropStream j =>
      simp only [step, dropStream] at taken
      split at taken <;> cases taken
      simpa [Op.offers, handed] using Tuned.ended still dead

theorem polled (tuned : m.Tuned k mb) (kept : m.Kept) (bound : m.Bound) {waker : W}
    {result : Poll (Option (Emission T))}
    (taken : m.step (.pollNext k waker) = some (m', .polled result)) :
    m'.Tuned k mb.poll.1 ∧ Listener.item (answer result) = Listener.item mb.poll.2 := by
  have alive : m'.alive = m.alive := by
    obtain ⟨_, _, _, _, _, _, _, rfl⟩ := pollNext_spec kept.streams taken
    rfl
  cases tuned with
  | mailed here =>
    obtain ⟨same, after, _⟩ | ⟨dead, rfl, empty, done⟩ := mailbox_polled kept bound taken here
    · exact ⟨.mailed after, by rw [same]⟩
    · rw [empty]
      exact ⟨.ended done (alive.trans dead), rfl⟩
  | ended done dead =>
    obtain ⟨s, _, event, state, live, polled, same, rfl⟩ := pollNext_spec kept.streams taken
    cases same
    rw [states_of_get? live, Option.some.injEq] at done
    rw [done] at polled
    cases polled
    exact ⟨.ended (by simp [states]) dead, rfl⟩

/-- What the first poll of a stream that has not yielded yet returns. -/
theorem first {stored : Option T} (tuned : m.Tuned k (.armed stored)) (kept : m.Kept)
    (bound : m.Bound) {waker : W} {result : Poll (Option (Emission T))}
    (taken : m.step (.pollNext k waker) = some (m', .polled result)) :
    (∀ value, stored = some value → ∃ item, result = .ready (some item) ∧ item.value = value) ∧
      (stored = none → result = if m.alive then .pending else .ready none) := by
  generalize mailbox : Mailbox.armed stored = mb at tuned
  cases tuned with
  | mailed here =>
    subst mailbox
    obtain ⟨same, _, alive⟩ | ⟨dead, rfl, empty, _⟩ := mailbox_polled kept bound taken here
    · cases stored with
      | none =>
        have alive : m.alive = true := alive.resolve_right fun other => other rfl
        rcases result with (_ | item) | _ <;> cases same
        exact ⟨nofun, fun _ => by simp [alive]⟩
      | some value =>
        rcases result with (_ | item) | _ <;> cases same
        exact ⟨fun _ stored => ⟨item, rfl, Option.some.inj stored⟩, nofun⟩
    · cases stored with
      | none => exact ⟨nofun, fun _ => by simp [dead]⟩
      | some value => cases empty
  | ended done dead =>
    cases mailbox
    obtain ⟨s, _, event, state, live, polled, same, rfl⟩ := pollNext_spec kept.streams taken
    cases same
    rw [states_of_get? live, Option.some.injEq] at done
    rw [done] at polled
    cases polled
    exact ⟨nofun, fun _ => by simp [dead]⟩

end Tuned

end Emitter

namespace Audience

variable {s s' : Audience W T V} {act : Act W T V} {out : Out T} {k : Nat}

/-- The call on the emitter that the step makes. -/
def call (s : Audience W T V) (act : Act W T V) : Option (Emitter.Op W T) :=
  match act, s.stack with
  | .emitter op, _ => some op
  | .drop k, _ => some (.dropStream k)
  | .turn, ⟨k, waker, false⟩ :: _ =>
    if (s.futures.get? k).any (!·.done) then some (.pollNext k waker) else none
  | act, _ => if act.spawns then some .subscribe else none

/-- The item that the step gives to the future: its closure is called with it, or the
`SubscribeOnce` returns it. -/
def Out.heard (k : Nat) : Out T → Option T
  | .called j item | .dismissed j item | .ready j (some item) =>
    if j = k then some item.value else none
  | _ => none

/-- A step as a future sees it. -/
inductive Mails (k : Nat) (s : Audience W T V) (act : Act W T V) (out : Out T)
    (s' : Audience W T V) : Prop
  | quiet (idle : s.call act = none) (same : s'.emitter = s.emitter) (unheard : out.heard k = none)
  | offers {op r} (makes : s.call act = some op) (taken : s.emitter.step op = some (s'.emitter, r))
      (others : op.on k = false) (unheard : out.heard k = none)
  | drops {r} (makes : s.call act = some (.dropStream k))
      (taken : s.emitter.step (.dropStream k) = some (s'.emitter, r))
      (unheard : out.heard k = none)
  | polls {waker result} (makes : s.call act = some (.pollNext k waker))
      (taken : s.emitter.step (.pollNext k waker) = some (s'.emitter, .polled result))
      (heard : out.heard k = Listener.item (Emitter.answer result))

omit [Usize] in
private theorem call_of_spawns (makes : act.spawns = true) : s.call act = some .subscribe := by
  cases act with
  | emitter | drop | turn => cases makes
  | _ => simp [call, makes]

private theorem mails_of_poll {j : Nat} {waker : W} {rest : List (Hearing W)} {job : Job V}
    {result : Poll (Option (Emission T))} (top : s.stack = ⟨j, waker, false⟩ :: rest)
    (found : s.futures.get? j = some ⟨job, false⟩)
    (polled : s.emitter.step (.pollNext j waker) = some (s'.emitter, .polled result))
    (own : out.heard j = Listener.item (Emitter.answer result))
    (others : j ≠ k → out.heard k = none) : Mails k s .turn out s' := by
  have call : s.call .turn = some (.pollNext j waker) := by simp [call, top, found]
  by_cases same : j = k
  · subst same
    exact .polls call polled own
  · exact .offers call polled (by simpa [Emitter.Op.on] using same) (others same)

theorem Stepped.mails {hearer : Hearer V} (stepped : Stepped s act s' out)
    (known : s.futures.get? k = some hearer) : Mails k s act out s' := by
  cases stepped with
  | uses user mine taken => exact .offers rfl taken (mine_of_mayUse mine known) rfl
  | spawns makes user alive =>
    exact .offers (call_of_spawns makes) (Emitter.step_subscribe alive) rfl rfl
  | @drops j _ _ _ _ user found apart dropped =>
    by_cases same : j = k
    · subst same
      exact .drops rfl dropped rfl
    · exact .offers rfl dropped (by simpa [Emitter.Op.on] using same) rfl
  | polls | allocs | clones | releases | wants | refuses | panics => exact .quiet rfl rfl rfl
  | finishes top found => exact .quiet (by simp [call, top, found]) rfl rfl
  | waits top found polled | fails top found polled | exhausted top found polled =>
    exact mails_of_poll top found polled rfl fun _ => rfl
  | yields top found polled | dismisses top found polled | calls top found polled =>
    refine mails_of_poll top found polled ?_ fun other => ?_
    · simp [Out.heard, Emitter.answer, Listener.item]
    · simp [Out.heard, other]

theorem Stepped.call (stepped : Stepped s act s' out) :
    (s.call act = none ∧ s'.emitter = s.emitter) ∨
      ∃ op r, s.call act = some op ∧ s.emitter.step op = some (s'.emitter, r) := by
  have polls : ∀ {j waker rest job r}, s.stack = ⟨j, waker, false⟩ :: rest →
      s.futures.get? j = some ⟨job, false⟩ →
      s.emitter.step (.pollNext j waker) = some (s'.emitter, r) →
      ∃ op r, s.call .turn = some op ∧ s.emitter.step op = some (s'.emitter, r) :=
    fun top found polled => ⟨_, _, by simp [Audience.call, top, found], polled⟩
  cases stepped with
  | uses _ _ taken => exact .inr ⟨_, _, rfl, taken⟩
  | spawns makes _ alive => exact .inr ⟨_, _, call_of_spawns makes, Emitter.step_subscribe alive⟩
  | drops _ _ _ dropped => exact .inr ⟨_, _, rfl, dropped⟩
  | polls | allocs | clones | releases | wants | refuses | panics => exact .inl ⟨rfl, rfl⟩
  | finishes top found => exact .inl ⟨by simp [Audience.call, top, found], rfl⟩
  | waits top found polled | yields top found polled | fails top found polled
  | exhausted top found polled | dismisses top found polled | calls top found polled =>
    exact .inr (polls top found polled)

theorem bound_of_run {ts} (run : (machine (W := W) (T := T) (V := V)).Run ts s) :
    s.emitter.Bound := by
  refine run.relative (P := fun s => s.emitter.Bound) ?_ ?_
  · rintro _ rfl
    rfl
  · intro ts s act s' out prior bound taken
    rcases (step_spec taken).call with ⟨_, same⟩ | ⟨op, r, _, used⟩
    · rw [same]
      exact bound
    · exact bound.step (Seats.of_run prior).kept used

/-- What a call of the emitter is for the mailbox of a stream. -/
def mail (m : Emitter W T) (k : Nat) : Emitter.Op W T → Option (Mailbox.Op T)
  | .pollNext j _ => if j = k then some .poll else none
  | op => (op.offers m k).map .emit

/-- What steps amount to for the mailbox of a future: emissions and what other streams hand
on, and the polls of its stream. -/
def mails (k : Nat) (ts : List (Machine.Transition (Audience W T V) (Act W T V) (Out T))) :
    List (Mailbox.Op T) :=
  ts.filterMap fun u => (u.before.call u.act).bind (mail u.before.emitter k)

def heard (k : Nat) (ts : List (Machine.Transition (Audience W T V) (Act W T V) (Out T))) :
    List T :=
  ts.filterMap fun u => u.out.heard k

/-- A future that is there hears through its mailbox; one that is gone hears nothing. -/
inductive Hears (s : Audience W T V) (k : Nat) : Mailbox T → Prop
  | tuned {mb : Mailbox T} {hearer} (live : s.futures.get? k = some hearer)
      (tuned : s.emitter.Tuned k mb) : Hears s k mb
  | gone {mb : Mailbox T} (absent : s.emitter.states k = none) (old : k < s.emitter.created) :
      Hears s k mb

omit [Usize] in
private theorem mails_one : mails k [⟨s, act, out, s'⟩] =
    ((s.call act).bind (mail s.emitter k)).toList := by
  simp only [mails, List.filterMap_cons, List.filterMap_nil]
  cases (s.call act).bind (mail s.emitter k) <;> rfl

omit [Usize] in
/-- Only polls of its own stream can have answers. -/
private theorem mail_of_others {op : Emitter.Op W T} (m : Emitter W T)
    (others : ∀ waker, op ≠ .pollNext k waker) : mail m k op = (op.offers m k).map .emit := by
  cases op with
  | pollNext j waker =>
    have other : j ≠ k := fun same => others waker (same ▸ rfl)
    simp [mail, other, Emitter.Op.offers]
  | _ => rfl

omit [Usize] in
private theorem next_offer (offered : Option T) (mb : Mailbox T)
    (answers : List (Poll (Option T))) :
    (offered.map Mailbox.Op.emit).toList.foldl Mailbox.next (mb, answers) =
      (offered.elim mb mb.emit, answers) := by
  cases offered <;> rfl

/-- A stream that is gone does not come back. -/
private theorem states_absent {m m' : Emitter W T} {op : Emitter.Op W T} {r : Emitter.Res T}
    (taken : m.step op = some (m', r)) (absent : m.states k = none) (old : k < m.created) :
    m'.states k = none ∧ ∀ waker, op ≠ .pollNext k waker := by
  have gone : m.streams.get? k = none := Option.map_eq_none_iff.mp absent
  cases op with
  | subscribe =>
    simp only [Emitter.step] at taken
    split at taken <;> cases taken
    refine ⟨?_, by simp⟩
    simp [Emitter.states, Emitter.subscribe, OrderedMap.get?_insert_of_ne _ _ old.ne, gone]
  | emit | dropEmitter =>
    simp only [Emitter.step] at taken
    split at taken <;> cases taken
    exact ⟨absent, by simp⟩
  | pollNext j waker =>
    simp only [Emitter.step, Emitter.pollNext] at taken
    split at taken
    · cases taken
    next s live =>
      have other : k ≠ j := by
        rintro rfl
        cases gone.symm.trans live
      split at taken <;> cases taken
      exact ⟨by simp [Emitter.states, OrderedMap.get?_insert_of_ne _ _ other, gone],
        fun w same => other (by cases same; rfl)⟩
  | dropStream j =>
    simp only [Emitter.step, Emitter.dropStream] at taken
    split at taken <;> cases taken
    refine ⟨?_, by simp⟩
    simp only [Emitter.states, OrderedMap.get?_erase]
    split <;> simp [gone]

/-- Whoever hears is there. -/
private theorem heard_live (stepped : Stepped s act s' out) (hears : out.heard k ≠ none) :
    ∃ hearer, s.futures.get? k = some hearer := by
  cases stepped with
  | yields _ found | dismisses _ found | calls _ found =>
    simp only [Out.heard, ne_eq, ite_eq_right_iff, reduceCtorEq, imp_false, not_not] at hears
    exact ⟨_, hears ▸ found⟩
  | _ => exact absurd rfl hears

theorem Hears.step {mb : Mailbox T} (answers : List (Poll (Option T))) (hears : s.Hears k mb)
    (inv : s.Seats) (bound : s.emitter.Bound) (stepped : Stepped s act s' out) :
    let next := (mails k [⟨s, act, out, s'⟩]).foldl Mailbox.next (mb, answers)
    s'.Hears k next.1 ∧
      next.2.filterMap Listener.item = answers.filterMap Listener.item ++ (out.heard k).toList := by
  rw [mails_one]
  cases hears with
  | @tuned hearer live tuned =>
    have still : act ≠ .drop k → ∃ hearer, s'.futures.get? k = some hearer := by
      intro undropped
      obtain ⟨dropped, _⟩ | ⟨done, found, _⟩ := hearer_kept inv stepped live
      · exact absurd dropped undropped
      · exact ⟨_, found⟩
    cases stepped.mails live with
    | quiet idle same unheard =>
      obtain ⟨hearer', live'⟩ := still (by rintro rfl; cases idle)
      simp only [idle, Option.bind_none, Option.toList_none, List.foldl_nil, unheard,
        List.append_nil, and_true]
      exact .tuned live' (same ▸ tuned)
    | @offers op r makes taken others unheard =>
      obtain ⟨hearer', live'⟩ := still (by rintro rfl; cases makes; simp [Emitter.Op.on] at others)
      have unpolled : ∀ waker, op ≠ .pollNext k waker := by
        rintro waker rfl
        simp [Emitter.Op.on] at others
      simp only [makes, Option.bind_some, mail_of_others _ unpolled, next_offer, unheard,
        Option.toList_none, List.append_nil, and_true]
      exact .tuned live' (tuned.offer inv.kept taken others)
    | drops makes taken unheard =>
      obtain ⟨sub, found⟩ := inv.streams k _ live
      have old := (inv.kept.named k sub found).trans_le (Emitter.created_le taken)
      have absent : s'.emitter.states k = none := by
        simp only [Emitter.step, Emitter.dropStream, found, Option.some.injEq,
          Prod.mk.injEq] at taken
        simp [← taken.1, Emitter.states]
      simp only [makes, Option.bind_some, mail, next_offer, unheard, Option.toList_none,
        List.append_nil, and_true]
      exact .gone absent old
    | polls makes taken heard =>
      obtain ⟨hearer', live'⟩ := still (by rintro rfl; cases makes)
      obtain ⟨after, same⟩ := tuned.polled inv.kept bound taken
      simp only [makes, Option.bind_some, mail, ite_true, Option.toList_some, List.foldl_cons,
        List.foldl_nil, Mailbox.next, List.filterMap_append, heard, same]
      refine ⟨.tuned live' after, ?_⟩
      cases answer : Listener.item mb.poll.2 <;> simp [answer]
  | gone absent old =>
    have unheard : out.heard k = none := by
      by_contra hears
      obtain ⟨hearer, live⟩ := heard_live stepped hears
      obtain ⟨sub, found⟩ := inv.streams k hearer live
      rw [Emitter.states_of_get? found] at absent
      cases absent
    rcases stepped.call with ⟨idle, same⟩ | ⟨op, r, makes, taken⟩
    · simp only [idle, Option.bind_none, Option.toList_none, List.foldl_nil, unheard,
        List.append_nil, and_true]
      exact .gone (same ▸ absent) (same ▸ old)
    · obtain ⟨still, unpolled⟩ := states_absent taken absent old
      simp only [makes, Option.bind_some, mail_of_others _ unpolled, next_offer, unheard,
        Option.toList_none, List.append_nil, and_true]
      exact .gone still (old.trans_le (Emitter.created_le taken))

theorem hears_of_run {before later : List (Machine.Transition (Audience W T V) (Act W T V) (Out T))}
    {t : Machine.Transition (Audience W T V) (Act W T V) (Out T)}
    (run : machine.Run (before ++ t :: later) s) (spawns : t.out = .spawned k) :
    s.Hears k (Mailbox.run (mails k later)).1 ∧
      (Mailbox.run (mails k later)).2.filterMap Listener.item = heard k later := by
  refine run.since (P := fun us s => s.Hears k (Mailbox.run (mails k us)).1 ∧
    (Mailbox.run (mails k us)).2.filterMap Listener.item = heard k us) ?_ ?_
  · intro prior taken
    have stepped := step_spec taken
    rw [spawns] at stepped
    generalize t.after = after, t.act = act at stepped
    cases stepped with
    | spawns =>
      refine ⟨.tuned (OrderedMap.get?_insert_self _ _ _) (.mailed ?_), rfl⟩
      simp [Mailbox.run, mails, Emitter.mailbox, Emitter.states, Emitter.subscribe,
        Emitter.mailboxOf, StreamState.stored, StreamState.listener, Inner.listen]
  · rintro us u prior ⟨hears, same⟩ taken
    have next := hears.step (Mailbox.run (mails k us)).2 (Seats.of_run prior)
      (bound_of_run prior) (step_spec taken)
    have one : heard k (us ++ [u]) = heard k us ++ (u.out.heard k).toList := by
      simp only [heard, List.filterMap_append, List.filterMap_cons, List.filterMap_nil]
      cases u.out.heard k <;> rfl
    have splits : mails k (us ++ [u]) = mails k us ++ mails k [u] := List.filterMap_append
    rw [splits, Mailbox.run_append, one, ← same]
    exact next

/-- What a future is given is what a mailbox of its own yields at each turn of its polls, and
while its callback runs the mailbox is shut: what is emitted then, also by the callback, is
missed. -/
theorem hears_through_mailbox
    {before later : List (Machine.Transition (Audience W T V) (Act W T V) (Out T))}
    {t : Machine.Transition (Audience W T V) (Act W T V) (Out T)}
    (run : machine.Run (before ++ t :: later) s) (spawns : t.out = .spawned k) :
    heard k later = (Mailbox.run (mails k later)).2.filterMap Listener.item ∧
      ∀ h ∈ s.stack, h.future = k → h.calling = true →
        (Mailbox.run (mails k later)).1 = .disarmed := by
  obtain ⟨hears, same⟩ := hears_of_run run spawns
  refine ⟨same.symm, ?_⟩
  rintro h member rfl calls
  have next := (Seats.of_run run).stacked.calling h member calls
  generalize (Mailbox.run (mails h.future later)).1 = mb at hears
  cases hears with
  | tuned live tuned =>
    cases tuned with
    | mailed here =>
      rw [Emitter.mailbox, next] at here
      cases here
      rfl
    | ended done => cases next.symm.trans done
  | gone absent => cases next.symm.trans absent

omit [Usize] in
theorem Hears.tuned_of_live {mb : Mailbox T} (hears : s.Hears k mb) (inv : s.Seats)
    {hearer : Hearer V} (live : s.futures.get? k = some hearer) : s.emitter.Tuned k mb := by
  cases hears with
  | tuned _ tuned => exact tuned
  | gone absent =>
    obtain ⟨sub, found⟩ := inv.streams k hearer live
    rw [Emitter.states_of_get? found] at absent
    cases absent

/-- A future stays what it has been made, until it is dropped. -/
private theorem job_of_run {before later : List (Machine.Transition (Audience W T V) (Act W T V)
    (Out T))} {t : Machine.Transition (Audience W T V) (Act W T V) (Out T)}
    (run : machine.Run (before ++ t :: later) s) (makes : t.act = .subscribeOnce)
    (spawns : t.out = .spawned k) : (k < s.emitter.created ∧ s.futures.get? k = none) ∨
      ∃ done, s.futures.get? k = some ⟨.once, done⟩ := by
  refine run.since (P := fun _ s => (k < s.emitter.created ∧ s.futures.get? k = none) ∨
    ∃ done, s.futures.get? k = some ⟨.once, done⟩) ?_ ?_
  · intro prior taken
    have stepped := step_spec taken
    rw [spawns, makes] at stepped
    generalize t.after = after at stepped
    cases stepped with
    | spawns _ _ _ once =>
      cases once rfl
      exact .inr ⟨false, OrderedMap.get?_insert_self _ _ _⟩
  · rintro us u prior job taken
    have stepped := step_spec taken
    have later := created_mono stepped
    rcases job with ⟨old, absent⟩ | ⟨done, live⟩
    · exact .inl ⟨old.trans_le later, absent_kept stepped absent old⟩
    · have seats := Seats.of_run prior
      rcases hearer_kept seats stepped live with ⟨_, absent⟩ | ⟨done', still, _⟩
      · obtain ⟨sub, found⟩ := seats.streams k _ live
        exact .inl ⟨(seats.kept.named k sub found).trans_le later, absent⟩
      · exact .inr ⟨done', still⟩

/-- A `SubscribeOnce` returns the first value that is offered to it, waits until there is one,
and panics if there is none when the emitter is gone. -/
theorem once_resolves
    {before first rest : List (Machine.Transition (Audience W T V) (Act W T V) (Out T))}
    {t u : Machine.Transition (Audience W T V) (Act W T V) (Out T)} {waker : W}
    (run : machine.Run (before ++ t :: (first ++ u :: rest)) s) (makes : t.act = .subscribeOnce)
    (spawns : t.out = .spawned k) (turns : u.act = .turn)
    (polls : u.before.call u.act = some (.pollNext k waker)) (unresolved : heard k first = []) :
    match (Mailbox.offered (mails k first)).head? with
    | some value => ∃ item, u.out = .ready k (some item) ∧ item.value = value
    | none => u.out = if u.before.emitter.alive then .pending k else .panicked k := by
  have whole : before ++ t :: (first ++ u :: rest) = (before ++ t :: first) ++ u :: rest := by simp
  rw [whole] at run
  obtain ⟨prior, taken, _⟩ := run.upTo.of_append
  obtain ⟨hears, same⟩ := hears_of_run prior spawns
  rw [Mailbox.run_of_silent (same.trans unresolved)] at hears
  generalize (Mailbox.offered (mails k first)).head? = offered at hears ⊢
  have seats := Seats.of_run prior
  have stepped := step_spec taken
  have job := job_of_run prior makes spawns
  have answer : ∀ {job result}, u.before.futures.get? k = some ⟨job, false⟩ →
      u.before.emitter.step (.pollNext k waker) = some (u.after.emitter, .polled result) →
      (∀ value, offered = some value → ∃ item, result = .ready (some item) ∧ item.value = value) ∧
        (offered = none → result = if u.before.emitter.alive then .pending else .ready none) :=
    fun live polled => (hears.tuned_of_live seats live).first seats.kept (bound_of_run prior) polled
  rw [turns] at stepped polls
  have own : ∀ {j w rest job}, u.before.stack = ⟨j, w, false⟩ :: rest →
      u.before.futures.get? j = some ⟨job, false⟩ → j = k ∧ w = waker := by
    intro j w rest job top found
    simpa [call, top, found] using polls
  generalize u.after = after, u.out = out at stepped answer
  cases stepped with
  | spawns makes => cases makes
  | finishes top found => simp [call, top, found] at polls
  | waits top found polled =>
    obtain ⟨rfl, rfl⟩ := own top found
    obtain ⟨given, waiting⟩ := answer found polled
    cases offered with
    | some value =>
      obtain ⟨item, impossible, _⟩ := given value rfl
      cases impossible
    | none =>
      have same := waiting rfl
      split at same
      next alive => simp [alive]
      next => cases same
  | yields top found polled =>
    obtain ⟨rfl, rfl⟩ := own top found
    obtain ⟨given, waiting⟩ := answer found polled
    cases offered with
    | some value =>
      obtain ⟨item, same, holds⟩ := given value rfl
      cases same
      exact ⟨_, rfl, holds⟩
    | none =>
      have same := waiting rfl
      split at same <;> cases same
  | fails top found polled =>
    obtain ⟨rfl, rfl⟩ := own top found
    obtain ⟨given, waiting⟩ := answer found polled
    cases offered with
    | some value =>
      obtain ⟨item, impossible, _⟩ := given value rfl
      cases impossible
    | none =>
      have same := waiting rfl
      split at same
      next => cases same
      next dead => simp [dead]
  | exhausted top found | dismisses top found | calls top found =>
    obtain ⟨rfl, rfl⟩ := own top found
    -- the future is a `SubscribeOnce`
    obtain ⟨_, absent⟩ | ⟨done, once⟩ := job
    · cases absent.symm.trans found
    · cases once.symm.trans found

end Audience

end

namespace Audience

/-- The callback emits as well: it hears the next emission, not its own. -/
theorem own_emission_missed :
    ∃ before : List (Machine.Transition (Audience Nat Nat Nat) (Act Nat Nat Nat) (Out Nat)),
    ∃ t later s, machine.Run (before ++ t :: later) s ∧
    before.map Machine.Transition.act = [] ∧ t.act = .listen ∧
    later.map Machine.Transition.act = [.emitter (.emit 7), .poll 0 1, .turn, .emitter (.emit 8),
      .answer true, .turn, .emitter (.emit 9), .poll 0 1, .turn] ∧
    heard 0 later = [7, 9] ∧
    heard 0 later = (Mailbox.run (mails 0 later)).2.filterMap Listener.item ∧
    (Mailbox.run (mails 0 later)).1 = .disarmed := by
  obtain ⟨before, t, later, s, run, first, act, rest, spawns, hears, calls⟩ :=
    Machine.exists_run_at (m := machine (W := Nat) (T := Nat) (V := Nat))
      (P := fun _ t later s => t.out = .spawned 0 ∧ heard 0 later = [7, 9] ∧
        s.stack = [⟨0, 1, true⟩])
      [] .listen [.emitter (.emit 7), .poll 0 1, .turn, .emitter (.emit 8), .answer true, .turn,
        .emitter (.emit 9), .poll 0 1, .turn] rfl (by decide)
  obtain ⟨same, shut⟩ := hears_through_mailbox run spawns
  exact ⟨before, t, later, s, run, first, act, rest, hears, same,
    shut ⟨0, 1, true⟩ (by simp [calls]) rfl rfl⟩

theorem first_value_returned :
    ∃ t first u, ∃ s : Audience Nat Nat Nat, machine.Run ([] ++ t :: (first ++ u :: [])) s ∧
    t.act = .subscribeOnce ∧ u.act = .turn ∧
    first.map Machine.Transition.act = [.poll 0 1, .turn, .emitter (.emit 7), .emitter (.emit 8),
      .poll 0 2] ∧
    ∃ item, u.out = .ready 0 (some item) ∧ item.value = 7 := by
  obtain ⟨before, u, rest, s, run, acts, turns, last, polls, spawns, silent, offered⟩ :=
    Machine.exists_run_at (m := machine (W := Nat) (T := Nat) (V := Nat))
      (P := fun before u _ _ => u.before.call u.act = some (.pollNext 0 2) ∧
        before.head?.map Machine.Transition.out = some (.spawned 0) ∧
        heard 0 before.tail = [] ∧ (Mailbox.offered (mails 0 before.tail)).head? = some 7)
      [.subscribeOnce, .poll 0 1, .turn, .emitter (.emit 7), .emitter (.emit 8), .poll 0 2] .turn
      [] rfl (by decide)
  cases before with
  | nil => cases spawns
  | cons t first =>
    obtain rfl := List.map_eq_nil_iff.mp last
    obtain ⟨makes, others⟩ := List.cons.inj acts
    have whole : machine.Run ([] ++ t :: (first ++ u :: [])) s := run
    have resolved := once_resolves whole makes (Option.some.inj spawns) turns polls silent
    rw [List.tail_cons] at offered
    rw [offered] at resolved
    exact ⟨t, first, u, s, run, makes, turns, others, resolved⟩

end Audience

end Eneste
