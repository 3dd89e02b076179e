import Eneste.Cell.Guards

/-!
# The subscribers of an observable `RefCell`

A change is announced once the guard that made it goes. A subscriber that waits is told of
every change and sees the value of the last one, unless it cannot look in time.
-/

namespace Eneste.ObservableRefCell

variable {W T : Type}

section

variable (c : ObservableRefCell W T)

/-- Some guard was written through and has still to notify. -/
def Written : Prop := ∃ g h, c.guards.get? g = some (h, .cellRefMut true)

/-- The observer has seen the current value, or its stream will yield or has ended. While a
guard has a write still to announce, nothing is said of it. -/
def UpToDate (k : Nat) : Prop :=
  ¬c.Written → ∀ s, c.streams.get? k = some s → s.state ≠ .done → ¬s.state.Unread c.event →
    s.read = some c.value

/-- The observer is not told of a value it has not seen, or is told and cannot look; or it
subscribes and cannot look, with no announcement to come. -/
inductive Misses [Usize] (k : Nat) : Op W T → Prop
  | change {g h s} (mutated : c.guards.get? g = some (h, .cellRefMut true))
      (live : c.streams.get? k = some s) (yielded : s.state = .next)
      (differs : s.read ≠ some c.value) : Misses k (.dropGuard g)
  | yield {waker s} (live : c.streams.get? k = some s) (unread : s.state.Unread c.event)
      (quiet : ¬c.Written) (refused : c.Refuses .cellRef) (differs : s.read ≠ some c.value) :
      Misses k (.pollNext k waker)
  | subscribe {h} (new : k = c.created) (quiet : ¬c.Written) (refused : c.Refuses .cellRef) :
      Misses k (.subscribe h)

end

variable {c c' : ObservableRefCell W T} {k : Nat}

/-! ### What the observer of one stream has seen -/

namespace UpToDate

/-- Guards come and go, and neither streams nor value change. -/
private theorem congr {flag : Int} {guards : OrderedMap Nat (Nat × Guard)}
    {handles : List Nat} {created : Nat} {event : Inner W Unit}
    (written : (∃ g h, guards.get? g = some (h, .cellRefMut true)) ↔ c.Written)
    (kept : ∀ state : StreamState, state.Unread event ↔ state.Unread c.event) :
    ({ c with
        flag := flag
        guards := guards
        handles := handles
        event := event
        created := created } : ObservableRefCell W T).UpToDate k ↔ c.UpToDate k := by
  simp only [UpToDate, Written, kept] at written ⊢
  rw [written]

/-- A guard that is not written through is replaced by another one. -/
private theorem written_insert {g : Nat} {guard : Nat × Guard}
    (before : ∀ h, c.guards.get? g ≠ some (h, .cellRefMut true))
    (after : guard.2 ≠ .cellRefMut true) :
    (∃ j h, (c.guards.insert g guard).get? j = some (h, .cellRefMut true)) ↔ c.Written := by
  simp only [Written, OrderedMap.get?_insert]
  constructor
  · rintro ⟨j, h, found⟩
    split at found
    · cases found
      exact absurd rfl after
    · exact ⟨j, h, found⟩
  · rintro ⟨j, h, found⟩
    refine ⟨j, h, ?_⟩
    have other : j ≠ g := by
      rintro rfl
      exact before h found
    rw [if_neg other, found]

private theorem written_erase {g : Nat}
    (before : ∀ h, c.guards.get? g ≠ some (h, .cellRefMut true)) :
    (∃ j h, (c.guards.erase g).get? j = some (h, .cellRefMut true)) ↔ c.Written := by
  simp only [Written, OrderedMap.get?_erase]
  constructor
  · rintro ⟨j, h, found⟩
    split at found
    · cases found
    · exact ⟨j, h, found⟩
  · rintro ⟨j, h, found⟩
    refine ⟨j, h, ?_⟩
    have other : j ≠ g := by
      rintro rfl
      exact before h found
    rw [if_neg other, found]

variable [Usize]

theorem notify {g h : Nat} (inv : c.Inv) (mutated : c.guards.get? g = some (h, .cellRefMut true)) :
    ({ c with
        event := Event.notify (.usize Usize.max) c.event
        guards := c.guards.insert g (h, .dropping) } : ObservableRefCell W T).UpToDate k ↔
      ¬c.Misses k (.dropGuard g) := by
  have announced : ¬({ c with
      event := Event.notify (.usize Usize.max) c.event
      guards := c.guards.insert g (h, .dropping) } : ObservableRefCell W T).Written := by
    rintro ⟨j, h', found⟩
    rw [OrderedMap.get?_insert] at found
    split at found
    · cases found
    next other =>
      -- the guard that notifies was alone
      rw [inv.alone mutated rfl other] at found
      cases found
  constructor
  · intro current misses
    cases misses with
    | change _ live yielded differs =>
      refine differs (current announced _ live (by simp [yielded]) ?_)
      simp [yielded, StreamState.Unread]
  · intro seen _ s found going sleeps
    have live : c.streams.get? k = some s := found
    cases state : s.state with
    | done => exact absurd state going
    | listening id =>
      -- every stream that listens is notified
      refine absurd ?_ sleeps
      rw [state]
      exact inv.streams.unread_notify rfl (by rw [states_of_get? live, state])
    | next =>
      by_contra differs
      exact seen (.change mutated live state differs)

theorem subscribe (inv : c.Inv) (current : c.UpToDate k) (h : Nat) :
    c.subscribe.UpToDate k ↔ ¬c.Misses k (.subscribe h) := by
  constructor
  · intro later misses
    cases misses with
    | subscribe new quiet refused =>
      subst new
      have blind : c.peek = none := (peek_eq inv).mpr refused
      have seen := later quiet _ (OrderedMap.get?_insert_self _ _ _) nofun
      simp only [StreamState.Unread, blind, reduceCtorEq, imp_false, not_not] at seen
      obtain ⟨id, ⟨⟩, notified⟩ := seen
      simp [ObservableRefCell.subscribe, Inner.listen, EventListener.isNotified,
        ListenerEntry.isNotified] at notified
  · intro seen quiet s live going sleeps
    simp only [ObservableRefCell.subscribe, OrderedMap.get?_insert] at live
    split at live
    next new =>
      cases live
      have free : ¬c.Refuses .cellRef := fun refused => seen (.subscribe new quiet refused)
      by_contra differs
      refine free ((peek_eq inv).mp ?_)
      simp only [peek, ObservableRefCell.subscribe] at differs ⊢
      split at differs
      · exact absurd rfl differs
      next cannot => rw [if_neg cannot]
    next =>
      apply current quiet s live going
      rintro ⟨id, listening, notified⟩
      have other := inv.streams.listener_ne (k := k) (by rw [states_of_get? live, listening])
      refine sleeps ⟨id, listening, ?_⟩
      simpa [ObservableRefCell.subscribe, Inner.listen, EventListener.isNotified,
        OrderedMap.get?_insert_of_ne _ _ other] using notified

theorem pollNext {j : Nat} {waker : W} {r : Res T} (inv : c.Inv) (current : c.UpToDate k)
    (taken : c.pollNext j waker = some (c', r)) :
    c'.UpToDate k ↔ ¬c.Misses k (.pollNext j waker) := by
  obtain ⟨s, result, event, state, live, rfl, polled, rfl⟩ := pollNext_spec inv taken
  constructor
  · intro later misses
    cases misses with
    | yield found unread quiet refused differs =>
      cases live.symm.trans found
      obtain ⟨id, listening, notified⟩ := unread
      have blind : c.peek = none := (peek_eq inv).mpr refused
      have seen := later quiet _ (OrderedMap.get?_insert_self _ _ _)
      generalize s.state = before at polled listening
      cases polled with
      | yields =>
        simp only [readAfter, blind] at seen
        exact differs (seen nofun (by simp [StreamState.Unread]))
      | waits empty | closes empty =>
        cases listening
        simp [EventListener.isNotified, empty, ListenerEntry.isNotified] at notified
      | rearms | abandons | ends | ended => cases listening
  · intro seen quiet t found going sleeps
    rw [OrderedMap.get?_insert] at found
    split at found
    next same =>
      subst same
      cases found
      generalize started : s.state = before at polled
      cases polled with
      | @yields id old data stored =>
        -- the observer looks, unless the cell refuses
        by_contra differs
        have unread : s.state.Unread c.event :=
          ⟨id, started, by simp [EventListener.isNotified, stored, ListenerEntry.isNotified]⟩
        have value : ∀ v, c.peek = some v → v = c.value := by
          intro v shown
          unfold peek at shown
          split at shown
          · exact (Option.some.inj shown).symm
          · cases shown
        cases shown : c.peek with
        | none =>
          simp only [readAfter, shown] at differs
          exact seen (.yield live unread quiet ((peek_eq inv).mp shown) differs)
        | some v =>
          simp only [readAfter, shown, Option.isSome_some, if_true] at differs
          exact differs (congrArg some (value v shown))
      | waits empty =>
        apply current quiet s live (by simp [started])
        rintro ⟨id, listening, notified⟩
        cases started.symm.trans listening
        simp [EventListener.isNotified, empty, ListenerEntry.isNotified] at notified
      | rearms =>
        exact current quiet s live (by simp [started]) (by simp [started, StreamState.Unread])
      | closes | abandons | ends | ended => exact absurd rfl going
    next differs =>
      exact current quiet t found going fun unread => sleeps
        (inv.streams.unread_poll (states_of_get? live) polled differs (states_of_get? found) unread)

theorem dropStream {j : Nat} {r : Res T} (inv : c.Inv) (current : c.UpToDate k)
    (taken : c.dropStream j = some (c', r)) : c'.UpToDate k := by
  obtain ⟨s, live, rfl, rfl⟩ := dropStream_spec taken
  intro quiet t found going sleeps
  rw [OrderedMap.get?_erase] at found
  split at found
  · cases found
  next differs =>
    exact current quiet t found going fun unread => sleeps
      (inv.streams.unread_drop (states_of_get? live) differs (states_of_get? found) unread)

/-- A call leaves an observer up to date exactly when the observer misses nothing. -/
theorem step {op : Op W T} {r : Res T} (inv : c.Inv) (current : c.UpToDate k)
    (taken : c.step op = some (c', r)) : c'.UpToDate k ↔ ¬c.Misses k op := by
  have fine : (c'.UpToDate k ↔ c.UpToDate k) → (∀ g, op = .dropGuard g →
      ∀ h, c.guards.get? g ≠ some (h, .cellRefMut true)) → (∀ j waker, op ≠ .pollNext j waker) →
      (∀ h, op ≠ .subscribe h) → (c'.UpToDate k ↔ ¬c.Misses k op) := by
    intro same guard poll subscribe
    refine iff_of_true (same.mpr current) fun misses => ?_
    cases misses with
    | change mutated => exact guard _ rfl _ mutated
    | yield => exact poll _ _ rfl
    | subscribe => exact subscribe _ rfl
  cases step_spec taken with
  | guarded asks held admitted =>
    refine fine (congr (written_insert ?_ ?_) fun _ => Iff.rfl) ?_ ?_ ?_
    · simp [inv.absent]
    · cases asks <;> simp
    all_goals cases asks <;> simp
  | refused asks =>
    refine fine Iff.rfl ?_ ?_ ?_
    all_goals cases asks <;> simp
  | @derefMut g h mutated value found =>
    refine iff_of_true (fun quiet => absurd ⟨g, h, ?_⟩ quiet) nofun
    exact OrderedMap.get?_insert_self _ _ _
  | unshare found =>
    refine fine (congr (written_erase ?_) fun _ => Iff.rfl) ?_ nofun nofun
    all_goals simp [found]
  | untouched found =>
    refine fine (congr (written_insert ?_ ?_) fun _ => Iff.rfl) ?_ nofun nofun
    all_goals simp [found]
  | notifies mutated => exact notify inv mutated
  | release found =>
    refine fine (congr (written_erase ?_) fun _ => Iff.rfl) nofun nofun nofun
    simp [found]
  | deref | clones | blind | gone => exact fine Iff.rfl nofun nofun nofun
  | subscribe => exact subscribe inv current _
  | pollNext quiet taken => exact pollNext inv current taken
  | dropStream quiet taken =>
    exact iff_of_true (dropStream inv current taken) nofun
  | upgrade => exact fine (congr Iff.rfl fun _ => Iff.rfl) nofun nofun nofun
  | dropHandle =>
    refine fine ?_ nofun nofun nofun
    unfold dropHandle
    refine congr Iff.rfl fun state => ?_
    split
    · exact Streams.unread_close
    · exact Iff.rfl

end UpToDate

section

variable [Usize]

/-- After a poll that returns `Pending` the stream listens, without a notification. -/
private theorem seen_of_pending {waker : W} {r : Res T} (inv : c.Inv)
    (taken : c.step (.pollNext k waker) = some (c', r)) (pending : r = .polled .pending)
    (current : c'.UpToDate k) (quiet : ¬c'.Written) :
    ∃ s, c'.streams.get? k = some s ∧ s.read = some c'.value := by
  cases step_spec taken with
  | guarded asks | refused asks => cases asks
  | pollNext _ taken =>
    obtain ⟨s, result, event, state, live, rfl, polled, rfl⟩ := pollNext_spec inv taken
    cases pending
    refine ⟨_, OrderedMap.get?_insert_self _ _ _, ?_⟩
    apply current quiet _ (OrderedMap.get?_insert_self _ _ _)
    · generalize s.state = before at polled
      cases polled <;> simp
    · rintro ⟨id, rfl, notified⟩
      simp [EventListener.isNotified, polled.listens.2, ListenerEntry.isNotified] at notified

/-- The observer of a stream is up to date along a run exactly when it misses nothing in it;
then it has seen the current value whenever the stream returns `Pending` and no guard has a
write still to announce. -/
theorem misses_nothing_iff {value : T} {ts} (run : (machine value).Run ts c) (k : Nat) :
    ((c.UpToDate k ∧ ∀ t ∈ ts, t.before.UpToDate k) ↔ ∀ t ∈ ts, ¬t.before.Misses k t.act) ∧
    ((∀ t ∈ ts, ¬t.before.Misses k t.act) → ∀ t ∈ ts, ∀ waker, t.act = .pollNext k waker →
      t.out = .polled .pending → ¬t.after.Written →
        ∃ s, t.after.streams.get? k = some s ∧ s.read = some t.after.value) := by
  have exact : (c.UpToDate k ∧ ∀ t ∈ ts, t.before.UpToDate k) ↔
      ∀ t ∈ ts, ¬t.before.Misses k t.act := by
    refine run.safe_iff_guard (fun c => c.Inv) (fun c => c.UpToDate k)
      (fun c op => ¬c.Misses k op) ?_ ?_ ?_
    · exact fun ts c run => Inv.of_run run
    · rintro _ rfl _ s live
      simp [ObservableRefCell.new] at live
    · exact fun c op c' r inv current taken => UpToDate.step inv current taken
  refine ⟨exact, fun seen t member waker poll pending quiet => ?_⟩
  obtain ⟨⟨earlier, prior⟩, taken⟩ := run.step_of_mem member
  have inv := Inv.of_run prior
  have current : t.after.UpToDate k :=
    (UpToDate.step inv ((exact.mpr seen).2 t member) taken).mpr (seen t member)
  exact seen_of_pending inv (poll ▸ taken) pending current quiet

end

/-- The change is announced to a stream that waits, whose subscriber looks when nobody writes. -/
theorem change_seen : ∃ ts, ∃ c : ObservableRefCell Nat Nat, (machine 0).Run ts c ∧
    ts.map Machine.Transition.act = [.subscribe 0, .pollNext 1 7, .borrowMut 0, .derefMut 2 5,
      .dropGuard 2, .release 2, .pollNext 1 7, .pollNext 1 7] ∧
    (∀ t ∈ ts, ¬t.before.Misses 1 t.act) ∧
    ∃ t ∈ ts, t.act = .pollNext 1 7 ∧ t.out = .polled .pending ∧ t.after.value = 5 ∧
      ∃ s, t.after.streams.get? 1 = some s ∧ s.read = some t.after.value := by
  obtain ⟨ts, c, run, acts, ⟨waiting, free⟩, t, member, act, out, quiet, value⟩ :=
    Machine.exists_run (m := machine (W := Nat) 0)
      (P := fun ts _ =>
        ((∀ t ∈ ts, t.act matches .dropGuard _ → t.before.states 1 ≠ some .next) ∧
          ∀ t ∈ ts, t.act matches .pollNext _ _ | .subscribe _ → t.before.peek ≠ none) ∧
        ∃ t ∈ ts, t.act = .pollNext 1 7 ∧ t.out = .polled .pending ∧
          t.after.guards.keys = [] ∧ t.after.value = 5)
      [.subscribe 0, .pollNext 1 7, .borrowMut 0, .derefMut 2 5, .dropGuard 2, .release 2,
        .pollNext 1 7, .pollNext 1 7] rfl (by decide)
  have seen : ∀ t ∈ ts, ¬t.before.Misses 1 t.act := by
    intro t member misses
    obtain ⟨⟨earlier, prior⟩, _⟩ := run.step_of_mem member
    have looks := peek_eq (Inv.of_run prior)
    generalize op : t.act = a at misses
    cases misses with
    | change mutated live yielded =>
      exact waiting t member (by rw [op]) (by rw [states_of_get? live, yielded])
    | yield live unread noone refused => exact free t member (by rw [op]) (looks.mpr refused)
    | subscribe new noone refused => exact free t member (by rw [op]) (looks.mpr refused)
  refine ⟨ts, c, run, acts, seen, t, member, act, out, value, ?_⟩
  apply (misses_nothing_iff run 1).2 seen t member 7 act out
  rintro ⟨g, h, found⟩
  have present := (OrderedMap.mem_keys_iff _ _).mpr ⟨_, found⟩
  rw [quiet] at present
  exact absurd present List.not_mem_nil

section

variable [Usize]

/-! ### Who is told of what -/

section

variable (c : ObservableRefCell W T) (k : Nat)

/-- The stream has been told and has not yielded since. -/
def unread : Bool := ((c.states k).map (StreamState.isUnread c.event)).getD false

variable (t : Machine.Transition (ObservableRefCell W T) (Op W T) (Res T))

def yields : Bool :=
  match t.act, t.out with
  | .pollNext j _, .polled result => j == k && result.yields
  | _, _ => false

/-- A guard that was written through goes while the stream waits, or a stream does that has
not yielded, and this one is the first that waits. -/
def told : Bool :=
  match t.before.states k, t.act with
  | some state, .dropGuard g =>
    match t.before.guards.get? g with
    | some (_, .cellRefMut true) => state.isWaiting t.before.event
    | _ => false
  | some state, .dropStream j =>
    t.before.unread j && state.isWaiting t.before.event &&
      t.before.event.waiting.head? == state.listener
  | _, _ => false

end

omit [Usize] in
theorem unread_of_get? {s : Observer T} (live : c.streams.get? k = some s) :
    c.unread k = s.state.isUnread c.event := by
  rw [unread, states_of_get? live]
  rfl

/-- One step of a stream's account. -/
private theorem account_step {op : Op W T} {r : Res T} {s s' : Observer T} (inv : c.Inv)
    (taken : c.step op = some (c', r)) (live : c.streams.get? k = some s)
    (still : c'.streams.get? k = some s') :
    (yields k ⟨c, op, r, c'⟩).toNat + (c'.unread k).toNat =
      (c.unread k).toNat + (told k ⟨c, op, r, c'⟩).toNat := by
  have before := states_of_get? live
  rw [unread_of_get? live, unread_of_get? still]
  cases step_spec taken with
  | guarded asks | refused asks =>
    cases live.symm.trans still
    cases asks <;> simp [yields, told, before, guarded]
  | deref | derefMut | release | clones | blind | gone | upgrade =>
    cases live.symm.trans still
    simp [yields, told, before]
  | unshare found | untouched found =>
    cases live.symm.trans still
    simp [yields, told, before, found]
  | notifies found =>
    cases live.symm.trans still
    have everybody := inv.streams.isUnread_notify (n := .usize Usize.max) rfl before
    simp [yields, told, before, found, everybody]
  | subscribe =>
    have old : k ≠ c.created := (inv.named k ((OrderedMap.mem_keys_iff _ _).mpr ⟨s, live⟩)).ne
    rw [subscribe, OrderedMap.get?_insert_of_ne _ _ old] at still
    cases live.symm.trans still
    have kept := inv.streams.isUnread_listen before
    simp [yields, told, before, subscribe, kept]
  | @pollNext j waker _ _ quiet taken =>
    obtain ⟨x, result, event, state, found, rfl, polled, rfl⟩ := pollNext_spec inv taken
    rw [OrderedMap.get?_insert] at still
    split at still
    next own =>
      cases still
      cases (own ▸ live).symm.trans found
      have account := polled.account
      simp [yields, told, own, account]
    next apart =>
      cases live.symm.trans still
      have kept := inv.streams.isUnread_poll (states_of_get? found) polled apart before
      simp [yields, told, before, kept, Ne.symm apart]
  | @dropStream j _ _ quiet taken =>
    obtain ⟨x, found, rfl, rfl⟩ := dropStream_spec taken
    rw [OrderedMap.get?_erase] at still
    split at still
    · cases still
    next apart =>
      cases live.symm.trans still
      have handed := inv.streams.isUnread_drop (states_of_get? found) apart before
      simp [yields, told, before, unread_of_get? found, handed]
  | dropHandle =>
    cases live.symm.trans still
    simp only [yields, told, before, dropHandle]
    split <;> simp [Streams.isUnread_close]

/-- A stream that is not there takes no part, and begins with nothing to yield. -/
private theorem account_new {op : Op W T} {r : Res T} (inv : c.Inv)
    (taken : c.step op = some (c', r)) (absent : c.streams.get? k = none) :
    yields k ⟨c, op, r, c'⟩ = false ∧ told k ⟨c, op, r, c'⟩ = false ∧
      ∀ s, c'.streams.get? k = some s → k = c.created ∧ c'.unread k = false := by
  have nobody : c.states k = none := by rw [states, absent, Option.map_none]
  have same : c'.streams.get? k = c.streams.get? k →
      ∀ s, c'.streams.get? k = some s → k = c.created ∧ c'.unread k = false := by
    intro same s found
    rw [same, absent] at found
    cases found
  cases step_spec taken with
  | guarded asks | refused asks => cases asks <;> simp [yields, told, nobody, guarded, absent]
  | pollNext quiet taken =>
    obtain ⟨x, result, event, state, found, rfl, polled, rfl⟩ := pollNext_spec inv taken
    have apart : ∀ j, c.streams.get? j = some x → k ≠ j := by
      rintro j found rfl
      cases absent.symm.trans found
    have apart := apart _ found
    refine ⟨by simp [yields, Ne.symm apart], by simp [told, nobody], same ?_⟩
    exact OrderedMap.get?_insert_of_ne _ _ apart
  | dropStream quiet taken =>
    obtain ⟨x, found, rfl, rfl⟩ := dropStream_spec taken
    refine ⟨rfl, by simp [told, nobody], same ?_⟩
    rw [OrderedMap.get?_erase, absent, ite_self]
  | subscribe =>
    refine ⟨rfl, by simp [told, nobody], fun s found => ?_⟩
    by_cases new : k = c.created
    · subst new
      refine ⟨rfl, ?_⟩
      simp [unread, states, subscribe, StreamState.isUnread, Inner.listen,
        EventListener.isNotified, ListenerEntry.isNotified]
    · rw [subscribe, OrderedMap.get?_insert_of_ne _ _ new, absent] at found
      cases found
  | dropHandle => exact ⟨rfl, by simp [told, nobody], same rfl⟩
  | _ => exact ⟨rfl, by simp [told, nobody], same rfl⟩

/-- A stream has yielded once for each time it was told, but for the last if that is still
to come. -/
theorem told_exactly {value : T} {ts} (run : (machine value).Run ts c) {s : Observer T}
    (live : c.streams.get? k = some s) :
    ts.countP (yields k) + (c.unread k).toNat = ts.countP (told k) := by
  have account : (c.created ≤ k → ts.countP (yields k) = 0 ∧ ts.countP (told k) = 0) ∧
      ∀ s, c.streams.get? k = some s →
        ts.countP (yields k) + (c.unread k).toNat = ts.countP (told k) := by
    clear live
    induction run with
    | start initial =>
      cases initial
      simp [ObservableRefCell.new]
    | @next ts c op c' r prior taken ih =>
      have inv := Inv.of_run prior
      simp only [List.countP_append, List.countP_singleton]
      refine ⟨fun later => ?_, fun s' still => ?_⟩
      · have fresh := (created_le inv taken).trans later
        have absent : c.streams.get? k = none := by
          rw [OrderedMap.get?_eq_none_iff]
          exact fun member => absurd (inv.named k member) fresh.not_gt
        obtain ⟨silent, untold, _⟩ := account_new inv taken absent
        simp [ih.1 fresh, silent, untold]
      · cases before : c.streams.get? k with
        | none =>
          obtain ⟨silent, untold, new⟩ := account_new inv taken before
          obtain ⟨rfl, read⟩ := new s' still
          simp [ih.1 le_rfl, silent, untold, read]
        | some s =>
          have step := account_step inv taken before still
          have sofar := ih.2 s before
          simp only [Bool.toNat, Bool.cond_eq_ite] at step sofar ⊢
          omega
  exact account.2 s live

end

/-- One change is told twice to the stream that yields and waits again before another one,
unread, goes. -/
theorem told_twice_of_one_change :
    ∃ ts, ∃ c : ObservableRefCell Nat Nat, (machine 0).Run ts c ∧
      ts.map Machine.Transition.act = [.subscribe 0, .subscribe 0, .borrowMut 0, .derefMut 3 5,
        .dropGuard 3, .release 3, .pollNext 2 7, .pollNext 2 7, .dropStream 1, .pollNext 2 7] ∧
      ts.countP (yields 2) = 2 ∧ ts.countP (told 2) = 2 := by
  obtain ⟨ts, c, run, acts, live, yielded, read⟩ :=
    Machine.exists_run (m := machine (W := Nat) 0)
      (P := fun ts c => (c.streams.get? 2).isSome ∧ ts.countP (yields 2) = 2 ∧
        c.unread 2 = false)
      [.subscribe 0, .subscribe 0, .borrowMut 0, .derefMut 3 5, .dropGuard 3, .release 3,
        .pollNext 2 7, .pollNext 2 7, .dropStream 1, .pollNext 2 7] rfl (by decide)
  obtain ⟨s, live⟩ := Option.isSome_iff_exists.mp live
  have told := told_exactly run live
  rw [yielded, read] at told
  exact ⟨ts, c, run, acts, yielded, told.symm⟩

section

variable [Usize]

/-! ### Wakers run before the value is free -/

private theorem refuses_of_dropping {g h : Nat} (dropping : c.guards.get? g = some (h, .dropping))
    (guard : Guard) : c.Refuses guard :=
  .inl ((OrderedMap.count_pos_iff _ _).mpr ⟨g, _, dropping, rfl⟩)

private theorem dropping_of_drop {g h : Nat} {mutated : Bool} {r : Res T}
    (taken : c.step (.dropGuard g) = some (c', r))
    (found : c.guards.get? g = some (h, .cellRefMut mutated)) :
    c'.guards.get? g = some (h, .dropping) := by
  cases step_spec taken with
  | guarded asks | refused asks => cases asks
  | unshare other => cases found.symm.trans other
  | untouched other | notifies other =>
    cases found.symm.trans other
    exact OrderedMap.get?_insert_self _ _ _

/-- A guard in `drop` stays until its `RefMut` is dropped. -/
private theorem dropping_step {g h : Nat} {op : Op W T} {r : Res T} (inv : c.Inv)
    (dropping : c.guards.get? g = some (h, .dropping)) (taken : c.step op = some (c', r))
    (held : op ≠ .release g) : c'.guards.get? g = some (h, .dropping) := by
  have still : ∀ {j guard}, c.guards.get? j = some guard → guard.2 ≠ .dropping → g ≠ j := by
    rintro j guard found other rfl
    cases dropping.symm.trans found
    exact other rfl
  cases step_spec taken with
  | guarded =>
    have old : g ≠ c.created := by
      rintro rfl
      rw [inv.absent] at dropping
      cases dropping
    exact (OrderedMap.get?_insert_of_ne _ _ old).trans dropping
  | derefMut found | untouched found | notifies found =>
    exact (OrderedMap.get?_insert_of_ne _ _ (still found nofun)).trans dropping
  | unshare found => exact (OrderedMap.get?_erase_of_ne _ (still found nofun)).trans dropping
  | release found =>
    have other : g ≠ _ := fun same => held (congrArg Op.release same.symm)
    exact (OrderedMap.get?_erase_of_ne _ other).trans dropping
  | pollNext quiet taken =>
    obtain ⟨_, _, _, _, _, rfl, _, rfl⟩ := pollNext_spec inv taken
    exact dropping
  | dropStream quiet taken =>
    obtain ⟨_, _, rfl, rfl⟩ := dropStream_spec taken
    exact dropping
  | refused | deref | clones | blind | subscribe | gone | upgrade | dropHandle => exact dropping

private theorem woken_step {op : Op W T} {r : Res T} (inv : c.Inv)
    (taken : c.step op = some (c', r)) (wakes : c'.event.woken ≠ c.event.woken) :
    (∃ g h, op = .dropGuard g ∧ c.guards.get? g = some (h, .cellRefMut true)) ∨
      (∃ j, op = .dropStream j ∧ c.unread j = true) ∨
        ∃ h, op = .dropHandle h ∧ c'.handles = [] := by
  cases step_spec taken with
  | notifies found => exact .inl ⟨_, _, rfl, found⟩
  | @dropStream j _ _ quiet taken =>
    obtain ⟨s, live, rfl, rfl⟩ := dropStream_spec taken
    refine .inr (.inl ⟨j, rfl, ?_⟩)
    rw [unread_of_get? live]
    by_contra quiet
    apply wakes
    cases state : s.state with
    | listening id =>
      obtain ⟨⟨old, value⟩, stored⟩ := inv.streams.present j id (by rw [states_of_get? live, state])
      cases value with
      | none =>
        simp [StreamState.drop, StreamState.listener, EventListener.drop_waiting stored,
          Inner.forget]
      | some tag =>
        simp [state, StreamState.isUnread, EventListener.isNotified, stored,
          ListenerEntry.isNotified] at quiet
    | next | done => rfl
  | @dropHandle h held free =>
    refine .inr (.inr ⟨h, rfl, ?_⟩)
    by_contra others
    have kept : (c.dropHandle h).event = c.event := if_neg others
    exact wakes (by rw [kept])
  | pollNext quiet taken =>
    obtain ⟨_, _, _, _, _, rfl, polled, rfl⟩ := pollNext_spec inv taken
    exact absurd polled.woken wakes
  | _ => exact absurd rfl wakes

/-- Wakers run when a change is announced, when a stream goes unread and when the last handle
does; those of a change find a cell that refuses every guard until the `RefMut` is dropped. -/
theorem wakers_find_it_borrowed {value : T} {ts} (run : (machine value).Run ts c) :
    (∀ t ∈ ts, t.after.event.woken ≠ t.before.event.woken →
      (∃ g h, t.act = .dropGuard g ∧ t.before.guards.get? g = some (h, .cellRefMut true)) ∨
        (∃ j, t.act = .dropStream j ∧ t.before.unread j = true) ∨
          ∃ h, t.act = .dropHandle h ∧ t.after.handles = []) ∧
    ∀ before (t : Machine.Transition (ObservableRefCell W T) (Op W T) (Res T)) later g h mutated,
      ts = before ++ t :: later → t.act = .dropGuard g →
      t.before.guards.get? g = some (h, .cellRefMut mutated) →
      (∀ u ∈ later, u.act ≠ .release g) →
        (∀ guard, c.Refuses guard) ∧
        ∀ u ∈ later, ∀ h guard panics, Asks u.act h guard panics →
          u.out = if panics then .panicked else .guard none := by
  constructor
  · intro t member wakes
    obtain ⟨⟨earlier, prior⟩, taken⟩ := run.step_of_mem member
    exact woken_step (Inv.of_run prior) taken wakes
  · rintro before t later g h mutated rfl drops found
    have since : (∀ u ∈ later, u.act ≠ .release g) → c.guards.get? g = some (h, .dropping) ∧
        ∀ u ∈ later, ∀ h guard panics, Asks u.act h guard panics →
          u.out = if panics then .panicked else .guard none := by
      refine run.since (P := fun us c => (∀ u ∈ us, u.act ≠ .release g) →
        c.guards.get? g = some (h, .dropping) ∧ ∀ u ∈ us, ∀ h guard panics,
          Asks u.act h guard panics → u.out = if panics then .panicked else .guard none) ?_ ?_
      · exact fun prior taken _ => ⟨dropping_of_drop (drops ▸ taken) found, by simp⟩
      · intro us u prior ih taken held
        simp only [List.mem_append, List.mem_singleton, or_imp, forall_and, forall_eq] at held ⊢
        obtain ⟨dropping, refused⟩ := ih held.1
        have inv := Inv.of_run prior
        refine ⟨dropping_step inv dropping taken held.2, refused, fun _ guard _ asks => ?_⟩
        rcases asked asks taken with ⟨given, _⟩ | ⟨_, out⟩
        · exact absurd (refuses_of_dropping dropping guard) ((lend_iff inv guard).mp given)
        · exact out
    intro held
    exact ⟨refuses_of_dropping (since held).1, (since held).2⟩

end

/-- A waker that asks for the value while it is told of a change. -/
theorem waker_refused :
    ∃ before : List (Machine.Transition (ObservableRefCell Nat Nat) (Op Nat Nat) (Res Nat)),
    ∃ t later c, (machine 0).Run (before ++ t :: later) c ∧
      before.map Machine.Transition.act =
        [.subscribe 0, .pollNext 1 7, .borrowMut 0, .derefMut 2 5] ∧
      t.act = .dropGuard 2 ∧ t.after.event.woken = [7] ∧
      later.map Machine.Transition.act = [.tryBorrow 0, .borrow 0] ∧
      later.map Machine.Transition.out = [.guard none, .panicked] ∧
      ∀ guard, c.Refuses guard := by
  obtain ⟨before, t, later, c, run, first, act, rest, woken, outs, found, held⟩ :=
    Machine.exists_run_at (m := machine (W := Nat) (0 : Nat))
      (P := fun _ t later _ => t.after.event.woken = [7] ∧
        later.map Machine.Transition.out = [.guard none, .panicked] ∧
        t.before.guards.get? 2 = some (0, .cellRefMut true) ∧ ∀ u ∈ later, u.act ≠ .release 2)
      [.subscribe 0, .pollNext 1 7, .borrowMut 0, .derefMut 2 5] (.dropGuard 2)
      [.tryBorrow 0, .borrow 0] rfl (by decide)
  have refuses := (wakers_find_it_borrowed run).2 before t later 2 0 true rfl act found held
  exact ⟨before, t, later, c, run, first, act, woken, rest, outs, refuses.1⟩

end Eneste.ObservableRefCell
