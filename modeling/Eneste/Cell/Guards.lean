import Eneste.Cell.ObservableRefCell

/-!
# The guards of an observable `RefCell`

Along every run the flag counts the guards, so that a guard to write through is alone. What
a `CellRef` shows does not change while it lives, and a panic or a `None` tells exactly that
another guard is in the way.
-/

namespace Eneste.ObservableRefCell

variable {W T : Type}

section

variable (c : ObservableRefCell W T)

def states (k : Nat) : Option StreamState := (c.streams.get? k).map Observer.state

/-- Guards that share the value. -/
def shared : Nat := c.guards.count fun g => g.2.shares

/-- Guards that have the value to themselves. -/
def exclusive : Nat := c.guards.count fun g => g.2.excludes

variable [Usize]

structure Inv : Prop where
  counted : BorrowFlag.Counts maxShared c.flag c.shared c.exclusive
  held : ∀ g handle guard, c.guards.get? g = some (handle, guard) → handle ∈ c.handles
  below : ∀ g ∈ c.guards.keys, g < c.created
  named : ∀ k ∈ c.streams.keys, k < c.created
  streams : Streams c.event c.states
  opened : c.event.closed = false ↔ c.handles ≠ []

end

variable {c c' : ObservableRefCell W T}

/-- The streams of a cell after one of them has changed. -/
private theorem states_insert {event : Inner W Unit} {created j k : Nat} {s : Observer T} :
    ({ c with event := event, streams := c.streams.insert k s, created := created } :
      ObservableRefCell W T).states j = if j = k then some s.state else c.states j := by
  simp only [states, OrderedMap.get?_insert]
  split <;> rfl

private theorem states_erase {event : Inner W Unit} {j k : Nat} :
    ({ c with event := event, streams := c.streams.erase k } : ObservableRefCell W T).states j =
      if j = k then none else c.states j := by
  simp only [states, OrderedMap.get?_erase]
  split <;> rfl

theorem states_of_get? {k : Nat} {s : Observer T} (live : c.streams.get? k = some s) :
    c.states k = some s.state := by
  rw [states, live, Option.map_some]

theorem dropStream_spec {k : Nat} {r : Res T} (taken : c.dropStream k = some (c', r)) :
    ∃ s, c.streams.get? k = some s ∧ r = .done ∧
      c' = { c with event := s.state.drop c.event, streams := c.streams.erase k } := by
  unfold dropStream at taken
  split at taken
  · cases taken
  next s live =>
    cases taken
    exact ⟨s, live, rfl, rfl⟩

section

variable [Usize] {op : Op W T} {r : Res T}

/-! ### What a call does -/

/-- How a guard is asked for. -/
inductive Asks : Op W T → Nat → Guard → Bool → Prop
  | borrow {h} : Asks (.borrow h) h .cellRef true
  | tryBorrow {h} : Asks (.tryBorrow h) h .cellRef false
  | borrowMut {h} : Asks (.borrowMut h) h (.cellRefMut false) true
  | tryBorrowMut {h} : Asks (.tryBorrowMut h) h (.cellRefMut false) false

/-- The flag with such a guard, if it can be had. -/
def lend (guard : Guard) (flag : Int) : Option Int :=
  if guard.shares then BorrowFlag.share maxShared flag else BorrowFlag.exclude flag

inductive Stepped (c : ObservableRefCell W T) : Op W T → ObservableRefCell W T → Res T → Prop
  | guarded {op h guard panics flag} (asks : Asks op h guard panics) (held : h ∈ c.handles)
      (admitted : lend guard c.flag = some flag) :
      Stepped c op (c.guarded flag h guard) (.guard (some c.created))
  | refused {op h guard panics} (asks : Asks op h guard panics) (held : h ∈ c.handles)
      (refused : lend guard c.flag = none) :
      Stepped c op c (if panics then .panicked else .guard none)
  | deref {g h guard} (found : c.guards.get? g = some (h, guard)) (usable : guard ≠ .dropping) :
      Stepped c (.deref g) c (.value c.value)
  | derefMut {g h mutated value} (found : c.guards.get? g = some (h, .cellRefMut mutated)) :
      Stepped c (.derefMut g value)
        { c with value := value, guards := c.guards.insert g (h, .cellRefMut true) } .done
  | unshare {g h} (found : c.guards.get? g = some (h, .cellRef)) :
      Stepped c (.dropGuard g)
        { c with flag := BorrowFlag.unshare c.flag, guards := c.guards.erase g } .done
  | untouched {g h} (found : c.guards.get? g = some (h, .cellRefMut false)) :
      Stepped c (.dropGuard g) { c with guards := c.guards.insert g (h, .dropping) } .done
  | notifies {g h} (found : c.guards.get? g = some (h, .cellRefMut true)) :
      Stepped c (.dropGuard g)
        { c with
          event := Event.notify (.usize Usize.max) c.event
          guards := c.guards.insert g (h, .dropping) } .done
  | release {g h} (found : c.guards.get? g = some (h, .dropping)) :
      Stepped c (.release g)
        { c with flag := BorrowFlag.unexclude c.flag, guards := c.guards.erase g } .done
  | clones {h value} (held : h ∈ c.handles) (seen : c.peek = some value) :
      Stepped c (.clone h) c (.value value)
  | blind {h} (held : h ∈ c.handles) (unseen : c.peek = none) : Stepped c (.clone h) c .panicked
  | subscribe {h} (held : h ∈ c.handles) (quiet : c.notifying = false) :
      Stepped c (.subscribe h) c.subscribe (.subscribed c.created)
  | pollNext {k waker c' r} (quiet : c.notifying = false)
      (taken : c.pollNext k waker = some (c', r)) : Stepped c (.pollNext k waker) c' r
  | dropStream {k c' r} (quiet : c.notifying = false)
      (taken : c.dropStream k = some (c', r)) : Stepped c (.dropStream k) c' r
  | gone (dead : c.handles = []) : Stepped c .upgrade c (.upgraded none)
  | upgrade (alive : c.handles ≠ []) :
      Stepped c .upgrade
        { c with handles := c.handles ++ [c.created], created := c.created + 1 }
        (.upgraded (some c.created))
  | dropHandle {h} (held : h ∈ c.handles) (free : ∀ e ∈ c.guards.entries, e.2.1 ≠ h) :
      Stepped c (.dropHandle h) (c.dropHandle h) .done

/-- The four ways of asking differ in the guard and in what is said if there is none. -/
theorem step_of_asks {h : Nat} {guard : Guard} {panics : Bool} (asks : Asks op h guard panics) :
    c.step op = if h ∈ c.handles then some ((lend guard c.flag).elim
      (c, if panics then .panicked else .guard none)
      fun flag => (c.guarded flag h guard, .guard (some c.created))) else none := by
  cases asks with
  | borrow | tryBorrow =>
    simp only [step, tryBorrow, lend, Guard.shares, ite_true]
    cases BorrowFlag.share maxShared c.flag <;> rfl
  | borrowMut | tryBorrowMut =>
    simp only [step, tryBorrowMut, lend, Guard.shares, Bool.false_eq_true, ite_false]
    cases BorrowFlag.exclude c.flag <;> rfl

theorem asks_spec {h : Nat} {guard : Guard} {panics : Bool} (asks : Asks op h guard panics)
    (taken : c.step op = some (c', r)) : Stepped c op c' r := by
  rw [step_of_asks asks] at taken
  split at taken
  next held =>
    cases admitted : lend guard c.flag with
    | none =>
      simp only [admitted, Option.elim_none] at taken
      cases taken
      exact .refused asks held admitted
    | some flag =>
      simp only [admitted, Option.elim_some] at taken
      cases taken
      exact .guarded asks held admitted
  next => cases taken

theorem step_spec (taken : c.step op = some (c', r)) : Stepped c op c' r := by
  cases op with
  | borrow h => exact asks_spec .borrow taken
  | tryBorrow h => exact asks_spec .tryBorrow taken
  | borrowMut h => exact asks_spec .borrowMut taken
  | tryBorrowMut h => exact asks_spec .tryBorrowMut taken
  | deref g =>
    simp only [step] at taken
    split at taken
    next h found =>
      cases taken
      exact .deref found nofun
    next h mutated found =>
      cases taken
      exact .deref found nofun
    next => cases taken
  | derefMut g value =>
    simp only [step] at taken
    split at taken
    next h mutated found =>
      cases taken
      exact .derefMut found
    next => cases taken
  | dropGuard g =>
    simp only [step, dropGuard] at taken
    split at taken
    next h found =>
      cases taken
      exact .unshare found
    next h mutated found =>
      cases taken
      cases mutated with
      | true => exact .notifies found
      | false => exact .untouched found
    next => cases taken
  | release g =>
    simp only [step] at taken
    split at taken
    next h found =>
      cases taken
      exact .release found
    next => cases taken
  | clone h =>
    simp only [step] at taken
    split at taken
    next held =>
      split at taken
      next unseen =>
        cases taken
        exact .blind held unseen
      next value seen =>
        cases taken
        exact .clones held seen
    next => cases taken
  | subscribe h =>
    simp only [step] at taken
    split at taken
    next legal =>
      cases taken
      exact .subscribe legal.1 legal.2
    next => cases taken
  | pollNext k waker =>
    simp only [step] at taken
    split at taken
    · cases taken
    next quiet => exact .pollNext (by simpa using quiet) taken
  | dropStream k =>
    simp only [step] at taken
    split at taken
    · cases taken
    next quiet => exact .dropStream (by simpa using quiet) taken
  | upgrade =>
    simp only [step] at taken
    split at taken
    next dead =>
      cases taken
      exact .gone dead
    next alive =>
      cases taken
      exact .upgrade alive
  | dropHandle h =>
    simp only [step] at taken
    split at taken
    next legal =>
      cases taken
      exact .dropHandle legal.1 legal.2
    next => cases taken

/-! ### The invariant -/

/-- A stream is polled: what it returns and what it leaves. -/
theorem pollNext_spec (inv : c.Inv) {k : Nat} {waker : W}
    (taken : c.pollNext k waker = some (c', r)) :
    ∃ s result event state, c.streams.get? k = some s ∧ r = .polled result ∧
      StreamPolled c.alive waker c.event s.state result event state ∧
      c' = { c with
        event := event
        streams := c.streams.insert k ⟨state, c.readAfter s result⟩ } := by
  unfold pollNext at taken
  split at taken
  · cases taken
  next s live =>
    split at taken
    · cases taken
    next result event state polled =>
      cases taken
      refine ⟨s, result, event, state, live, rfl, ?_, rfl⟩
      refine streamPoll_spec c.alive waker (fun id listening => ?_) polled
      exact inv.streams.present k id (by rw [states_of_get? live, listening])

namespace Inv

theorem new (value : T) : (ObservableRefCell.new value : ObservableRefCell W T).Inv where
  counted := BorrowFlag.Counts.unused
  held := by simp [ObservableRefCell.new]
  below := by simp [ObservableRefCell.new, OrderedMap.keys, OrderedMap.empty]
  named := by simp [ObservableRefCell.new, OrderedMap.keys, OrderedMap.empty]
  streams := Streams.new
  opened := by simp [ObservableRefCell.new, Event.new]

/-- Only the value and its guards have changed. -/
private theorem reguard (inv : c.Inv) {value : T} {flag : Int}
    {guards : OrderedMap Nat (Nat × Guard)} (created : Nat)
    (counted : BorrowFlag.Counts maxShared flag (guards.count fun g => g.2.shares)
      (guards.count fun g => g.2.excludes))
    (held : ∀ g handle guard, guards.get? g = some (handle, guard) → handle ∈ c.handles)
    (below : ∀ g ∈ guards.keys, g < created) (later : c.created ≤ created) :
    ({ c with value := value, flag := flag, guards := guards, created := created } :
      ObservableRefCell W T).Inv :=
  ⟨counted, held, below, fun k member => (inv.named k member).trans_le later, inv.streams,
    inv.opened⟩

/-- A guard goes over into another one of the same kind. -/
private theorem regroup (inv : c.Inv) {g h : Nat} {old : Guard} (new : Guard)
    (found : c.guards.get? g = some (h, old)) (shares : new.shares = old.shares)
    (excludes : new.excludes = old.excludes) (value : T) :
    ({ c with value := value, guards := c.guards.insert g (h, new) } :
      ObservableRefCell W T).Inv := by
  apply inv.reguard c.created
  · have before := inv.counted
    rw [shared, exclusive, OrderedMap.count_erase _ _ found, OrderedMap.count_erase _ _ found]
      at before
    simpa only [OrderedMap.count_insert, shares, excludes] using before
  · intro j handle guard at_j
    rw [OrderedMap.get?_insert] at at_j
    split at at_j
    · cases at_j
      exact inv.held g h old found
    · exact inv.held j handle guard at_j
  · intro j member
    rcases (OrderedMap.mem_keys_insert _ _ _ _).mp member with same | before
    · exact same ▸ inv.below g ((OrderedMap.mem_keys_iff _ _).mpr ⟨_, found⟩)
    · exact inv.below j before
  · exact le_rfl

/-- A guard is gone. -/
private theorem unguard (inv : c.Inv) {g : Nat} {flag : Int}
    (counted : BorrowFlag.Counts maxShared flag
      ((c.guards.erase g).count fun g => g.2.shares)
      ((c.guards.erase g).count fun g => g.2.excludes)) :
    ({ c with flag := flag, guards := c.guards.erase g } : ObservableRefCell W T).Inv := by
  apply inv.reguard c.created counted
  · intro j handle guard at_j
    rw [OrderedMap.get?_erase] at at_j
    split at at_j
    · cases at_j
    · exact inv.held j handle guard at_j
  · exact fun j member => inv.below j ((OrderedMap.mem_keys_erase _ _ _).mp member).2
  · exact le_rfl

theorem absent (inv : c.Inv) : c.guards.get? c.created = none := by
  rw [OrderedMap.get?_eq_none_iff]
  exact fun member => lt_irrefl _ (inv.below _ member)

private theorem guarded (inv : c.Inv) {h : Nat} {guard : Guard} {flag : Int}
    (held : h ∈ c.handles) (fresh : guard ≠ .dropping) (admitted : lend guard c.flag = some flag) :
    (c.guarded flag h guard).Inv := by
  have erased := OrderedMap.erase_of_get?_none _ inv.absent
  apply inv.reguard
  · simp only [OrderedMap.count_insert, erased]
    cases guard with
    | cellRef => exact inv.counted.share admitted
    | cellRefMut => exact inv.counted.exclude admitted
    | dropping => exact absurd rfl fresh
  · intro j handle other at_j
    rw [OrderedMap.get?_insert] at at_j
    split at at_j
    · cases at_j
      exact held
    · exact inv.held j handle other at_j
  · intro j member
    rcases (OrderedMap.mem_keys_insert _ _ _ _).mp member with same | before
    · exact same ▸ Nat.lt_succ_self _
    · exact (inv.below j before).trans (Nat.lt_succ_self _)
  · exact Nat.le_succ _

theorem step (inv : c.Inv) (taken : c.step op = some (c', r)) : c'.Inv := by
  cases step_spec taken with
  | guarded asks held admitted => exact inv.guarded held (by cases asks <;> nofun) admitted
  | refused | deref | clones | blind | gone => exact inv
  | derefMut found => exact inv.regroup (.cellRefMut true) found rfl rfl _
  | @unshare g h found =>
    apply inv.unguard
    have before := inv.counted
    rw [shared, exclusive, OrderedMap.count_erase _ _ found, OrderedMap.count_erase _ _ found]
      at before
    exact before.unshare
  | untouched found => exact inv.regroup .dropping found rfl rfl c.value
  | notifies found =>
    have before := inv.regroup .dropping found rfl rfl c.value
    exact ⟨before.counted, before.held, before.below, before.named,
      before.streams.notify (.usize Usize.max), (by rw [Event.closed_notify]; exact before.opened)⟩
  | @release g h found =>
    apply inv.unguard
    have before := inv.counted
    rw [shared, exclusive, OrderedMap.count_erase _ _ found, OrderedMap.count_erase _ _ found]
      at before
    exact before.unexclude
  | subscribe =>
    refine ⟨inv.counted, inv.held, fun g member => (inv.below g member).trans (Nat.lt_succ_self _),
      fun k member => ?_, ?_, inv.opened⟩
    · rcases (OrderedMap.mem_keys_insert _ _ _ _).mp member with same | before
      · exact same ▸ Nat.lt_succ_self _
      · exact (inv.named k before).trans (Nat.lt_succ_self _)
    · apply inv.streams.subscribe
      · exact states_insert.trans (if_pos rfl)
      · exact fun j other => states_insert.trans (if_neg other)
  | pollNext quiet taken =>
    obtain ⟨s, result, event, state, live, rfl, polled, rfl⟩ := pollNext_spec inv taken
    refine ⟨inv.counted, inv.held, inv.below, fun j member => ?_, ?_, ?_⟩
    · rcases (OrderedMap.mem_keys_insert _ _ _ _).mp member with rfl | before
      · exact inv.named _ ((OrderedMap.mem_keys_iff _ _).mpr ⟨s, live⟩)
      · exact inv.named j before
    · apply inv.streams.poll (states_of_get? live) polled
      · exact states_insert.trans (if_pos rfl)
      · exact fun j other => states_insert.trans (if_neg other)
    · rw [polled.closed]
      exact inv.opened
  | dropStream quiet taken =>
    obtain ⟨s, live, rfl, rfl⟩ := dropStream_spec taken
    refine ⟨inv.counted, inv.held, inv.below, fun k member => ?_, ?_, ?_⟩
    · exact inv.named k ((OrderedMap.mem_keys_erase _ _ _).mp member).2
    · apply inv.streams.drop (states_of_get? live)
      · exact states_erase.trans (if_pos rfl)
      · exact fun j other => states_erase.trans (if_neg other)
    · rw [s.state.closed_drop]
      exact inv.opened
  | upgrade alive =>
    exact ⟨inv.counted, fun g h guard found => List.mem_append_left _ (inv.held g h guard found),
      fun g member => (inv.below g member).trans (Nat.lt_succ_self _),
      fun k member => (inv.named k member).trans (Nat.lt_succ_self _), inv.streams,
      iff_of_true (inv.opened.mpr alive) (by simp)⟩
  | @dropHandle h held free =>
    have kept : ∀ g handle guard, c.guards.get? g = some (handle, guard) →
        handle ∈ c.handles.erase h := by
      intro g handle guard found
      have other : handle ≠ h := free _ ((OrderedMap.get?_eq_some_iff _ _ _).mp found)
      exact (List.mem_erase_of_ne other).mpr (inv.held g handle guard found)
    have before := inv.opened.mpr (List.ne_nil_of_mem held)
    refine ⟨inv.counted, kept, inv.below, inv.named, ?_, ?_⟩
    · simp only [ObservableRefCell.dropHandle]
      split
      · exact inv.streams.close
      · exact inv.streams
    · simp only [ObservableRefCell.dropHandle]
      split
      next last => simp [last, Event.drop_eq]
      next others => exact iff_of_true before others

theorem of_run {value : T} {ts} (run : (machine value).Run ts c) : c.Inv := by
  refine run.history (P := fun _ c => c.Inv) ?_ fun _ _ _ _ _ inv taken => inv.step taken
  rintro _ rfl
  exact new value

/-- A guard that has the value to itself is the only one. -/
theorem alone (inv : c.Inv) {g j h : Nat} {guard : Guard}
    (found : c.guards.get? j = some (h, guard)) (excludes : guard.excludes = true)
    (other : g ≠ j) : c.guards.get? g = none := by
  have counted := inv.counted
  rw [shared, exclusive, OrderedMap.count_erase _ _ found, OrderedMap.count_erase _ _ found]
    at counted
  have nobody : (c.guards.erase j).count (fun x => x.2.excludes) = 0 ∧
      (c.guards.erase j).count (fun x => x.2.shares) = 0 := by
    have one := counted.one
    have alone := counted.alone
    simp only [excludes, ite_true] at one alone
    omega
  by_contra present
  obtain ⟨⟨h', guard'⟩, here⟩ := Option.ne_none_iff_exists'.mp present
  have left : (c.guards.erase j).get? g = some (h', guard') :=
    (OrderedMap.get?_erase_of_ne _ other).trans here
  cases kind : guard'.shares with
  | true => exact absurd nobody.2 ((OrderedMap.count_pos_iff _ _).mpr ⟨g, _, left, kind⟩).ne'
  | false =>
    have excludes' : guard'.excludes = true := by
      cases guard' with
      | cellRef => cases kind
      | cellRefMut | dropping => rfl
    exact absurd nobody.1 ((OrderedMap.count_pos_iff _ _).mpr ⟨g, _, left, excludes'⟩).ne'

end Inv

/-! ### What guards are given, and what they show -/

/-- Other guards are in the way of such a one. -/
def Refuses (c : ObservableRefCell W T) (guard : Guard) : Prop :=
  0 < c.exclusive ∨ if guard.shares then c.shared = maxShared else 0 < c.shared

theorem lend_iff (inv : c.Inv) (guard : Guard) :
    (lend guard c.flag).isSome ↔ ¬c.Refuses guard := by
  have counted := inv.counted
  have bounded := counted.bounded
  unfold lend Refuses
  split
  next shares =>
    rw [counted.share_iff]
    omega
  next =>
    rw [counted.exclude_iff]
    omega

theorem peek_eq (inv : c.Inv) : c.peek = none ↔ c.Refuses .cellRef := by
  have admits := lend_iff inv .cellRef
  simp only [lend, Guard.shares, ite_true] at admits
  unfold peek
  split
  next can => simp [admits.mp can]
  next cannot => simpa using not_not.mp (cannot ∘ admits.mpr)

/-- What was written last through a guard. -/
def written (g : Nat) (value : T)
    (ts : List (Machine.Transition (ObservableRefCell W T) (Op W T) (Res T))) : T :=
  ts.foldl (fun value t =>
    match t.act with
    | .derefMut guard new => if guard = g then new else value
    | _ => value) value

/-- The guard is there to be used, and shows what was written through it. -/
private theorem shows_step (inv : c.Inv) {g h : Nat} {guard : Guard} {value : T}
    (shows : ∀ h guard, c.guards.get? g = some (h, guard) → guard ≠ .dropping → c.value = value)
    (old : g < c.created) (taken : c.step op = some (c', r))
    (found : c'.guards.get? g = some (h, guard)) (usable : guard ≠ .dropping) :
    c'.value = written g value [⟨c, op, r, c'⟩] := by
  cases step_spec taken with
  | guarded asks =>
    rw [guarded, OrderedMap.get?_insert_of_ne _ _ old.ne] at found
    cases asks <;> exact shows h guard found usable
  | refused asks => cases asks <;> exact shows h guard found usable
  | @derefMut j h' mutated new at_j =>
    by_cases own : g = j
    · simp [written, own]
    · -- there is no other guard than the one that writes
      rw [OrderedMap.get?_insert_of_ne _ _ own, inv.alone at_j rfl own] at found
      cases found
  | @unshare j h' at_j | @release j h' at_j =>
    by_cases own : g = j
    · subst own
      rw [OrderedMap.get?_erase_self] at found
      cases found
    · rw [OrderedMap.get?_erase_of_ne _ own] at found
      exact shows h guard found usable
  | @untouched j h' at_j | @notifies j h' at_j =>
    by_cases own : g = j
    · subst own
      rw [OrderedMap.get?_insert_self] at found
      cases found
      exact absurd rfl usable
    · rw [OrderedMap.get?_insert_of_ne _ _ own] at found
      exact shows h guard found usable
  | pollNext quiet taken =>
    obtain ⟨s, result, event, state, live, rfl, polled, rfl⟩ := pollNext_spec inv taken
    exact shows h guard found usable
  | dropStream quiet taken =>
    obtain ⟨s, live, rfl, rfl⟩ := dropStream_spec taken
    exact shows h guard found usable
  | deref | clones | blind | subscribe | gone | upgrade | dropHandle =>
    exact shows h guard found usable

theorem asked {h : Nat} {guard : Guard} {panics : Bool} (asks : Asks op h guard panics)
    (taken : c.step op = some (c', r)) :
    (lend guard c.flag).isSome ∧ r = .guard (some c.created) ∨
      lend guard c.flag = none ∧ r = if panics then .panicked else .guard none := by
  cases step_spec taken with
  | guarded asks' held admitted =>
    cases asks <;> cases asks' <;> exact .inl ⟨by simp [admitted], rfl⟩
  | refused asks' held refused =>
    cases asks <;> cases asks' <;> exact .inr ⟨refused, rfl⟩
  | _ => cases asks

private theorem cloned {h : Nat} (taken : c.step (.clone h) = some (c', r)) :
    r = .panicked ↔ c.peek = none := by
  cases step_spec taken with
  | guarded asks | refused asks => cases asks
  | clones held seen => simp [seen]
  | blind held unseen => simp [unseen]

theorem created_le (inv : c.Inv) (taken : c.step op = some (c', r)) :
    c.created ≤ c'.created := by
  cases step_spec taken with
  | pollNext quiet taken =>
    obtain ⟨s, result, event, state, live, rfl, polled, rfl⟩ := pollNext_spec inv taken
    exact le_rfl
  | dropStream quiet taken =>
    obtain ⟨s, live, rfl, rfl⟩ := dropStream_spec taken
    exact le_rfl
  | guarded | subscribe | upgrade => exact Nat.le_succ _
  | _ => exact le_rfl

/-- A name that is given to a guard was not used before. -/
private theorem created_of_guard {g : Nat} (inv : c.Inv)
    (taken : c.step op = some (c', .guard (some g))) : g < c'.created := by
  generalize made : (.guard (some g) : Res T) = r at taken
  cases step_spec taken with
  | guarded =>
    cases made
    exact Nat.lt_succ_self _
  | @refused _ _ _ panics => cases panics <;> cases made
  | pollNext quiet taken =>
    obtain ⟨_, _, _, _, _, rfl, _⟩ := pollNext_spec inv taken
    cases made
  | dropStream quiet taken =>
    obtain ⟨_, _, rfl, _⟩ := dropStream_spec taken
    cases made
  | _ => cases made

/-- A guard is given unless the others rule it out, whoever holds them; and while it lives,
the value is what it found, or what was last written through it. -/
theorem borrows_checked {value : T} {ts} (run : (machine value).Run ts c) :
    (c.exclusive ≤ 1 ∧ (0 < c.exclusive → c.shared = 0)) ∧
    (∀ t ∈ ts, ∀ h guard panics, Asks t.act h guard panics →
      (t.before.Refuses guard → t.out = if panics then .panicked else .guard none) ∧
      (¬t.before.Refuses guard → t.out = .guard (some t.before.created))) ∧
    (∀ t ∈ ts, ∀ h, t.act = .clone h →
      (t.out = .panicked ↔ t.before.Refuses .cellRef)) ∧
    ∀ before (t : Machine.Transition (ObservableRefCell W T) (Op W T) (Res T)) later g h guard,
      ts = before ++ t :: later → t.out = .guard (some g) →
      c.guards.get? g = some (h, guard) → guard ≠ .dropping →
        c.value = written g t.after.value later := by
  have inv := Inv.of_run run
  refine ⟨⟨inv.counted.one, fun some_one => inv.counted.alone ?_⟩, ?_, ?_, ?_⟩
  · have one := inv.counted.one
    omega
  · intro t member h guard panics asks
    obtain ⟨⟨earlier, prior⟩, taken⟩ := run.step_of_mem member
    have admits := lend_iff (Inv.of_run prior) guard
    rcases asked asks taken with ⟨given, out⟩ | ⟨refused, out⟩
    · exact ⟨fun refuses => absurd refuses (admits.mp given), fun _ => out⟩
    · rw [refused] at admits
      exact ⟨fun _ => out, fun admitted => absurd (admits.mpr admitted) (by simp)⟩
  · intro t member h clones
    obtain ⟨⟨earlier, prior⟩, taken⟩ := run.step_of_mem member
    rw [← peek_eq (Inv.of_run prior)]
    exact cloned (clones ▸ taken)
  · rintro before t later g h guard rfl made found usable
    have since : g < c.created ∧ ∀ h guard, c.guards.get? g = some (h, guard) →
        guard ≠ .dropping → c.value = written g t.after.value later := by
      refine run.since (P := fun us c => g < c.created ∧ ∀ h guard,
        c.guards.get? g = some (h, guard) → guard ≠ .dropping →
          c.value = written g t.after.value us) ?_ ?_
      · exact fun prior taken =>
          ⟨created_of_guard (Inv.of_run prior) (made ▸ taken), fun _ _ _ _ => rfl⟩
      · rintro us u prior ⟨old, shows⟩ taken
        have inv := Inv.of_run prior
        refine ⟨old.trans_le (created_le inv taken), fun h guard found usable => ?_⟩
        rw [shows_step inv shows old taken found usable]
        simp only [written, List.foldl_append, List.foldl_cons, List.foldl_nil]
    exact since.2 h guard found usable

end

/-- Readers keep a writer out, and the writer keeps them out. -/
theorem readers_then_writer :
    ∃ before : List (Machine.Transition (ObservableRefCell Nat Nat) (Op Nat Nat) (Res Nat)),
    ∃ t later c, (machine 1).Run (before ++ t :: later) c ∧
      before.map Machine.Transition.act =
        [.borrow 0, .tryBorrowMut 0, .tryBorrow 0, .deref 2, .dropGuard 1, .dropGuard 2] ∧
      before.map Machine.Transition.out =
        [.guard (some 1), .guard none, .guard (some 2), .value 1, .done, .done] ∧
      t.act = .borrowMut 0 ∧ t.out = .guard (some 3) ∧
      later.map Machine.Transition.act = [.derefMut 3 5, .tryBorrow 0, .borrow 0, .clone 0] ∧
      later.map Machine.Transition.out = [.done, .guard none, .panicked, .panicked] ∧
      c.value = written 3 t.after.value later ∧ c.value = 5 := by
  obtain ⟨before, t, later, c, run, first, act, rest, outs, out, outs', found, wrote⟩ :=
    Machine.exists_run_at (m := machine (W := Nat) (1 : Nat))
      (P := fun before t later c =>
        before.map Machine.Transition.out =
          [.guard (some 1), .guard none, .guard (some 2), .value 1, .done, .done] ∧
        t.out = .guard (some 3) ∧
        later.map Machine.Transition.out = [.done, .guard none, .panicked, .panicked] ∧
        c.guards.get? 3 = some (0, .cellRefMut true) ∧ written 3 t.after.value later = 5)
      [.borrow 0, .tryBorrowMut 0, .tryBorrow 0, .deref 2, .dropGuard 1, .dropGuard 2]
      (.borrowMut 0) [.derefMut 3 5, .tryBorrow 0, .borrow 0, .clone 0] rfl (by decide)
  have shows := (borrows_checked run).2.2.2 before t later 3 0 (.cellRefMut true) rfl out found
    nofun
  exact ⟨before, t, later, c, run, first, outs, act, out, rest, outs', shows, shows.trans wrote⟩

end Eneste.ObservableRefCell
